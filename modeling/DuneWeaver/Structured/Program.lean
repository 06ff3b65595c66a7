import DuneWeaver.Transition.Machine

namespace Structured

/-- What the lines and the expressions of a program mean. Nothing is the result of an error. -/
structure Meaning (L E σ : Type*) where
  exec : L → σ → Option σ
  test : E → σ → Option Bool
  count : E → σ → Option Nat

mutual

/-- A program of labelled blocks over lines `L` and expressions `E`. `note` is what the text of
the program says besides, at the beginning of a block and at its end. -/
inductive Prog (L E A : Type) where
  | done
  | line (l : L) (rest : Prog L E A)
  | cond (label : Nat) (test : E) (note : A) (body : Prog L E A) (alts : Alts L E A) (rest : Prog L E A)
  | doWhile (label : Nat) (note : A) (body : Prog L E A) (test : E) (note' : A) (rest : Prog L E A)
  | whileDo (label : Nat) (test : E) (note : A) (body : Prog L E A) (note' : A) (rest : Prog L E A)
  | loop (label : Nat) (count : E) (note : A) (body : Prog L E A) (note' : A) (rest : Prog L E A)
  | leave (label : Nat) (note : A) (rest : Prog L E A)
  | next (label : Nat) (note : A) (rest : Prog L E A)

/-- What comes when the condition before did not hold. -/
inductive Alts (L E A : Type) where
  | endif (note : A)
  | orelse (note : A) (body : Prog L E A) (note' : A)
  | elseif (test : E) (note : A) (body : Prog L E A) (alts : Alts L E A)

end

/-- A block that has been entered and not been left, with what comes after it. A counting
loop has `n` passes to go, with the present one. -/
inductive Frame (L E A : Type) where
  | cond (label : Nat) (alts : Alts L E A) (rest : Prog L E A)
  | doWhile (label : Nat) (body : Prog L E A) (test : E) (note' : A) (rest : Prog L E A)
  | whileDo (label : Nat) (test : E) (body : Prog L E A) (note' : A) (rest : Prog L E A)
  | loop (label : Nat) (n : Nat) (body : Prog L E A) (note' : A) (rest : Prog L E A)

/-- A program under way, or one that has met an error. -/
inductive Config (L E A : Type) (σ : Type*) where
  | running (todo : Prog L E A) (frames : List (Frame L E A)) (s : σ)
  | failed

variable {L E A : Type} {σ : Type*}

mutual

/-- The blocks that are open at the same time have different labels, and only an enclosing loop
is left or continued. -/
@[grind =] def Prog.Nested (opened loops : List Nat) : Prog L E A → Prop
  | .done => True
  | .line _ rest => rest.Nested opened loops
  | .cond label _ _ body alts rest =>
    label ∉ opened ∧ body.Nested (label :: opened) loops ∧ alts.Nested (label :: opened) loops ∧
      rest.Nested opened loops
  | .doWhile label _ body _ _ rest =>
    label ∉ opened ∧ body.Nested (label :: opened) (label :: loops) ∧ rest.Nested opened loops
  | .whileDo label _ _ body _ rest =>
    label ∉ opened ∧ body.Nested (label :: opened) (label :: loops) ∧ rest.Nested opened loops
  | .loop label _ _ body _ rest =>
    label ∉ opened ∧ body.Nested (label :: opened) (label :: loops) ∧ rest.Nested opened loops
  | .leave label _ rest => label ∈ loops ∧ rest.Nested opened loops
  | .next label _ rest => label ∈ loops ∧ rest.Nested opened loops

@[grind =] def Alts.Nested (opened loops : List Nat) : Alts L E A → Prop
  | .endif _ => True
  | .orelse _ body _ => body.Nested opened loops
  | .elseif _ _ body alts => body.Nested opened loops ∧ alts.Nested opened loops

end

namespace Frame

def label : Frame L E A → Nat
  | cond label _ _ => label
  | doWhile label _ _ _ _ => label
  | whileDo label _ _ _ _ => label
  | loop label _ _ _ _ => label

/-- What comes after the block. -/
def rest : Frame L E A → Prog L E A
  | cond _ _ rest => rest
  | doWhile _ _ _ _ rest => rest
  | whileDo _ _ _ _ rest => rest
  | loop _ _ _ _ rest => rest

/-- The label as the label of a loop, if the block is one. -/
def loopLabel : Frame L E A → List Nat
  | cond _ _ _ => []
  | doWhile label _ _ _ _ => [label]
  | whileDo label _ _ _ _ => [label]
  | loop label _ _ _ _ => [label]

end Frame

/-- The labels of the blocks that are open, and of the loops among them. -/
def opened (frames : List (Frame L E A)) : List Nat := frames.map Frame.label

def loops (frames : List (Frame L E A)) : List Nat := frames.flatMap Frame.loopLabel

/-- What is still to come of the blocks that are open is nested as well. -/
def FramesNested : List (Frame L E A) → Prop
  | [] => True
  | frame :: frames =>
    frame.label ∉ opened frames ∧ frame.rest.Nested (opened frames) (loops frames) ∧
      (match frame with
        | .cond label alts _ => alts.Nested (label :: opened frames) (loops frames)
        | .doWhile label body _ _ _ => body.Nested (label :: opened frames) (label :: loops frames)
        | .whileDo label _ body _ _ => body.Nested (label :: opened frames) (label :: loops frames)
        | .loop label _ body _ _ => body.Nested (label :: opened frames) (label :: loops frames)) ∧
      FramesNested frames

namespace Meaning

variable (m : Meaning L E σ)

/-- The next step of a program that goes on with one of two programs. -/
def branch (result : Option Bool) (yes no : Config L E A σ) : Config L E A σ :=
  match result with
  | none => .failed
  | some true => yes
  | some false => no

/-- The next step of a program after one that may fail. -/
def proceed (result : Option σ) (next : σ → Config L E A σ) : Config L E A σ :=
  match result with
  | none => .failed
  | some s => next s

/-- A counting loop is entered with the passes it has to make, or not at all. -/
def counted (result : Option Nat) (enter : Nat → Config L E A σ) (no : Config L E A σ) : Config L E A σ :=
  match result with
  | none => .failed
  | some 0 => no
  | some (n + 1) => enter (n + 1)

/-- Go on at an open block, out of those inside it. -/
def unwound (label : Nat) (frames : List (Frame L E A))
    (next : List (Frame L E A) → Frame L E A → Config L E A σ) : Config L E A σ :=
  match frames.dropWhile (·.label ≠ label) with
  | [] => .failed
  | frame :: frames => next frames frame

/-- Find the first alternative whose condition holds. -/
def choose (label : Nat) (rest : Prog L E A) (frames : List (Frame L E A)) (s : σ) : Alts L E A → Config L E A σ
  | .endif _ => .running rest frames s
  | .orelse _ body note' => .running body (.cond label (.endif note') rest :: frames) s
  | .elseif test _ body alts =>
    branch (m.test test s) (.running body (.cond label alts rest :: frames) s) (choose label rest frames s alts)

/-- The body of a block has come to its end. -/
def close (s : σ) (frames : List (Frame L E A)) : Frame L E A → Config L E A σ
  | .cond _ _ rest => .running rest frames s
  | .doWhile label body test note' rest =>
    branch (m.test test s) (.running body (.doWhile label body test note' rest :: frames) s)
      (.running rest frames s)
  | .whileDo label test body note' rest =>
    branch (m.test test s) (.running body (.whileDo label test body note' rest :: frames) s)
      (.running rest frames s)
  | .loop label n body note' rest =>
    if n > 1 then .running body (.loop label (n - 1) body note' rest :: frames) s else .running rest frames s

/-- One step of a structured program, with the line it executes, if it does. -/
def step : Config L E A σ → Option (List L × Config L E A σ)
  | .failed => none
  | .running .done [] _ => none
  | .running .done (frame :: frames) s => some ([], m.close s frames frame)
  | .running (.line l rest) frames s => some ([l], proceed (m.exec l s) (.running rest frames))
  | .running (.cond label test _ body alts rest) frames s =>
    some ([], branch (m.test test s) (.running body (.cond label alts rest :: frames) s)
      (m.choose label rest frames s alts))
  | .running (.doWhile label _ body test note' rest) frames s =>
    some ([], .running body (.doWhile label body test note' rest :: frames) s)
  | .running (.whileDo label test _ body note' rest) frames s =>
    some ([], branch (m.test test s) (.running body (.whileDo label test body note' rest :: frames) s)
      (.running rest frames s))
  | .running (.loop label count _ body note' rest) frames s =>
    some ([], counted (m.count count s) (fun n => .running body (.loop label n body note' rest :: frames) s)
      (.running rest frames s))
  | .running (.leave label _ _) frames s => some
      ([], unwound label frames fun frames frame => .running frame.rest frames s)
  | .running (.next label _ _) frames s => some ([], unwound label frames (m.close s))

end Meaning

end Structured
