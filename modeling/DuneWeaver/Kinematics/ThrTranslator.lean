import DuneWeaver.Binary32.Strtof
import DuneWeaver.Bytes

namespace DuneWeaver

/-- The `float` operations that the translation is written in, with what the C library adds to them. -/
structure FloatOps (F : Type*) where
  strtof : Bytes → Option (F × Bytes)
  /-- `%.*f` -/
  printf : Nat → F → Bytes
  fmodf : F → F → F
  add : F → F → F
  sub : F → F → F
  lt : F → F → Bool
  eq : F → F → Bool
  zero : F
  one : F
  TWO_PI : F

/-- The machine's own. `TWO_PI` is twice the `float` next to pi. -/
def float : FloatOps Binary32.Value where
  strtof := Binary32.strtof
  printf := Binary32.Value.printf
  fmodf := Binary32.Value.fmodf
  add := Binary32.Value.add
  sub := Binary32.Value.sub
  lt := Binary32.Value.lt
  eq := Binary32.Value.eq
  zero := Binary32.round false 0
  one := Binary32.round false 1
  TWO_PI := Binary32.round false (13176795 / 2 ^ 21)

inductive ThrLine
  | Skip
  | Invalid
  | Oversize
  | Move (out : Bytes)
deriving DecidableEq

structure ThrTranslator (F : Type*) where
  feed : F
  emitted_feed : F
  in_preamble : Bool
  offset_locked : Bool
  theta_offset : F
deriving DecidableEq

/-- What the front of a line reads as. -/
inductive Pair (F : Type*)
  | blank
  | missing
  | fields (theta rho : F)
deriving DecidableEq

/-- What the owner of a translator does with it. -/
inductive ThrInput (F : Type*)
  | set_feed (feed : F)
  | line (line : Bytes) (outlen : Nat)

namespace ThrTranslator

variable {F : Type*} (ops : FloatOps F)

def start (feed : F) : ThrTranslator F :=
  { feed, emitted_feed := ops.zero, in_preamble := true, offset_locked := false, theta_offset := ops.zero }

def set_feed (t : ThrTranslator F) (feed : F) : ThrTranslator F := { t with feed }

def positive_mod_2pi (angle : F) : F :=
  let m := ops.fmodf angle ops.TWO_PI
  if ops.lt m ops.zero then ops.add m ops.TWO_PI else m

def readPair (line : Bytes) : Pair F :=
  let p := line.dropWhile fun c => c = 32 || c = 9
  if p.head? = none ∨ p.head? = some 0 ∨ p.head? = some 35 then .blank
  else
    match ops.strtof p with
    | none => .missing
    | some (theta, p) =>
      match ops.strtof p with
      | none => .missing
      | some (rho, _) => .fields theta rho

/-- Leading `0 0` pairs mean "start from the center". -/
def rho_only (t : ThrTranslator F) (theta rho : F) : Bool :=
  t.in_preamble && ops.eq theta ops.zero && ops.eq rho ops.zero

/-- What the two fields do to the state: any others end the preamble, and the first ones lock the offset. -/
def lock (t : ThrTranslator F) (theta rho : F) : ThrTranslator F :=
  if t.rho_only ops theta rho then t
  else
    let t := { t with in_preamble := false }
    if t.offset_locked then t
    else { t with theta_offset := ops.sub theta (positive_mod_2pi ops theta), offset_locked := true }

def clampRho (rho : F) : F :=
  if ops.lt rho ops.zero then ops.zero else if ops.lt ops.one rho then ops.one else rho

/-- The coordinates of the move, without the feed. -/
def coordinates (t : ThrTranslator F) (only : Bool) (theta rho : F) : Bytes :=
  if only then bytes "G90G1Y" ++ ops.printf 5 rho
  else bytes "G90G1X" ++ ops.printf 5 (ops.sub theta t.theta_offset) ++ bytes "Y" ++ ops.printf 5 rho

def emit_feed (t : ThrTranslator F) : Bool := ops.lt ops.zero t.feed && !ops.eq t.feed t.emitted_feed

def feedWord (t : ThrTranslator F) : Bytes := if t.emit_feed ops then bytes "F" ++ ops.printf 1 t.feed else []

/-- The two `snprintf` into `buf[64]`; the second one is left out where the first has not fitted. -/
def snprintf (t : ThrTranslator F) (text : Bytes) : Bytes := if text.length < 64 then text ++ t.feedWord ops else text

def translate (t : ThrTranslator F) (line : Bytes) (outlen : Nat) : ThrLine × ThrTranslator F :=
  match readPair ops line with
  | .blank => (.Skip, t)
  | .missing => (.Invalid, t)
  | .fields theta rho =>
    let only := t.rho_only ops theta rho
    let t := t.lock ops theta rho
    let buf := t.snprintf ops (t.coordinates ops only theta (clampRho ops rho))
    if buf.length ≥ 64 ∨ buf.length ≥ outlen then (.Oversize, t)
    else (.Move buf, if t.emit_feed ops then { t with emitted_feed := t.feed } else t)

/-- The state behind one input. -/
def step (t : ThrTranslator F) : ThrInput F → ThrTranslator F
  | .set_feed feed => t.set_feed feed
  | .line line outlen => (t.translate ops line outlen).2

variable {ops} {t : ThrTranslator F} {theta rho : F}

@[simp] theorem lock_feed : (t.lock ops theta rho).feed = t.feed := by
  rw [lock]
  split
  · rfl
  · dsimp only
    split <;> rfl

@[simp] theorem lock_emitted_feed : (t.lock ops theta rho).emitted_feed = t.emitted_feed := by
  rw [lock]
  split
  · rfl
  · dsimp only
    split <;> rfl

@[simp] theorem emit_feed_lock : (t.lock ops theta rho).emit_feed ops = t.emit_feed ops := by
  rw [emit_feed, emit_feed, lock_feed, lock_emitted_feed]

@[simp] theorem feedWord_lock : (t.lock ops theta rho).feedWord ops = t.feedWord ops := by
  rw [feedWord, feedWord, emit_feed_lock, lock_feed]

/-- A line that is dropped for its length has been taken note of, but its feed has not. -/
theorem translate_fields {line : Bytes} (hpair : readPair ops line = .fields theta rho) (outlen : Nat) :
    t.translate ops line outlen = (.Oversize, t.lock ops theta rho) ∨
      t.translate ops line outlen =
        (.Move ((t.lock ops theta rho).coordinates ops (t.rho_only ops theta rho) theta (clampRho ops rho) ++
            t.feedWord ops),
          { t.lock ops theta rho with emitted_feed := if t.emit_feed ops then t.feed else t.emitted_feed }) := by
  rw [translate, hpair]
  dsimp only
  split
  case isTrue hlong => exact .inl rfl
  case isFalse hlong =>
    rw [not_or, not_le, not_le, snprintf] at hlong
    rw [snprintf]
    split at hlong
    case isFalse hcut => omega
    case isTrue hcut =>
      right
      have hfeed : (t.lock ops theta rho).feed = t.feed := lock_feed
      have hemitted : (t.lock ops theta rho).emitted_feed = t.emitted_feed := lock_emitted_feed
      rw [if_pos hcut, feedWord_lock, emit_feed_lock]
      generalize t.lock ops theta rho = locked at hfeed hemitted
      rw [← hfeed, ← hemitted]
      split <;> rfl

/-- All that one line does. -/
theorem translate_cases (ops : FloatOps F) (t : ThrTranslator F) (line : Bytes) (outlen : Nat) :
    t.translate ops line outlen = (.Skip, t) ∨ t.translate ops line outlen = (.Invalid, t) ∨
    ∃ theta rho, readPair ops line = .fields theta rho ∧
      (t.translate ops line outlen = (.Oversize, t.lock ops theta rho) ∨
        t.translate ops line outlen =
          (.Move ((t.lock ops theta rho).coordinates ops (t.rho_only ops theta rho) theta (clampRho ops rho) ++
              t.feedWord ops),
            { t.lock ops theta rho with emitted_feed := if t.emit_feed ops then t.feed else t.emitted_feed })) := by
  cases hpair : readPair ops line with
  | blank => exact .inl (by rw [translate, hpair])
  | missing => exact .inr (.inl (by rw [translate, hpair]))
  | fields theta rho => exact .inr (.inr ⟨theta, rho, rfl, translate_fields hpair outlen⟩)

/-- How a line leaves the offset is decided before its length is. -/
theorem translate_offset {line : Bytes} (hpair : readPair ops line = .fields theta rho) (outlen : Nat) :
    (t.translate ops line outlen).2.in_preamble = (t.lock ops theta rho).in_preamble ∧
      (t.translate ops line outlen).2.offset_locked = (t.lock ops theta rho).offset_locked ∧
      (t.translate ops line outlen).2.theta_offset = (t.lock ops theta rho).theta_offset := by
  rcases translate_fields (t := t) hpair outlen with h | h <;> rw [h] <;> exact ⟨rfl, rfl, rfl⟩

end ThrTranslator

end DuneWeaver
