import DuneWeaver.Configuration.ParserHandler
import DuneWeaver.Configuration.ItemText
import Mathlib.Data.List.Forall2

open Outline

namespace DuneWeaver.Configuration

section Parser

/-- What holds of the result of a run, if it comes to one. -/
def Outcome.Yields {α : Type} (x : Outcome α) (good : α → Prop) : Prop := ∀ a, x = .ok a → good a

theorem Outcome.Yields.of_ok {α : Type} {a : α} {good : α → Prop} (ha : good a) : (Outcome.ok a).Yields good := by
  intro b hb
  cases hb
  exact ha

theorem Outcome.Yields.andThen {α β : Type} {x : Outcome α} {f : α → Outcome β} {good : α → Prop} {fine : β → Prop}
    (hx : x.Yields good) (hf : ∀ a, good a → (f a).Yields fine) : (x.andThen f).Yields fine := by
  cases x with
  | unfinished => exact fun _ h => nomatch h
  | exception e => exact fun _ h => nomatch h
  | ok a => exact hf a (hx a rfl)

/-- A property of the parser that the next token keeps, and that has nothing to do with the
state of the token. -/
structure Kept (P : Tokenizer → Prop) : Prop where
  tokenize : ∀ {t t' : Tokenizer}, P t → t.Tokenize = .ok t' → P t'
  matched : ∀ {t : Tokenizer}, P t → P t.matched
  held : ∀ {t : Tokenizer}, P t → P t.held

variable {P : Tokenizer → Prop} {enter : Enter} {path : List Bytes} {builders : List (Bytes × Group)}
  {self : Configurable} {t : Tokenizer}

theorem Kept.ofExcept (hkept : Kept P) (ht : P t) : (Outcome.ofExcept t.Tokenize).Yields P := by
  intro t' htokenize
  cases heq : t.Tokenize with
  | error e =>
    rw [heq] at htokenize
    cases htokenize
  | ok a =>
    rw [heq] at htokenize
    cases htokenize
    exact hkept.tokenize ht heq

/-- Entering a section keeps the property. -/
def Holds (P : Tokenizer → Prop) (enter : Enter) : Prop :=
    ∀ path group t, P t → (enter path group t).Yields fun r => P r.1

theorem single_holds (hkept : Kept P) (henter : Holds P enter) (ht : P t) :
    (single enter path builders self t).Yields fun r => P r.2.1 := by
  rw [single]
  split
  · exact (henter _ _ t ht).andThen fun r hr => .of_ok hr
  · split
    · exact (henter _ _ _ (hkept.matched ht)).andThen fun r hr => .of_ok hr
    · exact .of_ok ht

theorem entries_holds (hkept : Kept P) (henter : Holds P enter) (calls : List Entry) (ht : P t) :
    (entries enter path builders calls self t).Yields fun r => P r.2.1 := by
  induction calls generalizing self t with
  | nil => exact single_holds hkept henter ht
  | cons call calls ih =>
    cases call with
    | item name convert =>
      rw [entries]
      split
      · split
        · exact (ih (hkept.matched ht)).andThen fun r hr => .of_ok hr
        · exact .of_ok (hkept.matched ht)
        · intro _ h
          cases h
      · exact ih ht
    | «section» name group =>
      rw [entries]
      split
      · split
        · exact .of_ok (hkept.matched ht)
        · refine (henter _ _ _ (hkept.matched ht)).andThen fun r hr => ?_
          exact (ih hr).andThen fun r hr => .of_ok hr
      · exact ih ht
    | factory candidates =>
      rw [entries]
      split
      · refine (henter _ _ _ (hkept.matched ht)).andThen fun r hr => ?_
        exact (ih hr).andThen fun r hr => .of_ok hr
      · exact ih ht

/-- The loop of a section keeps the property, and ends left of the section. -/
theorem section_holds (hkept : Kept P) (henter : Holds P enter) {group : Group} {thisIndent : Int} (fuel : Nat)
    (ht : P t) :
    (section_ enter path group thisIndent fuel self t).Yields fun r => P r.1 ∧ r.1._token._indent < thisIndent := by
  induction fuel generalizing self t with
  | zero => exact fun _ h => nomatch h
  | succ fuel ih =>
    rw [section_]
    split
    case isTrue hleft => exact .of_ok ⟨ht, hleft⟩
    case isFalse =>
      have hbody : (if thisIndent < t._token._indent then .ok (self, t, []) else group.apply enter path self t :
          Grouped).Yields fun r => P r.2.1 := by
        split
        · exact .of_ok ht
        · cases group with
          | mk calls builders => exact entries_holds hkept henter calls ht
      refine hbody.andThen fun r hr => ?_
      refine (hkept.ofExcept hr).andThen fun t' ht' => ?_
      exact (ih ht').andThen fun r hr => .of_ok hr

theorem enterSection_holds (hkept : Kept P) (fuel : Nat) : Holds P (enterSection fuel) := by
  induction fuel with
  | zero => exact fun _ _ _ _ _ h => nomatch h
  | succ fuel ih =>
    intro path group t ht
    rw [enterSection]
    refine (hkept.ofExcept ht).andThen fun t' ht' => ?_
    have hsection : (if t._token._indent < t'._token._indent
        then section_ (enterSection fuel) path group t'._token._indent fuel {} t' else .ok (t', [])).Yields
        fun r => P r.1 := by
      split
      · intro r hr
        exact (section_holds hkept ih fuel ht' r hr).1
      · exact .of_ok ht'
    exact hsection.andThen fun r hr => .of_ok (hkept.held hr)

end Parser

/-- Lines as they are printed. -/
def joined (printed : List Bytes) : Bytes := printed.flatMap fun line => line ++ bytes "\r\n"

/-- What is printed is the lines of a tree, with blank lines among them. -/
inductive Reads : List Bytes → List (Nat × Bytes × Bytes) → Prop where
  | nothing : Reads [] []
  | blank {printed : List Bytes} {lines : List (Nat × Bytes × Bytes)} (hmore : Reads printed lines) :
    Reads ([] :: printed) lines
  | line {l : Nat × Bytes × Bytes} {body : Bytes} {printed : List Bytes} {lines : List (Nat × Bytes × Bytes)}
    (hline : LineText l body) (hnewline : 0x0a ∉ body) (hmore : Reads printed lines) :
    Reads (body :: printed) (l :: lines)

/-- A line with a key, whose value ends the parse. -/
structure Broken (body : Bytes) : Prop where
  newline : 0x0a ∉ body
  content : ∃ indent content, body = List.replicate indent 0x20 ++ content ∧ content.head?.any isIdentifierChar ∧
    ∀ t : Tokenizer, ∃ key rest e, t.parseKey content = .ok (key, rest) ∧ t.parseValue rest = .error e

/-- Among the lines there is a broken one, behind others that are read. -/
def Breaks (printed : List Bytes) : Prop :=
  ∃ before lines body after, printed = before ++ body :: after ∧ Reads before lines ∧ Broken body

section Lines

variable {printed more : List Bytes} {lines lines' : List (Nat × Bytes × Bytes)} {text : Bytes}

theorem Reads.append (hreads : Reads printed lines) (hmore : Reads more lines') :
    Reads (printed ++ more) (lines ++ lines') := by
  induction hreads with
  | nothing => exact hmore
  | blank _ ih => exact .blank ih
  | line hline hnewline _ ih => exact .line hline hnewline ih

theorem ends_println {body : Bytes} (hnewline : 0x0a ∉ body) : Ends body (body ++ [0x0d]) :=
  ⟨by simp [hnewline], .inl rfl⟩

theorem joined_cons (body : Bytes) (printed : List Bytes) :
    joined (body :: printed) = (body ++ [0x0d]) ++ 0x0a :: joined printed := by
  simp [joined, bytes]

theorem Reads.prints (hreads : Reads printed lines) : Prints lines (joined printed) := by
  induction hreads with
  | nothing => exact .nothing
  | blank _ ih =>
    rw [joined_cons]
    exact .filler (.blank 0) (ends_println (by simp)) ih
  | line hline hnewline _ ih =>
    rw [joined_cons]
    exact .line hline (ends_println hnewline) ih

theorem Breaks.newline {body : Bytes} (hbreaks : Breaks (body :: printed)) : 0x0a ∉ body := by
  obtain ⟨before, lines, broken, after, hsplit, hbefore, hbroken⟩ := hbreaks
  cases hbefore with
  | nothing =>
    rw [(List.cons.inj hsplit).1]
    exact hbroken.newline
  | blank =>
    rw [(List.cons.inj hsplit).1]
    simp
  | line hline hnewline =>
    rw [(List.cons.inj hsplit).1]
    exact hnewline

theorem Breaks.of_head {body : Bytes} (hbroken : Broken body) (after : List Bytes) : Breaks (body :: after) :=
  ⟨[], [], body, after, rfl, .nothing, hbroken⟩

theorem Breaks.behind (hreads : Reads printed lines) (hbreaks : Breaks more) : Breaks (printed ++ more) := by
  obtain ⟨before, lines', body, after, rfl, hbefore, hbroken⟩ := hbreaks
  exact ⟨printed ++ before, lines ++ lines', body, after, by simp, hreads.append hbefore, hbroken⟩

theorem Breaks.before (hbreaks : Breaks printed) (more : List Bytes) : Breaks (printed ++ more) := by
  obtain ⟨before, lines', body, after, rfl, hbefore, hbroken⟩ := hbreaks
  exact ⟨before, lines', body, after ++ more, by simp, hbefore, hbroken⟩

end Lines

/-- The tree of the values that are read where all are. -/
def Tree.config : Tree → Config
  | .nil => .nil
  | .item name it rest => .node (name, (seen it.text).getD []) 1 .nil rest.config
  | .section name children rest => .node (name, []) 1 children.config rest.config
  | .absent _ _ rest => rest.config

/-- Every value is read, as what it was or as another. -/
def Tree.Readable : Tree → Prop
  | .nil => True
  | .item _ it rest => (seen it.text).isSome ∧ rest.Readable
  | .section _ children rest => children.Readable ∧ rest.Readable
  | .absent _ _ rest => rest.Readable

theorem Tree.readable_iff (tree : Tree) (path : List Bytes) :
    tree.Readable ↔ ∀ visit ∈ tree.visits path, (seen visit.item.text).isSome := by
  induction tree generalizing path with
  | nil => simp [Readable, visits]
  | item name it rest ih => simp [Readable, visits, ih path]
  | «section» name children rest ihChildren ihRest =>
    simp only [Readable, visits, List.mem_append, or_imp, forall_and, ihChildren (path ++ [name.1]), ihRest path]
  | absent name group rest ih => exact ih path

section Dump

theorem newline_notMem_name (name : Name) : 0x0a ∉ name.1 :=
  fun hmem => (identifier_plain (name.2.2 _ hmem)).2.2.1 rfl

theorem newline_notMem_to_string (value : Int) : 0x0a ∉ to_string value := by
  intro hmem
  have hdigit := mem_to_string hmem
  revert hdigit
  decide

theorem Item.newline_notMem_text (item : Item) : 0x0a ∉ item.text := by
  cases item with
  | int32 minValue maxValue value => exact newline_notMem_to_string _
  | uint32 minValue maxValue value => exact newline_notMem_to_string _
  | bool value =>
    cases value with
    | true => decide
    | false => decide
  | enum e value =>
    obtain ⟨item, -, -, htext⟩ := enum_text e value
    rw [htext]
    exact newline_notMem_name item.1
  | string value => exact value.2.1

theorem newline_notMem_line (indent : Nat) (name : Name) {value : Bytes} (hvalue : 0x0a ∉ value) :
    0x0a ∉ List.replicate indent 0x20 ++ name.1 ++ bytes ": " ++ shown value := by
  have hshown : 0x0a ∉ shown value := by
    have hc_str : 0x0a ∉ c_str value := fun hmem => hvalue ((List.takeWhile_prefix _).subset hmem)
    unfold shown
    split
    · exact hc_str
    · simp [hc_str]
  have hspaces : 0x0a ∉ List.replicate indent (0x20 : UInt8) := fun hmem => by simpa using List.eq_of_mem_replicate hmem
  have hcolon : 0x0a ∉ bytes ": " := by decide
  simp only [List.mem_append, hspaces, newline_notMem_name, hcolon, hshown, or_self, not_false_eq_true]

/-- A line begins with its name. -/
theorem line_head (indent : Nat) (name : Name) (value : Bytes) :
    ∃ content, List.replicate indent 0x20 ++ name.1 ++ bytes ": " ++ shown value =
      List.replicate indent 0x20 ++ content ∧
      content.head?.any isIdentifierChar := by
  refine ⟨name.1 ++ bytes ": " ++ shown value, by simp, ?_⟩
  obtain ⟨c, rest, heq, hc⟩ := name.keyText.ne_nil
  rw [heq]
  exact hc

/-- A value that is not read breaks its line. -/
theorem broken_of_not_seen (indent : Nat) (name : Name) (item : Item) (hseen : seen item.text = none) :
    Broken (List.replicate indent 0x20 ++ name.1 ++ bytes ": " ++ shown item.text) := by
  have herror : ∃ e, Tokenizer.parseValue { _remainder := [] } (0x20 :: shown item.text) = .error e := by
    unfold seen at hseen
    cases hparse : Tokenizer.parseValue { _remainder := [] } (0x20 :: shown item.text) with
    | error e => exact ⟨e, rfl⟩
    | ok read =>
      rw [hparse] at hseen
      cases hseen
  obtain ⟨e, herror⟩ := herror
  refine ⟨newline_notMem_line indent name item.newline_notMem_text, indent,
    name.1 ++ [] ++ 0x3a :: (0x20 :: shown item.text), ?_, ?_, ?_⟩
  · simp [bytes]
  · obtain ⟨c, rest, heq, hc⟩ := name.keyText.ne_nil
    rw [heq]
    exact hc
  · intro t
    obtain ⟨e', herror'⟩ := parseValue_error herror t
    exact ⟨name.1, _, e', parseKey_line name.keyText (by simp) _ t, herror'⟩

/-- The line of a value that is read. -/
theorem reads_item (name : Name) {value read : Bytes} (hnewline : 0x0a ∉ value) (hseen : seen value = some read)
    (indent : Nat) {printed : List Bytes} {lines : List (Nat × Bytes × Bytes)} (hmore : Reads printed lines) :
    Reads ((List.replicate indent 0x20 ++ name.1 ++ bytes ": " ++ shown value) :: printed)
      ((indent, name.1, read) :: lines) :=
  .line (lineText_of_seen name hseen indent) (newline_notMem_line indent name hnewline) hmore

/-- What the generator does with a configuration: it prints the lines of its tree, two columns
further right in each section, or breaks one where a value is not read. -/
structure Dumps (tree : Tree) (g : Generator) (added : List Bytes) : Prop where
  dst_ : (tree.dump g).dst_ = g.dst_ ++ added
  indent_ : (tree.dump g).indent_ = g.indent_
  reads : tree.Readable → Reads added (tree.config.lines (g.indent_ * 2))
  breaks : ¬ tree.Readable → Breaks added
  head : ∀ body ∈ added.head?, ∃ content, body = List.replicate (g.indent_ * 2) 0x20 ++ content ∧
    content.head?.any isIdentifierChar

theorem dump_dumps (tree : Tree) (g : Generator) : ∃ added, Dumps tree g added := by
  induction tree generalizing g with
  | nil => exact ⟨[], by simp [Tree.dump], rfl, fun _ => .nothing, fun h => absurd trivial h, by simp⟩
  | item name it rest ih =>
    obtain ⟨added, hdst, hindent, hreads, hbreaks, -⟩ := ih (g.send_item name it.text)
    refine ⟨(List.replicate (g.indent_ * 2) 0x20 ++ name.1 ++ bytes ": " ++ shown it.text) :: added, ?_, hindent,
      ?_, ?_, ?_⟩
    · rw [Tree.dump, hdst]
      simp [Generator.send_item]
    · rintro ⟨hseen, hrest⟩
      obtain ⟨read, hread⟩ := Option.isSome_iff_exists.mp hseen
      rw [Tree.config, Forest.lines, hread]
      exact reads_item name it.newline_notMem_text hread _ (hreads hrest)
    · intro hnot
      cases hseen : seen it.text with
      | none => exact .of_head (broken_of_not_seen _ name it hseen) added
      | some read =>
        have hrest : ¬ rest.Readable := fun hrest => hnot ⟨by simp [hseen], hrest⟩
        exact Breaks.behind (reads_item name it.newline_notMem_text hseen _ .nothing) (hbreaks hrest)
    · intro body hbody
      obtain rfl : _ = body := Option.some.inj hbody
      exact line_head _ name it.text
  | «section» name children rest ihChildren ihRest =>
    obtain ⟨inside, hdst, hindent, hreads, hbreaks, -⟩ := ihChildren (g.enter name)
    obtain ⟨behind, hdst', hindent', hreads', hbreaks', -⟩ := ihRest (children.dump (g.enter name)).leave
    have hleft : (children.dump (g.enter name)).leave.indent_ = g.indent_ := by
      have hback : (children.dump (g.enter name)).leave.indent_ = (children.dump (g.enter name)).indent_ - 1 := by
        unfold Generator.leave
        dsimp only
        split <;> rfl
      rw [hback, hindent]
      rfl
    obtain ⟨blank, hblank, hlast⟩ : ∃ blank, (children.dump (g.enter name)).leave.dst_ =
        (children.dump (g.enter name)).dst_ ++ blank ∧ Reads blank [] := by
      unfold Generator.leave
      dsimp only
      split
      · exact ⟨[[]], rfl, .blank .nothing⟩
      · exact ⟨[], by simp, .nothing⟩
    have hempty : seen [] = some [] := rfl
    have hheader : Reads [List.replicate (g.indent_ * 2) 0x20 ++ name.1 ++ bytes ": " ++ shown []]
        [(g.indent_ * 2, name.1, [])] := reads_item name (by simp) hempty _ .nothing
    have hdeeper : (g.enter name).indent_ * 2 = g.indent_ * 2 + 1 + 1 := by
      show (g.indent_ + 1) * 2 = _
      omega
    refine ⟨[List.replicate (g.indent_ * 2) 0x20 ++ name.1 ++ bytes ": " ++ shown []] ++
      (inside ++ (blank ++ behind)), ?_, ?_,
      ?_, ?_, ?_⟩
    · rw [Tree.dump, hdst', hblank, hdst]
      simp [Generator.enter, Generator.send_item]
    · exact hindent'.trans hleft
    · rintro ⟨hchildren, hrest⟩
      have hinside := hreads hchildren
      have hbehind := hreads' hrest
      rw [hdeeper] at hinside
      rw [hleft] at hbehind
      have hlines := hheader.append (hinside.append (hlast.append hbehind))
      simpa [Tree.config, Forest.lines] using hlines
    · intro hnot
      by_cases hchildren : children.Readable
      · have hrest : ¬ rest.Readable := fun hrest => hnot ⟨hchildren, hrest⟩
        exact .behind hheader (.behind (hreads hchildren) (.behind hlast (hbreaks' hrest)))
      · exact .behind hheader ((hbreaks hchildren).before _)
    · intro body hbody
      obtain rfl : _ = body := Option.some.inj hbody
      exact line_head _ name []
  | absent name group rest ih =>
    obtain ⟨added, hdst, hindent, hreads, hbreaks, hhead⟩ := ih g
    exact ⟨added, hdst, hindent, hreads, hbreaks, hhead⟩

end Dump

section Break

variable {t t' : Tokenizer} {printed : List Bytes}

/-- What is left to read has a broken line. -/
def BreaksAhead (t : Tokenizer) : Prop := ∃ printed, Breaks printed ∧ t._remainder = joined printed

/-- The parse of a line ends in an exception. -/
def Fails (content : Bytes) : Prop :=
  ∀ t : Tokenizer, ∃ key rest e, t.parseKey content = .ok (key, rest) ∧ t.parseValue rest = .error e

theorem behindLine_joined {body : Bytes} (hnewline : 0x0a ∉ body)
    (hremainder : t._remainder = joined (body :: printed)) :
    t._remainder ≠ [] ∧ t._remainder.takeWhile (· ≠ 0x0a) = body ++ [0x0d] ∧
      t.behindLine._remainder = joined printed := by
  rw [joined_cons] at hremainder
  obtain ⟨htake, hdrop⟩ := takeWhile_ne_append (ends_println hnewline).1 (joined printed)
  rw [Tokenizer.behindLine, hremainder]
  exact ⟨by simp, htake, hdrop⟩

/-- The next line is the broken one, or it is still ahead behind the next line. -/
theorem nextLine_breaks {before after : List Bytes} {lines : List (Nat × Bytes × Bytes)} {body : Bytes}
    (hbefore : Reads before lines) (hbroken : Broken body)
    (hremainder : t._remainder = joined (before ++ body :: after))
    {fuel : Nat} (hfuel : before.length < fuel) :
    ∃ indent content t', t.nextLine fuel = .ok (some (indent, content), t') ∧ (BreaksAhead t' ∨ Fails content) := by
  induction hbefore generalizing t fuel with
  | nothing =>
    obtain ⟨hnewline, indent, content, rfl, hhead, hfails⟩ := hbroken
    obtain ⟨fuel, rfl⟩ : ∃ n, fuel = n + 1 := ⟨fuel - 1, by simp at hfuel; omega⟩
    obtain ⟨hne, hline, -⟩ := behindLine_joined hnewline hremainder
    exact ⟨indent, content, _, nextLine_line hhead (ends_println hnewline) hne hline fuel, .inr hfails⟩
  | blank hmore ih =>
    obtain ⟨fuel, rfl⟩ : ∃ n, fuel = n + 1 := ⟨fuel - 1, by simp at hfuel; omega⟩
    obtain ⟨hne, hline, hbehind⟩ := behindLine_joined (by simp) hremainder
    rw [nextLine_filler (.blank 0) (ends_println (by simp)) hne hline]
    exact ih hbehind (by simp at hfuel; omega)
  | @line l first printed lines hfirst hnewline hmore ih =>
    obtain ⟨fuel, rfl⟩ : ∃ n, fuel = n + 1 := ⟨fuel - 1, by simp at hfuel; omega⟩
    obtain ⟨content, rfl, hhead, -⟩ := hfirst.content
    obtain ⟨hne, hline, hbehind⟩ := behindLine_joined hnewline hremainder
    refine ⟨l.1, content, _, nextLine_line hhead (ends_println hnewline) hne hline fuel, .inl ?_⟩
    exact ⟨_, ⟨printed, lines, body, after, rfl, hmore, hbroken⟩, hbehind⟩

theorem length_le_joined (printed : List Bytes) : printed.length ≤ (joined printed).length := by
  induction printed with
  | nil => exact Nat.le_refl _
  | cons body printed ih =>
    rw [joined_cons, List.length_cons, List.length_append, List.length_cons]
    omega

/-- A token that is fetched stands where its line does. -/
theorem Tokenize_found {indent : Nat} {content : Bytes} {t₁ : Tokenizer} (hheld : t._token._state ≠ .Held)
    (hnext : t.nextLine t._remainder.length = .ok (some (indent, content), t₁)) (htokenize : t.Tokenize = .ok t') :
    t'._remainder = t₁._remainder ∧ t'._token._indent = indent := by
  rw [Tokenizer.Tokenize, if_neg hheld, hnext] at htokenize
  cases hkey : t₁.parseKey content with
  | error e =>
    simp only [hkey, bind, Except.bind] at htokenize
    cases htokenize
  | ok key =>
    cases hvalue : t₁.parseValue key.2 with
    | error e =>
      simp only [hkey, hvalue, bind, Except.bind] at htokenize
      cases htokenize
    | ok value =>
      simp only [hkey, hvalue, bind, Except.bind, pure, Except.pure, Except.ok.injEq] at htokenize
      rw [← htokenize]
      exact ⟨rfl, rfl⟩

/-- The broken line is still ahead behind every token that can be fetched. -/
theorem Tokenize_breaks (hbreaks : BreaksAhead t) (hheld : t._token._state ≠ .Held) (htokenize : t.Tokenize = .ok t') :
    BreaksAhead t' ∧ 0 ≤ t'._token._indent := by
  obtain ⟨printed, ⟨before, lines, body, after, rfl, hbefore, hbroken⟩, hremainder⟩ := hbreaks
  have hfuel : before.length < t._remainder.length := by
    have hlength := length_le_joined (before ++ body :: after)
    rw [← hremainder, List.length_append, List.length_cons] at hlength
    omega
  obtain ⟨indent, content, t₁, hnext, hahead | hfails⟩ := nextLine_breaks hbefore hbroken hremainder hfuel
  · obtain ⟨hremains, hindent⟩ := Tokenize_found hheld hnext htokenize
    obtain ⟨printed, hbreaks, heq⟩ := hahead
    exact ⟨⟨printed, hbreaks, hremains.trans heq⟩, hindent ▸ Int.natCast_nonneg indent⟩
  · obtain ⟨key, rest, e, hkey, herror⟩ := hfails t₁
    rw [Tokenizer.Tokenize, if_neg hheld, hnext] at htokenize
    simp only [hkey, herror, bind, Except.bind] at htokenize
    cases htokenize

/-- A broken line that is ahead stays ahead. -/
theorem breaks_kept : Kept fun t => BreaksAhead t ∧ 0 ≤ t._token._indent where
  tokenize := by
    intro t t' ht htokenize
    by_cases hheld : t._token._state = .Held
    · rw [Tokenizer.Tokenize, if_pos hheld] at htokenize
      cases htokenize
      exact ht
    · exact Tokenize_breaks ht.1 hheld htokenize
  matched ht := ht
  held ht := ht

/-- A text with a broken line cannot be loaded. -/
theorem load_yaml_breaks {machine : Group} {fuel : Nat} (hbreaks : Breaks printed)
    (hhead : ∀ body ∈ printed.head?, body.head?.any isIdentifierChar) (delivered : List Delivery) :
    load_yaml fuel machine (joined printed) ≠ .ok delivered := by
  intro hload
  obtain ⟨t, hnew⟩ : ∃ t : Tokenizer, t = { _remainder := joined printed } := ⟨_, rfl⟩
  have hheld : t._token._state ≠ .Held := by
    rw [hnew]
    exact TokenState.noConfusion
  rw [load_yaml, ← hnew] at hload
  cases fuel with
  | zero => cases hload
  | succ fuel =>
    rw [enterSection] at hload
    cases htokenize : t.Tokenize with
    | error e =>
      rw [htokenize] at hload
      cases hload
    | ok t' =>
      have hahead := Tokenize_breaks ⟨printed, hbreaks, by rw [hnew]⟩ hheld htokenize
      -- the first line stands at the left
      have hleft : t'._token._indent = 0 := by
        cases printed with
        | nil =>
          obtain ⟨before, lines, body, after, hsplit, -, -⟩ := hbreaks
          simp at hsplit
        | cons body rest =>
          have hremainder : t._remainder = joined (body :: rest) := by rw [hnew]
          obtain ⟨hne, hline, -⟩ := behindLine_joined (hbreaks.newline) hremainder
          have hfuel : t._remainder.length = t._remainder.length - 1 + 1 := by
            have hpos := List.length_pos_of_ne_nil hne
            omega
          have hends : Ends (List.replicate 0 0x20 ++ body) (body ++ [0x0d]) := ends_println hbreaks.newline
          have hnext := nextLine_line (hhead body rfl) hends hne hline (t._remainder.length - 1)
          rw [← hfuel] at hnext
          exact (Tokenize_found hheld hnext htokenize).2
      have hentry : t._token._indent = -1 := by rw [hnew]
      simp only [htokenize, Outcome.ofExcept, Outcome.ok_andThen, hentry, hleft] at hload
      rw [if_pos (by decide)] at hload
      cases hsection : section_ (enterSection fuel) [] machine 0 fuel {} t' with
      | unfinished =>
        rw [hsection] at hload
        cases hload
      | exception e =>
        rw [hsection] at hload
        cases hload
      | ok r =>
        obtain ⟨⟨-, hinside⟩, houtside⟩ :=
          section_holds breaks_kept (enterSection_holds breaks_kept fuel) fuel hahead r hsection
        omega

end Break

section Deliveries

variable (is_float : Bytes → Option Int)

theorem named_self (name : Name) : named name.1 name.1 = true := by
  simp [named, name.2.1]

theorem not_named_of_apart {a b : Bytes} (hapart : equal_ignore_case a b = false) : named a b = false := by
  unfold equal_ignore_case at hapart
  simp only [decide_eq_false_iff_not] at hapart
  simp [named, hapart]

theorem ne_of_apart {a b : Bytes} (hapart : equal_ignore_case a b = false) : b ≠ a := by
  rintro rfl
  simp [equal_ignore_case] at hapart

/-- A value that is read is accepted. -/
theorem Item.convert_of_seen {item : Item} {read : Bytes} (hseen : seen item.text = some read) :
    item.convert is_float read = .accepted := by
  have hparse : ∃ value, item.parse is_float read = .ok value := by
    by_cases hplain : item.Plain
    · exact ⟨_, (item.restores_iff is_float hseen).mpr hplain⟩
    · cases item with
      | string value => exact ⟨_, rfl⟩
      | int32 | uint32 | bool | enum => exact absurd trivial hplain
  obtain ⟨value, hparse⟩ := hparse
  rw [Item.convert, hparse]

/-- What an item is given. -/
def given (visit : Visit) : Delivery := ⟨visit.path, visit.name, (seen visit.item.text).getD []⟩

/-- The calls find what a part of the tree has under its names. -/
def Finds (calls : List Entry) (tree : Tree) : Prop :=
  ∀ name ∈ tree.names, find [] name.1 calls = find [] name.1 (tree.entries is_float)

/-- A name apart from those behind it stands in the way of none of them. -/
theorem Finds.rest {calls : List Entry} {tree rest : Tree} {name : Name} (hfinds : Finds is_float calls tree)
    (hnames : tree.names = name :: rest.names)
    (hpassed : ∀ other : Name, named name.1 other.1 = false →
      find [] other.1 (tree.entries is_float) = find [] other.1 (rest.entries is_float))
    (hother : ∀ other ∈ rest.names, equal_ignore_case name.1 other.1 = false) : Finds is_float calls rest := by
  intro other hmem
  have hbefore : other ∈ tree.names := by
    rw [hnames]
    exact List.mem_cons_of_mem name hmem
  rw [hfinds other hbefore]
  exact hpassed other (not_named_of_apart (hother other hmem))

/-- The tree of the values that are read delivers each to its item. -/
theorem deliveries_config {tree : Tree} (calls : List Entry) (self : Configurable) (path : List Bytes)
    (hfinds : Finds is_float calls tree) (hapart : tree.Apart) (hreadable : tree.Readable)
    (hcreated : ∀ name ∈ tree.names, name.1 ∉ self.created) (hinst : self.inst = none) :
    Regular (.mk calls []) self tree.config ∧
      deliveries path (.mk calls []) self tree.config = (tree.visits path).map given := by
  induction tree generalizing calls self path with
  | nil => exact ⟨trivial, rfl⟩
  | item name it rest ih =>
    obtain ⟨hother, hrest⟩ := hapart
    obtain ⟨hseen, hreadable⟩ := hreadable
    obtain ⟨read, hread⟩ := Option.isSome_iff_exists.mp hseen
    have hfind : find [] name.1 calls = some (.item name.1 (it.convert is_float)) := by
      rw [hfinds name List.mem_cons_self, Tree.entries, find, if_pos (named_self name)]
    have hpassed (other : Name) (hnamed : named name.1 other.1 = false) :
        find [] other.1 ((Tree.item name it rest).entries is_float) = find [] other.1 (rest.entries is_float) := by
      rw [Tree.entries, find, if_neg (by simp [hnamed])]
    have haccepted := it.convert_of_seen is_float hread
    obtain ⟨hregular, hdeliveries⟩ := ih calls self path (hfinds.rest is_float rfl hpassed hother) hrest hreadable
      (fun other hmem => hcreated other (List.mem_cons_of_mem name hmem)) hinst
    constructor
    · simp [Tree.config, Regular, Group.find, hfind, hread, haccepted, hregular]
    · simp [Tree.config, deliveries, Group.find, hfind, hread, haccepted, hdeliveries, Tree.visits, given]
  | «section» name children rest ihChildren ihRest =>
    obtain ⟨hother, hchildren, hrest⟩ := hapart
    obtain ⟨hreadable, hreadableRest⟩ := hreadable
    have hfind : find [] name.1 calls = some (.section name.1 (.mk (children.entries is_float) [])) := by
      rw [hfinds name List.mem_cons_self, Tree.entries, find, if_pos (named_self name)]
    have hpassed (other : Name) (hnamed : named name.1 other.1 = false) :
        find [] other.1 ((Tree.section name children rest).entries is_float) =
          find [] other.1 (rest.entries is_float) := by
      rw [Tree.entries, find, if_neg (by simp [hnamed])]
    have hnew : name.1 ∉ self.created := hcreated name List.mem_cons_self
    obtain ⟨hregular, hdeliveries⟩ := ihChildren (children.entries is_float) {} (path ++ [name.1]) (fun _ _ => rfl)
      hchildren hreadable (by simp) rfl
    obtain ⟨hregularRest, hdeliveriesRest⟩ := ihRest calls { self with created := name.1 :: self.created } path
      (hfinds.rest is_float rfl hpassed hother) hrest hreadableRest
      (by
        intro other hmem
        rw [List.mem_cons, not_or]
        exact ⟨ne_of_apart (hother other hmem), hcreated other (List.mem_cons_of_mem name hmem)⟩) hinst
    constructor
    · simp [Tree.config, Regular, Group.find, hfind, hnew, hregular, hregularRest]
    · simp [Tree.config, deliveries, Group.find, hfind, hnew, hdeliveries, hdeliveriesRest, Tree.visits]
  | absent name group rest ih =>
    obtain ⟨hother, hrest⟩ := hapart
    have hpassed (other : Name) (hnamed : named name.1 other.1 = false) :
        find [] other.1 ((Tree.absent name group rest).entries is_float) = find [] other.1 (rest.entries is_float) := by
      rw [Tree.entries, find, if_neg (by simp [hnamed])]
    exact ih calls self path (hfinds.rest is_float rfl hpassed hother) hrest hreadable
      (fun other hmem => hcreated other (List.mem_cons_of_mem name hmem)) hinst

end Deliveries

namespace Machine

/-- For every configuration, loading its dump gives each item its value and visits nothing
else exactly if all its strings are plain. -/
theorem roundTrips_iff (is_float : Bytes → Option Int) (m : Machine) :
    m.RoundTrips is_float ↔ ∀ visit ∈ m.tree.visits [], visit.item.Plain := by
  obtain ⟨added, hdst, -, hreads, hbreaks, hhead⟩ := dump_dumps m.tree {}
  have hdump : m.dump = joined added := by
    rw [dump, Generator.text, hdst]
    rfl
  by_cases hreadable : m.tree.Readable
  · obtain ⟨hregular, hdeliveries⟩ := deliveries_config is_float (m.tree.entries is_float) {} [] (fun _ _ => rfl)
      m.apart hreadable (by simp) rfl
    have hload : load_yaml (m.dump.length + 2) (m.tree.group is_float) m.dump = .ok ((m.tree.visits []).map given) := by
      rw [hdump, ← hdeliveries]
      exact load_yaml_delivers (hreads hreadable).prints hregular (Nat.le_refl _)
    have hseen := (m.tree.readable_iff []).mp hreadable
    have hrestores :
        m.RoundTrips is_float ↔ List.Forall₂ (Restores is_float) ((m.tree.visits []).map given) (m.tree.visits []) := by
      constructor
      · rintro ⟨delivered, hdelivered, hall⟩
        rw [hload] at hdelivered
        cases hdelivered
        exact hall
      · exact fun hall => ⟨_, hload, hall⟩
    rw [hrestores, List.forall₂_map_left_iff, List.forall₂_same]
    refine forall₂_congr fun visit hvisit => ?_
    obtain ⟨read, hread⟩ := Option.isSome_iff_exists.mp (hseen visit hvisit)
    rw [← visit.item.restores_iff is_float hread]
    constructor
    · intro hrestores
      simpa [given, hread] using hrestores.value
    · exact fun hparse => ⟨rfl, rfl, by simpa [given, hread] using hparse⟩
  · apply iff_of_false
    · rintro ⟨delivered, hdelivered, -⟩
      rw [hdump] at hdelivered
      refine load_yaml_breaks (hbreaks hreadable) ?_ delivered hdelivered
      intro body hbody
      obtain ⟨content, rfl, hcontent⟩ := hhead body hbody
      simpa using hcontent
    · intro hplain
      apply hreadable
      rw [m.tree.readable_iff []]
      exact fun visit hvisit => Option.isSome_iff_exists.mpr ⟨_, Item.seen_text (hplain visit hvisit)⟩

/-- An item whose string has a blank in front. -/
private def indented : Machine where
  tree := .item ⟨bytes "name", by decide +kernel⟩ (.string ⟨bytes " Sand Table", by decide +kernel⟩) .nil
  apart := by simp [Tree.Apart, Tree.names]

/-- The string has no colon, so it is printed without quotes, and the blank is lost. -/
theorem blank_in_front_is_lost : ¬ indented.RoundTrips fun _ => none := by
  rintro ⟨delivered, hload, hall⟩
  have honly : load_yaml (indented.dump.length + 2) (indented.tree.group fun _ => none) indented.dump =
      .ok [⟨[], bytes "name", bytes "Sand Table"⟩] := by decide
  rw [honly] at hload
  cases hload
  cases hall with
  | cons hfirst _ =>
    have hvalue : (Except.ok (ItemValue.string (bytes "Sand Table")) : Except Bytes ItemValue) =
        .ok (.string (bytes " Sand Table")) := hfirst.value
    have hsame := ItemValue.string.inj (Except.ok.inj hvalue)
    revert hsame
    decide

end Machine

end DuneWeaver.Configuration
