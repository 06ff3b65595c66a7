import DuneWeaver.Configuration.ParserHandler
import DuneWeaver.Configuration.Delivery

open Outline

namespace DuneWeaver.Configuration

section Termination

/-- What holds of the result of a run, where it has one. A run out of fuel has
not settled. -/
def Outcome.Settles {α : Type} (x : Outcome α) (good : α → Prop) : Prop :=
  match x with
  | .unfinished => False
  | .exception _ => True
  | .ok a => good a

theorem Outcome.Settles.andThen {α β : Type} {x : Outcome α} {f : α → Outcome β} {good : α → Prop} {fine : β → Prop}
    (hx : x.Settles good) (hf : ∀ a, good a → (f a).Settles fine) : (x.andThen f).Settles fine := by
  cases x with
  | unfinished => exact hx.elim
  | exception e => trivial
  | ok a => exact hf a hx

namespace Tokenizer

/-- The characters not read yet, and one more where the token is not the end. -/
def weight (t : Tokenizer) : Nat := t._remainder.length + if t._token._indent = -1 then 0 else 1

/-- A bound on the weight of the next token. -/
def bound (t : Tokenizer) : Nat := if t._token._state = .Held then t.weight else t._remainder.length

variable {t t' : Tokenizer}

/-- A line found has been read. -/
theorem nextLine_length {fuel : Nat} {found : Option (Nat × Bytes)} (hnext : t.nextLine fuel = .ok (found, t')) :
    t'._remainder.length ≤ t._remainder.length ∧ (found ≠ none → t'._remainder.length < t._remainder.length) := by
  induction fuel generalizing t with
  | zero =>
    simp only [nextLine, Except.ok.injEq, Prod.mk.injEq] at hnext
    obtain ⟨rfl, rfl⟩ := hnext
    exact ⟨Nat.le_refl _, fun hne => absurd rfl hne⟩
  | succ fuel ih =>
    rw [nextLine] at hnext
    simp only at hnext
    split at hnext
    · simp only [Except.ok.injEq, Prod.mk.injEq] at hnext
      obtain ⟨rfl, rfl⟩ := hnext
      exact ⟨Nat.le_refl _, fun hne => absurd rfl hne⟩
    · rename_i hremainder
      have hshorter : ((t._remainder.dropWhile (· ≠ 0x0a)).drop 1).length < t._remainder.length := by
        have hpos := List.length_pos_of_ne_nil hremainder
        have hle := (List.dropWhile_suffix (l := t._remainder) (· ≠ 0x0a)).length_le
        rw [List.length_drop]
        omega
      split at hnext
      · have hlength := ih hnext
        simp only at hlength
        exact ⟨by omega, fun _ => by omega⟩
      · split at hnext
        · cases hnext
        · split at hnext
          · have hlength := ih hnext
            simp only at hlength
            exact ⟨by omega, fun _ => by omega⟩
          · simp only [Except.ok.injEq, Prod.mk.injEq] at hnext
            obtain ⟨rfl, rfl⟩ := hnext
            exact ⟨Nat.le_of_lt hshorter, fun _ => hshorter⟩

/-- Fetching a token uses up some of the text, unless the token was held. -/
theorem Tokenize_weight (htokenize : t.Tokenize = .ok t') :
    t'.weight ≤ t.bound ∧ t'._token._state ≠ .Held ∧ (-1 ≤ t._token._indent → -1 ≤ t'._token._indent) := by
  rw [Tokenize] at htokenize
  split at htokenize
  · rename_i hheld
    cases htokenize
    rw [bound, if_pos hheld]
    exact ⟨Nat.le_refl _, TokenState.noConfusion, id⟩
  · rename_i hheld
    rw [bound, if_neg hheld]
    split at htokenize
    · cases htokenize
    · rename_i s hnext
      cases htokenize
      obtain ⟨hle, -⟩ := nextLine_length hnext
      exact ⟨by simpa [weight] using hle, TokenState.noConfusion, fun _ => Int.le_refl _⟩
    · rename_i _indent _line s hnext
      obtain ⟨-, hlt⟩ := nextLine_length hnext
      have hlt := hlt (by simp)
      cases hkey : s.parseKey _line with
      | error e => simp [hkey, bind, Except.bind] at htokenize
      | ok key =>
        cases hvalue : s.parseValue key.2 with
        | error e => simp [hkey, hvalue, bind, Except.bind] at htokenize
        | ok value =>
          simp only [hkey, hvalue, bind, Except.bind, pure, Except.pure, Except.ok.injEq] at htokenize
          rw [← htokenize]
          refine ⟨?_, TokenState.noConfusion, fun _ => ?_⟩
          · simp only [weight]
            split <;> omega
          · show (-1 : Int) ≤ (_indent : Nat)
            omega

end Tokenizer

variable {enter : Enter} {path : List Bytes} {builders : List (Bytes × Group)} {self : Configurable} {t : Tokenizer}
  {limit : Nat}

/-- Nothing that is entered reaches back behind what has been read. -/
def Closes (enter : Enter) (limit : Nat) : Prop :=
  ∀ path group t, t.bound ≤ limit → -1 ≤ t._token._indent →
    (enter path group t).Settles fun r => r.1.bound ≤ limit ∧ -1 ≤ r.1._token._indent

theorem bound_matched {name : Bytes} (his : t.is name) : t.matched.bound = t.bound := by
  have hstate : t._token._state = .Matching := by
    rw [Tokenizer.is, Bool.and_eq_true, decide_eq_true_eq] at his
    exact his.1
  simp [Tokenizer.bound, Tokenizer.matched, hstate]

theorem single_settles (hcloses : Closes enter limit) (hbound : t.bound ≤ limit) (hindent : -1 ≤ t._token._indent) :
    (single enter path builders self t).Settles fun r => r.2.1.bound ≤ limit ∧ -1 ≤ r.2.1._token._indent := by
  rw [single]
  split
  · exact (hcloses _ _ t hbound hindent).andThen fun r hr => hr
  · split
    · rename_i name group hfind
      have his : t.is name := by simpa using List.find?_some hfind
      rw [← bound_matched his] at hbound
      exact (hcloses _ _ t.matched hbound hindent).andThen fun r hr => hr
    · exact ⟨hbound, hindent⟩

theorem entries_settles (hcloses : Closes enter limit) (calls : List Entry) (hbound : t.bound ≤ limit)
    (hindent : -1 ≤ t._token._indent) :
    (entries enter path builders calls self t).Settles fun r =>
      r.2.1.bound ≤ limit ∧ -1 ≤ r.2.1._token._indent := by
  induction calls generalizing self t with
  | nil => exact single_settles hcloses hbound hindent
  | cons call calls ih =>
    cases call with
    | item name convert =>
      rw [entries]
      split
      · rename_i his
        rw [← bound_matched his] at hbound
        split
        · exact (ih hbound hindent).andThen fun r hr => hr
        · exact ⟨hbound, hindent⟩
        · trivial
      · exact ih hbound hindent
    | «section» name group =>
      rw [entries]
      split
      · rename_i his
        rw [← bound_matched his] at hbound
        split
        · exact ⟨hbound, hindent⟩
        · refine (hcloses _ _ t.matched hbound hindent).andThen fun r hr => ?_
          exact (ih hr.1 hr.2).andThen fun r hr => hr
      · exact ih hbound hindent
    | factory candidates =>
      rw [entries]
      split
      · rename_i name group hfind
        have his : t.is name := by simpa using List.find?_some hfind
        rw [← bound_matched his] at hbound
        refine (hcloses _ _ t.matched hbound hindent).andThen fun r hr => ?_
        exact (ih hr.1 hr.2).andThen fun r hr => hr
      · exact ih hbound hindent

/-- Every turn of the loop leaves less to read, so it ends. -/
theorem section_settles {thisIndent : Int} {group : Group} {fuel : Nat} (hcloses : ∀ n, n < limit → Closes enter n)
    (hthis : 0 ≤ thisIndent) (hlimit : t.weight ≤ limit) (hfuel : t.weight < fuel) (hheld : t._token._state ≠ .Held)
    (hindent : -1 ≤ t._token._indent) :
    (section_ enter path group thisIndent fuel self t).Settles fun r =>
      r.1.weight ≤ limit ∧ -1 ≤ r.1._token._indent := by
  induction fuel generalizing self t with
  | zero => omega
  | succ fuel ih =>
    rw [section_]
    split
    · exact ⟨hlimit, hindent⟩
    · rename_i hinside
      have hweight : t.weight = t.bound + 1 := by
        rw [Tokenizer.bound, if_neg hheld, Tokenizer.weight, if_neg (by omega)]
      have hbody : (if thisIndent < t._token._indent then .ok (self, t, []) else group.apply enter path self t :
          Grouped).Settles fun r => r.2.1.bound ≤ t.bound ∧ -1 ≤ r.2.1._token._indent := by
        split
        · exact ⟨Nat.le_refl _, hindent⟩
        · cases group with
          | mk calls builders => exact entries_settles (hcloses t.bound (by omega)) calls (Nat.le_refl _) hindent
      refine hbody.andThen fun r hr => ?_
      obtain ⟨self', t', delivered⟩ := r
      cases htokenize : t'.Tokenize with
      | error e =>
        simp only [htokenize, Outcome.ofExcept, Outcome.exception_andThen]
        trivial
      | ok t'' =>
        obtain ⟨hweight', hheld', hindent'⟩ := Tokenizer.Tokenize_weight htokenize
        simp only at hr
        simp only [htokenize, Outcome.ofExcept, Outcome.ok_andThen]
        exact (ih (by omega) (by omega) hheld' (hindent' hr.2)).andThen fun r hr => hr

/-- Entering a section ends with as much fuel as there is left to read. -/
theorem enterSection_settles {fuel : Nat} (hfuel : limit + 1 < fuel) : Closes (enterSection fuel) limit := by
  induction fuel generalizing limit with
  | zero => omega
  | succ fuel ih =>
    intro path group t hbound hindent
    rw [enterSection]
    cases htokenize : t.Tokenize with
    | error e => trivial
    | ok t' =>
      obtain ⟨hweight, hheld, hindent'⟩ := Tokenizer.Tokenize_weight htokenize
      have hindent' := hindent' hindent
      simp only [Outcome.ofExcept, Outcome.ok_andThen]
      have hsection : (if t._token._indent < t'._token._indent
          then section_ (enterSection fuel) path group t'._token._indent fuel {} t' else .ok (t', [])).Settles
          fun r => r.1.weight ≤ limit ∧ -1 ≤ r.1._token._indent := by
        split
        · exact section_settles (fun n hn => ih (by omega)) (by omega) (by omega) (by omega) hheld hindent'
        · exact ⟨Nat.le_trans hweight hbound, hindent'⟩
      exact hsection.andThen fun r hr => hr

/-- Parsing ends on every text whatever. -/
theorem load_yaml_finishes {fuel : Nat} {input : Bytes} (hfuel : input.length + 2 ≤ fuel) (machine : Group) :
    load_yaml fuel machine input ≠ .unfinished := by
  have hcloses : Closes (enterSection fuel) input.length := enterSection_settles (by omega)
  have hsettles := hcloses [] machine { _remainder := input } (Nat.le_refl _) (Int.le_refl _)
  rw [load_yaml]
  cases henter : enterSection fuel [] machine { _remainder := input } with
  | unfinished =>
    rw [henter] at hsettles
    exact hsettles.elim
  | exception e =>
    intro hfalse
    cases hfalse
  | ok r =>
    intro hfalse
    cases hfalse

end Termination

/-- Loading ends on every text, and on the text of a printed tree it delivers
the values of the tree: each once, to the section it is nested in, in the order
of the file, and nothing of what is nested in a key without a section. -/
theorem load_yaml_printed {machine : Group} {text : Bytes} {fuel : Nat} (hfuel : text.length + 2 ≤ fuel) :
    load_yaml fuel machine text ≠ .unfinished ∧
      ∀ (tree : Config) (indent : Nat), Prints (tree.lines indent) text → Regular machine {} tree →
        load_yaml fuel machine text = .ok (deliveries [] machine {} tree) :=
  ⟨load_yaml_finishes hfuel machine, fun _ _ hprints hregular => load_yaml_delivers hprints hregular hfuel⟩

/-- A machine with a section `a` that has an item `x`. -/
def sectionMachine : Group := .mk [.section (bytes "a") (.mk [.item (bytes "x") fun _ => .accepted] [])] []

/-- An unknown section and a comment in front of a known section. -/
theorem load_yaml_printed_unknown :
    load_yaml 40 sectionMachine (bytes "u:\n   x: 2\n # c\na:\n  x: '1'\n") =
      .ok [⟨[bytes "a"], bytes "x", bytes "1"⟩] := by
  let tree : Config :=
    .node (bytes "u", []) 2 (.node (bytes "x", bytes "2") 0 .nil .nil)
      (.node (bytes "a", []) 1 (.node (bytes "x", bytes "1") 0 .nil .nil) .nil)
  have hu : KeyText (bytes "u") := ⟨rfl, by decide, fun c hc => Option.some.inj hc ▸ rfl⟩
  have hx : KeyText (bytes "x") := ⟨rfl, by decide, fun c hc => Option.some.inj hc ▸ rfl⟩
  have ha : KeyText (bytes "a") := ⟨rfl, by decide, fun c hc => Option.some.inj hc ▸ rfl⟩
  have hnone : ∀ c ∈ ([] : Bytes), isWhiteSpace c := fun c hc => by cases hc
  have hspace : ∀ c ∈ bytes " ", isWhiteSpace c := fun c hc => List.mem_singleton.mp hc ▸ rfl
  have hprints : Prints (tree.lines 0) (bytes "u:\n   x: 2\n # c\na:\n  x: '1'\n") :=
    .line (.line 0 hu hnone hnone .empty) ⟨by decide, .inr ⟨rfl, by decide⟩⟩
      (.line (.line 3 hx hnone hspace (.plain [] rfl (by decide))) ⟨by decide, .inr ⟨rfl, by decide⟩⟩
        (.filler (.comment 1 (bytes " c")) ⟨by decide, .inr ⟨rfl, by decide⟩⟩
          (.line (.line 0 ha hnone hnone .empty) ⟨by decide, .inr ⟨rfl, by decide⟩⟩
            (.line (.line 2 hx hnone hspace (.quoted [] (.inr rfl) (by decide))) ⟨by decide, .inr ⟨rfl, by decide⟩⟩
              .nothing))))
  have hregular : Regular sectionMachine {} tree := by
    have hnothing : sectionMachine.find (bytes "u") = none := rfl
    have hsection : sectionMachine.find (bytes "a") =
        some (.section (bytes "a") (.mk [.item (bytes "x") fun _ => .accepted] [])) := rfl
    have hitem : (Group.mk [.item (bytes "x") fun _ => .accepted] []).find (bytes "x") =
        some (.item (bytes "x") fun _ => .accepted) := rfl
    simp [tree, Regular, hnothing, hsection, hitem]
  exact (load_yaml_printed (by decide)).2 tree 0 hprints hregular

/-- A section that comes twice is entered once. -/
theorem second_section_is_skipped :
    ¬ ∃ delivered, load_yaml 40 sectionMachine (bytes "a:\n  x: 1\na:\n  x: 2\n") = .ok delivered ∧
      ⟨[bytes "a"], bytes "x", bytes "2"⟩ ∈ delivered := by
  rintro ⟨delivered, hload, hmem⟩
  have honly : load_yaml 40 sectionMachine (bytes "a:\n  x: 1\na:\n  x: 2\n") =
      .ok [⟨[bytes "a"], bytes "x", bytes "1"⟩] := by decide
  rw [honly] at hload
  cases hload
  revert hmem
  decide

end DuneWeaver.Configuration
