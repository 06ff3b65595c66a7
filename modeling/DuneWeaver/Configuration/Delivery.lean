import DuneWeaver.Configuration.Printed
import DuneWeaver.Configuration.ParserHandler

open Outline

namespace DuneWeaver.Configuration

/-- A tree whose values can all be converted, and in which nothing but the
sections that are entered has lines nested in it once the one instance of a
section is there. -/
def Regular (group : Group) (self : Configurable) : Config → Prop
  | .nil => True
  | .node (key, value) _ children rest =>
    match group.find key with
    | some (.item _ convert) =>
      (∀ description, convert value ≠ .exception description) ∧ (self.inst.isSome → children = .nil) ∧
        Regular group self rest
    | some (.section name inner) =>
      if name ∈ self.created then Regular group self rest
      else Regular inner {} children ∧ Regular group { self with created := name :: self.created } rest
    | some (.object _ inner) => Regular inner {} children ∧ Regular group self rest
    | some (.single name inner) =>
      if self.inst.isSome then children = .nil ∧ Regular group self rest
      else Regular inner {} children ∧ Regular group { self with inst := some (name, inner) } rest
    | none => (self.inst.isSome → children = .nil) ∧ Regular group self rest

/-- The token is that of the first of these lines, and the others are unread. -/
def Stands (t : Tokenizer) : List (Nat × Bytes × Bytes) → Prop
  | [] => t._token._indent = -1 ∧ Prints [] t._remainder
  | l :: rest =>
    t._token._key = l.2.1 ∧ t._token._value = l.2.2 ∧ t._token._indent = l.1 ∧ Prints rest t._remainder

/-- The token of the first line has been fetched, and nothing has been done
with it. -/
structure Fetched (t : Tokenizer) (lines : List (Nat × Bytes × Bytes)) : Prop where
  stands : Stands t lines
  held : t._token._state ≠ .Held
  matching : lines ≠ [] → t._token._state = .Matching

/-- These lines are fetched next. -/
def Leads (t : Tokenizer) (lines : List (Nat × Bytes × Bytes)) : Prop :=
  ∃ t', t.Tokenize = .ok t' ∧ Fetched t' lines

variable {t t' : Tokenizer} {l : Nat × Bytes × Bytes} {lines after : List (Nat × Bytes × Bytes)} {indent : Int}

theorem leads_of_prints (hprints : Prints lines t._remainder) (hheld : t._token._state ≠ .Held) : Leads t lines := by
  cases lines with
  | nil =>
    obtain ⟨t', htokenize, hindent, hstate, hremainder⟩ := Tokenize_end hprints hheld
    refine ⟨t', htokenize, ⟨hindent, hremainder ▸ .nothing⟩, ?_, fun hne => absurd rfl hne⟩
    rw [hstate]
    exact TokenState.noConfusion
  | cons l rest =>
    obtain ⟨t', htokenize, htoken, hrest⟩ := Tokenize_line hprints hheld
    refine ⟨t', htokenize, ⟨?_, ?_, ?_, hrest⟩, ?_, fun _ => ?_⟩ <;> rw [htoken]
    · rfl
    · rfl
    · rfl
    · exact TokenState.noConfusion
    · rfl

theorem leads_of_stands (hstands : Stands t (l :: lines)) (hheld : t._token._state ≠ .Held) : Leads t lines :=
  leads_of_prints hstands.2.2.2 hheld

/-- A held token is released as it is. -/
theorem leads_of_held (hstands : Stands t lines) : Leads t.held lines := by
  refine ⟨{ t with _token := { t._token with _state := .Matching } }, ?_, ?_, ?_, ?_⟩
  · rfl
  · cases lines <;> exact hstands
  · exact TokenState.noConfusion
  · exact fun _ => rfl

theorem Stands.matched (hstands : Stands t lines) : Stands t.matched lines := by
  cases lines <;> exact hstands

/-- The next line begins no further right than `indent`. -/
def NoDeeper (indent : Int) (lines : List (Nat × Bytes × Bytes)) : Prop :=
  ∀ line, lines.head? = some line → (line.1 : Int) ≤ indent

theorem Stands.indent_le (hstands : Stands t lines) (hnext : NoDeeper indent lines) (hindent : -1 ≤ indent) :
    t._token._indent ≤ indent := by
  cases lines with
  | nil => exact hstands.1 ▸ hindent
  | cons l rest => exact hstands.2.2.1 ▸ hnext l rfl

theorem Stands.neg_one_le (hstands : Stands t lines) : -1 ≤ t._token._indent := by
  cases lines with
  | nil => exact Int.le_of_eq hstands.1.symm
  | cons l rest =>
    rw [hstands.2.2.1]
    omega

theorem Stands.noDeeper (hstands : Stands t lines) : NoDeeper t._token._indent lines := by
  intro line hhead
  cases lines with
  | nil => cases hhead
  | cons l rest =>
    cases hhead
    exact Int.le_of_eq hstands.2.2.1.symm

/-- Entering a section that nothing is nested in leaves the token fetched, and
holds it. -/
theorem enterSection_empty {fuel : Nat} (hleads : Leads t after) (hnext : NoDeeper t._token._indent after)
    (hindent : -1 ≤ t._token._indent) (path : List Bytes) (group : Group) :
    ∃ t', enterSection (fuel + 1) path group t = .ok (t'.held, []) ∧ Stands t' after := by
  obtain ⟨t', htokenize, hfetched⟩ := hleads
  refine ⟨t', ?_, hfetched.stands⟩
  have hle := hfetched.stands.indent_le hnext hindent
  simp only [enterSection, htokenize, Outcome.ofExcept, Outcome.ok_andThen]
  rw [if_neg (by omega)]
  rfl

/-- The lines of a tree whose parts do not matter are passed over. -/
theorem section_skip {enter : Enter} {path : List Bytes} {group : Group} {column : Nat} {self : Configurable}
    (hdeeper : ∀ line ∈ lines, column < line.1) (hfetched : Fetched t (lines ++ after)) :
    ∃ t', Fetched t' after ∧ ∀ fuel,
      section_ enter path group column (fuel + lines.length) self t =
        section_ enter path group column fuel self t' := by
  induction lines generalizing t with
  | nil => exact ⟨t, hfetched, fun fuel => rfl⟩
  | cons l lines ih =>
    obtain ⟨t', htokenize, hfetched'⟩ := leads_of_stands hfetched.stands hfetched.held
    obtain ⟨t'', hfetched'', hsame⟩ := ih (fun line hline => hdeeper line (List.mem_cons_of_mem l hline)) hfetched'
    refine ⟨t'', hfetched'', fun fuel => ?_⟩
    have hindent : t._token._indent = l.1 := hfetched.stands.2.2.1
    have hlt := hdeeper l List.mem_cons_self
    rw [List.length_cons, ← Nat.add_assoc, section_, if_neg (by omega), if_pos (by omega)]
    simp only [Outcome.ok_andThen, htokenize, Outcome.ofExcept, List.nil_append]
    rw [hsame]
    cases section_ enter path group column fuel self t'' <;> rfl

theorem not_is_of_state (hstate : t._token._state ≠ .Matching) (expected : Bytes) : t.is expected = false := by
  rw [Tokenizer.is, decide_eq_false hstate, Bool.false_and]

theorem is_of_matching (hstate : t._token._state = .Matching) (expected : Bytes) :
    t.is expected = named expected t._token._key := by
  rw [Tokenizer.is, decide_eq_true hstate, Bool.true_and]

/-- A section in which the token behind is entered and left: what entering the
one instance once more does, and what it needs for that. -/
structure Reenters (enter : Enter) (after : List (Nat × Bytes × Bytes)) : Prop where
  empty : ∀ {t : Tokenizer}, Leads t after → NoDeeper t._token._indent after → -1 ≤ t._token._indent →
    ∀ path group, ∃ t', enter path group t = .ok (t'.held, []) ∧ Stands t' after

variable {enter : Enter} {path : List Bytes} {builders : List (Bytes × Group)} {self : Configurable}

/-- Once the token has been matched, the calls behind do nothing with it: where
there is an instance, entering it fetches the next token and holds it. -/
theorem entries_matched (hreenters : Reenters enter after) (hstate : t._token._state ≠ .Matching)
    (hleads : Leads t lines) (hafter : self.inst.isSome → lines = after)
    (hnext : self.inst.isSome → NoDeeper t._token._indent after) (hindent : -1 ≤ t._token._indent)
    (calls : List Entry) :
    ∃ t', entries enter path builders calls self t = .ok (self, t', []) ∧ Leads t' lines := by
  induction calls with
  | nil =>
    rw [entries, single]
    cases hinst : self.inst with
    | none =>
      have hfind : builders.find? (fun builder => t.is builder.1) = none := by
        rw [List.find?_eq_none]
        intro builder _
        rw [not_is_of_state hstate]
        exact Bool.false_ne_true
      simp only [hfind]
      exact ⟨t, rfl, hleads⟩
    | some inst =>
      have hsome : self.inst.isSome := by rw [hinst]; rfl
      obtain ⟨t', hentered, hstands⟩ :=
        hreenters.empty (hafter hsome ▸ hleads) (hnext hsome) hindent (path ++ [inst.1]) inst.2
      refine ⟨t'.held, ?_, hafter hsome ▸ leads_of_held hstands⟩
      simp only [hentered, Outcome.ok_andThen]
  | cons call calls ih =>
    cases call with
    | item name convert =>
      rw [entries, not_is_of_state hstate, if_neg Bool.false_ne_true]
      exact ih
    | «section» name group =>
      rw [entries, not_is_of_state hstate, if_neg Bool.false_ne_true]
      exact ih
    | factory candidates =>
      have hfind : candidates.find? (fun builder => t.is builder.1) = none := by
        rw [List.find?_eq_none]
        intro builder _
        rw [not_is_of_state hstate]
        exact Bool.false_ne_true
      rw [entries]
      simp only [hfind]
      exact ih

/-- What is delivered out of a key's own value and the lines nested in it. -/
def own (path : List Bytes) (self : Configurable) (value : Bytes) (children : Config) : Option Found → List Delivery
  | some (.item name convert) => if convert value = .accepted then [⟨path, name, value⟩] else []
  | some (.section name inner) =>
    if name ∈ self.created then [] else deliveries (path ++ [name]) inner {} children
  | some (.object name inner) => deliveries (path ++ [name]) inner {} children
  | some (.single name inner) => if self.inst.isSome then [] else deliveries (path ++ [name]) inner {} children
  | none => []

/-- The section behind a key. -/
def behind (self : Configurable) : Option Found → Configurable
  | some (.section name _) => if name ∈ self.created then self else { self with created := name :: self.created }
  | some (.single name inner) => if self.inst.isSome then self else { self with inst := some (name, inner) }
  | _ => self

/-- What a regular tree has where a key is found. -/
def OwnRegular (self : Configurable) (value : Bytes) (children : Config) : Option Found → Prop
  | some (.item _ convert) =>
    (∀ description, convert value ≠ .exception description) ∧ (self.inst.isSome → children = .nil)
  | some (.section name inner) => name ∈ self.created ∨ Regular inner {} children
  | some (.object _ inner) => Regular inner {} children
  | some (.single _ inner) => if self.inst.isSome then children = .nil else Regular inner {} children
  | none => self.inst.isSome → children = .nil

theorem deliveries_node (path : List Bytes) (group : Group) (self : Configurable) (key value : Bytes) (step : Nat)
    (children rest : Config) :
    deliveries path group self (.node (key, value) step children rest) =
      own path self value children (group.find key) ++ deliveries path group (behind self (group.find key)) rest := by
  rw [deliveries]
  split <;> simp only [own, behind, *]
  · split <;> rfl
  · split <;> rfl
  · rfl

theorem regular_node {group : Group} {key value : Bytes} {step : Nat} {children rest : Config}
    (hregular : Regular group self (.node (key, value) step children rest)) :
    OwnRegular self value children (group.find key) ∧ Regular group (behind self (group.find key)) rest := by
  rw [Regular] at hregular
  cases hfind : group.find key with
  | none =>
    simp only [hfind] at hregular
    exact hregular
  | some found =>
    simp only [hfind] at hregular
    cases found with
    | item name convert => exact ⟨⟨hregular.1, hregular.2.1⟩, hregular.2.2⟩
    | object name inner => exact hregular
    | «section» name inner =>
      simp only [OwnRegular, behind]
      by_cases hcreated : name ∈ self.created
      · simp only [hcreated, if_true] at hregular ⊢
        exact ⟨Or.inl trivial, hregular⟩
      · simp only [hcreated, if_false] at hregular ⊢
        exact ⟨Or.inr hregular.1, hregular.2⟩
    | single name inner =>
      simp only [OwnRegular, behind]
      by_cases hinst : self.inst.isSome
      · simp only [hinst, if_true] at hregular ⊢
        exact hregular
      · simp only [hinst] at hregular ⊢
        exact hregular

/-- What entering the section of a token does: the section takes what is nested
in the token's line, and the token behind is held. -/
def Enters (enter : Enter) (t : Tokenizer) (children : Config) (after : List (Nat × Bytes × Bytes)) : Prop :=
  ∀ path inner, Regular inner {} children →
    ∃ t', enter path inner t = .ok (t'.held, deliveries path inner {} children) ∧ Stands t' after

/-- The calls of a `group` function serve the token of a key as the first of
them that takes the key does. -/
theorem entries_matching {indent step : Nat} {key value : Bytes} {children : Config}
    (hreenters : Reenters enter after) (henters : Enters enter t.matched children after)
    (hstands : Stands t ((indent, key, value) :: (children.lines (indent + step + 1) ++ after)))
    (hstate : t._token._state = .Matching) (hnext : NoDeeper indent after) {calls : List Entry}
    (hregular : OwnRegular self value children (find builders key calls)) :
    ∃ t', entries enter path builders calls self t =
        .ok (behind self (find builders key calls), t', own path self value children (find builders key calls)) ∧
      (Leads t' (children.lines (indent + step + 1) ++ after) ∨ Leads t' after) := by
  obtain ⟨hkey, hvalue, hindent, hprints⟩ := id hstands
  have hmatched : t.matched._token._state ≠ .Matching := TokenState.noConfusion
  have hleads : Leads t.matched (children.lines (indent + step + 1) ++ after) :=
    leads_of_stands hstands.matched TokenState.noConfusion
  have hindent' : t.matched._token._indent = indent := hindent
  have hempty : children = .nil → children.lines (indent + step + 1) ++ after = after := by
    rintro rfl
    rfl
  -- behind a section that has been entered, whatever the section knows then
  have hentered {t' : Tokenizer} (hstands' : Stands t' after) (self : Configurable) (calls : List Entry) :
      ∃ t'', entries enter path builders calls self t'.held = .ok (self, t'', []) ∧ Leads t'' after :=
    entries_matched hreenters TokenState.noConfusion (leads_of_held hstands') (fun _ => rfl)
      (fun _ => hstands'.noDeeper) hstands'.neg_one_le calls
  have his (name : Bytes) : t.is name = named name key := by rw [is_of_matching hstate, hkey]
  induction calls with
  | nil =>
    rw [entries, single]
    cases hinst : self.inst with
    | some inst =>
      have hnil : children = .nil := by
        rw [find] at hregular
        cases hfind : builders.find? (fun builder => named builder.1 key) with
        | none =>
          rw [hfind] at hregular
          exact hregular (by rw [hinst]; rfl)
        | some builder =>
          rw [hfind] at hregular
          simpa [OwnRegular, hinst] using hregular
      have hleads' : Leads t after :=
        hempty hnil ▸ leads_of_stands hstands (by rw [hstate]; exact TokenState.noConfusion)
      obtain ⟨t', hre, hstands'⟩ := hreenters.empty hleads' (hindent ▸ hnext) (by omega) (path ++ [inst.1]) inst.2
      refine ⟨t'.held, ?_, Or.inr (leads_of_held hstands')⟩
      simp only [hre, Outcome.ok_andThen, find]
      cases builders.find? (fun builder => named builder.1 key) with
      | none => rfl
      | some builder => simp [behind, own, hinst]
    | none =>
      have hsame : (fun builder : Bytes × Group => t.is builder.1) = fun builder => named builder.1 key :=
        funext fun builder => his builder.1
      simp only [hsame, find] at hregular ⊢
      cases hfind : builders.find? (fun builder => named builder.1 key) with
      | none => exact ⟨t, rfl, Or.inl (leads_of_stands hstands (by rw [hstate]; exact TokenState.noConfusion))⟩
      | some builder =>
        have hinner : Regular builder.2 {} children := by simpa [hfind, OwnRegular, hinst] using hregular
        obtain ⟨t', hsection, hstands'⟩ := henters (path ++ [builder.1]) builder.2 hinner
        refine ⟨t'.held, ?_, Or.inr (leads_of_held hstands')⟩
        simp [hsection, behind, own, hinst]
  | cons call calls ih =>
    cases call with
    | item name convert =>
      rw [entries, his, find] at *
      cases hname : named name key with
      | false =>
        simp only [hname, Bool.false_eq_true, if_false] at hregular ⊢
        exact ih hregular
      | true =>
        simp only [hname, if_true, hvalue] at hregular ⊢
        obtain ⟨hexception, hchildren⟩ := hregular
        cases hconvert : convert value with
        | accepted =>
          obtain ⟨t', hrest, hleads'⟩ : ∃ t', entries enter path builders calls self t.matched = .ok (self, t', []) ∧
              Leads t' (children.lines (indent + step + 1) ++ after) :=
            entries_matched hreenters hmatched hleads (fun hsome => hempty (hchildren hsome))
              (fun _ => hindent' ▸ hnext) (by omega) calls
          refine ⟨t', ?_, Or.inl hleads'⟩
          simp [hrest, behind, own, hconvert]
        | refused => exact ⟨t.matched, by simp [behind, own, hconvert], Or.inl hleads⟩
        | exception description => exact absurd hconvert (hexception description)
    | «section» name inner =>
      rw [entries, his, find] at *
      cases hname : named name key with
      | false =>
        simp only [hname, Bool.false_eq_true, if_false] at hregular ⊢
        exact ih hregular
      | true =>
        simp only [hname, if_true, behind, own] at hregular ⊢
        by_cases hcreated : name ∈ self.created
        · simp only [hcreated, if_true]
          exact ⟨t.matched, rfl, Or.inl hleads⟩
        · simp only [hcreated, if_false]
          obtain ⟨t', hsection, hstands'⟩ := henters (path ++ [name]) inner (hregular.resolve_left hcreated)
          obtain ⟨t'', hrest, hleads'⟩ := hentered hstands' { self with created := name :: self.created } calls
          refine ⟨t'', ?_, Or.inr hleads'⟩
          simp only [hsection, hrest, Outcome.ok_andThen, List.append_nil]
    | factory candidates =>
      have hsame : (fun builder : Bytes × Group => t.is builder.1) = fun builder => named builder.1 key :=
        funext fun builder => his builder.1
      rw [entries, find] at *
      simp only [hsame] at hregular ⊢
      cases hfind : candidates.find? (fun builder => named builder.1 key) with
      | none =>
        simp only [hfind] at hregular ⊢
        exact ih hregular
      | some builder =>
        simp only [hfind, behind, own] at hregular ⊢
        obtain ⟨t', hsection, hstands'⟩ := henters (path ++ [builder.1]) builder.2 hregular
        obtain ⟨t'', hrest, hleads'⟩ := hentered hstands' self calls
        refine ⟨t'', ?_, Or.inr hleads'⟩
        simp only [hsection, hrest, Outcome.ok_andThen, List.append_nil]

theorem noDeeper_of_below {column : Nat} (hbelow : Below column after) {entry : Int}
    (hentry : (column : Int) ≤ entry + 1) :
    NoDeeper entry after := by
  intro line hhead
  have hlt := hbelow line hhead
  omega

theorem reenters {fuel : Nat} (after : List (Nat × Bytes × Bytes)) : Reenters (enterSection (fuel + 1)) after where
  empty hleads hnext hindent path group := enterSection_empty hleads hnext hindent path group

/-- A section takes the lines of its tree, each as its key says, and leaves the
token of the first line behind them fetched. -/
theorem section_delivers {tree : Config} {fuel more : Nat} {group : Group} {indent : Nat} (path : List Bytes)
    (hfuel : tree.size < fuel) (hmore : tree.size < more) (hregular : Regular group self tree)
    (hfetched : Fetched t (tree.lines indent ++ after)) (hafter : Below indent after) :
    ∃ t', section_ (enterSection fuel) path group indent more self t = .ok (t', deliveries path group self tree) ∧
      Stands t' after := by
  induction tree generalizing t fuel more path group self indent after with
  | nil =>
    obtain ⟨more, rfl⟩ : ∃ n, more = n + 1 := ⟨more - 1, by omega⟩
    have hstands : Stands t after := hfetched.stands
    have hleft : t._token._indent < indent := by
      have hnext : NoDeeper ((indent : Int) - 1) after := noDeeper_of_below hafter (by omega)
      have hle := hstands.indent_le hnext (by omega)
      omega
    exact ⟨t, by rw [section_, if_pos hleft]; rfl, hstands⟩
  | node label step children rest ihChildren ihRest =>
    obtain ⟨key, value⟩ := label
    obtain ⟨hown, hrest⟩ := regular_node hregular
    rw [Forest.size] at hfuel hmore
    obtain ⟨more, rfl⟩ : ∃ n, more = n + 1 := ⟨more - 1, by omega⟩
    have hfuel' : rest.size < fuel := by omega
    obtain ⟨fuel, rfl⟩ : ∃ n, fuel = n + 1 := ⟨fuel - 1, by omega⟩
    have hlines : (Forest.node (key, value) step children rest).lines indent ++ after =
        (indent, key, value) :: (children.lines (indent + step + 1) ++ (rest.lines indent ++ after)) := by
      simp [Forest.lines]
    rw [hlines] at hfetched
    have hindent : t._token._indent = indent := hfetched.stands.2.2.1
    have hstate : t._token._state = .Matching := hfetched.matching (by simp)
    have hbelow : Below (indent + step + 1) (rest.lines indent ++ after) := below_rest rest step hafter
    have hnext : NoDeeper indent (rest.lines indent ++ after) := by
      cases rest with
      | nil => exact noDeeper_of_below hafter (by omega)
      | node label step' children' rest' =>
        intro line hhead
        simp only [Forest.lines, List.cons_append, List.head?_cons, Option.some.injEq] at hhead
        exact hhead ▸ Int.le_refl _
    have henters : Enters (enterSection (fuel + 1)) t.matched children (rest.lines indent ++ after) := by
      intro path inner hinner
      obtain ⟨t', htokenize, hfetched'⟩ := leads_of_stands hfetched.stands.matched TokenState.noConfusion
      cases children with
      | nil =>
        have hleads : Leads t.matched (rest.lines indent ++ after) := ⟨t', htokenize, hfetched'⟩
        exact enterSection_empty hleads (hindent ▸ hnext) (by show (-1 : Int) ≤ t._token._indent; omega) path inner
      | node label step' children' rest' =>
        have hdeeper : t'._token._indent = ((indent + step + 1 : Nat) : Int) := hfetched'.stands.2.2.1
        obtain ⟨t'', hsection, hstands⟩ : ∃ t'',
            section_ (enterSection fuel) path inner ((indent + step + 1 : Nat) : Int) fuel {} t' =
              .ok (t'', deliveries path inner {} (.node label step' children' rest')) ∧
            Stands t'' (rest.lines indent ++ after) :=
          ihChildren path (by omega) (by omega) hinner hfetched' hbelow
        refine ⟨t'', ?_, hstands⟩
        have hentry : t.matched._token._indent = indent := hindent
        simp only [enterSection, htokenize, Outcome.ofExcept, Outcome.ok_andThen, hdeeper, hentry]
        rw [if_pos (by omega), hsection]
        rfl
    have hgroup : ∃ t', group.apply (enterSection (fuel + 1)) path self t =
          .ok (behind self (group.find key), t', own path self value children (group.find key)) ∧
        (Leads t' (children.lines (indent + step + 1) ++ (rest.lines indent ++ after)) ∨
          Leads t' (rest.lines indent ++ after)) := by
      cases group with
      | mk calls builders => exact entries_matching (reenters _) henters hfetched.stands hstate hnext hown
    obtain ⟨t', hgroup, hleads⟩ := hgroup
    -- the lines nested in the key have been taken, or are passed over now
    have hpassed : ∃ t'' t₀, t'.Tokenize = .ok t₀ ∧ Fetched t'' (rest.lines indent ++ after) ∧
        ∃ left, rest.size < left ∧
        section_ (enterSection (fuel + 1)) path group indent more (behind self (group.find key)) t₀ =
          section_ (enterSection (fuel + 1)) path group indent left (behind self (group.find key)) t'' := by
      rcases hleads with ⟨t₀, htokenize, hfetched'⟩ | ⟨t₀, htokenize, hfetched'⟩
      · have hdeeper : ∀ line ∈ children.lines (indent + step + 1), indent < line.1 := by
          intro line hline
          have hle := Forest.le_of_mem_lines hline
          omega
        obtain ⟨t'', hfetched'', hsame⟩ := section_skip hdeeper hfetched'
        refine ⟨t'', t₀, htokenize, hfetched'', more - children.size, by omega, ?_⟩
        rw [← hsame, Forest.length_lines]
        congr 1
        omega
      · exact ⟨t₀, t₀, htokenize, hfetched', more, by omega, rfl⟩
    obtain ⟨t'', t₀, htokenize, hfetched'', left, hleft, hsame⟩ := hpassed
    obtain ⟨t₁, hsection, hstands⟩ := ihRest path hfuel' hleft hrest hfetched'' hafter
    refine ⟨t₁, ?_, hstands⟩
    rw [section_, if_neg (by omega), if_neg (by omega), hgroup, deliveries_node]
    simp only [Outcome.ok_andThen, htokenize, Outcome.ofExcept, hsame, hsection]

/-- The whole text of a printed tree: its deliveries and no others. -/
theorem load_yaml_delivers {tree : Config} {machine : Group} {indent : Nat} {text : Bytes} {fuel : Nat}
    (hprints : Prints (tree.lines indent) text) (hregular : Regular machine {} tree) (hfuel : text.length + 2 ≤ fuel) :
    load_yaml fuel machine text = .ok (deliveries [] machine {} tree) := by
  have hsize : tree.size ≤ text.length := by
    rw [← Forest.length_lines tree indent]
    exact hprints.length_le
  obtain ⟨fuel, rfl⟩ : ∃ n, fuel = n + 1 := ⟨fuel - 1, by omega⟩
  obtain ⟨t, htokenize, hfetched⟩ : Leads { _remainder := text } (tree.lines indent) :=
    leads_of_prints hprints TokenState.noConfusion
  simp only [load_yaml, enterSection, htokenize, Outcome.ofExcept, Outcome.ok_andThen]
  cases tree with
  | nil =>
    have hend : t._token._indent = -1 := hfetched.stands.1
    rw [if_neg (by omega)]
    rfl
  | node label step children rest =>
    have hindent : t._token._indent = indent := hfetched.stands.2.2.1
    have hlines : Fetched t ((Forest.node label step children rest).lines indent ++ []) := by
      rw [List.append_nil]
      exact hfetched
    have hend : Below indent ([] : List (Nat × Bytes × Bytes)) := fun line hhead => by cases hhead
    obtain ⟨t', hsection, -⟩ := section_delivers [] (by omega : Forest.size _ < fuel) (by omega : Forest.size _ < fuel)
      hregular hlines hend
    rw [if_pos (by omega), hindent, hsection]
    rfl

end DuneWeaver.Configuration
