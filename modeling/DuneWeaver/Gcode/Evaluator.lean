import DuneWeaver.Gcode.Brackets

namespace DuneWeaver.Expression

open Evaluated

variable {V : Type} {env : Env V} {n : Nat} {line rest : Bytes} {ex : Bytes → Evaluated (V × Bytes)}

theorem isOk_eq_some {α : Type} {x : Evaluated α} {a : α} (h : x.isOk = .ok (some a)) : x = .ok a := by
  cases x with
  | ok b => rw [Option.some.inj (Evaluated.ok.inj h)]
  | error e => exact absurd (Evaluated.ok.inj h) nofun
  | fault => cases h

theorem isOk_eq_none {α : Type} {x : Evaluated α} (h : x.isOk = .ok none) : ∃ e, x = .error e := by
  cases x with
  | ok b => exact absurd (Evaluated.ok.inj h) nofun
  | error e => exact ⟨e, rfl⟩
  | fault => cases h

/-- What is in brackets, and what becomes of it. -/
theorem ReadsBrackets.bind_complete (hex : ReadsBrackets env n fun line => (ex line).isOk) {e : Expr}
    (he : e.WellFormed)
    (hline : (e.bracketed ++ rest).length < n) {α : Type} (f : V × Bytes → Evaluated α) (g : V → Option α)
    (hf : ∀ v, (f (v, rest)).isOk = .ok (g v)) :
    ((ex (e.bracketed ++ rest)).bind f).isOk = .ok ((e.eval env).bind g) := by
  have hread := hex.complete e rest he trivial hline
  cases heval : e.eval env with
  | none =>
    rw [heval] at hread
    obtain ⟨err, herr⟩ := isOk_eq_none hread
    rw [herr]
    rfl
  | some v =>
    rw [heval] at hread
    rw [isOk_eq_some hread, ok_bind, hf]
    rfl

/-- What is in brackets may be taken, and then the rest goes on; or there is an error. -/
theorem ReadsBrackets.cases_sound (hex : ReadsBrackets env n fun line => (ex line).isOk) (hline : line.length < n) :
    (∃ err, ex line = .error err) ∨
      ∃ v rest, ∃ e : Expr, ex line = .ok (v, rest) ∧ e.WellFormed ∧ line = e.bracketed ++ rest ∧
      e.eval env = some v := by
  obtain ⟨result, hread, hsound⟩ := hex.sound line hline
  cases result with
  | none => exact .inl (isOk_eq_none hread)
  | some found =>
    obtain ⟨v, rest⟩ := found
    obtain ⟨e, he, htext, heval⟩ := hsound v rest rfl trivial
    exact .inr ⟨v, rest, e, isOk_eq_some hread, he, htext, heval⟩

section Unary

theorem read_atan_complete (hex : ReadsBrackets env n fun line => (ex line).isOk) {x : Expr} (hx : x.WellFormed)
    (hline : (x.bracketed ++ rest).length < n) (y : V) :
    (read_atan env ex y (0x2f :: (x.bracketed ++ rest))).isOk =
      .ok ((x.eval env).map fun x => (env.atan2 y x, rest)) := by
  rw [Option.map_eq_bind]
  exact hex.bind_complete hx hline _ _ fun v => rfl

theorem read_atan_sound (hex : ReadsBrackets env n fun line => (ex line).isOk) (hline : line.length < n) (y : V) :
    (∃ err, read_atan env ex y line = .error err) ∨
      ∃ v rest, ∃ x : Expr, read_atan env ex y line = .ok (env.atan2 y v, rest) ∧ x.WellFormed ∧
        line = 0x2f :: (x.bracketed ++ rest) ∧ x.eval env = some v := by
  unfold read_atan
  split
  case h_2 => exact .inl ⟨_, rfl⟩
  case h_1 line =>
    rw [List.length_cons] at hline
    rcases hex.cases_sound (by omega : (0x5b :: line).length < n) with ⟨err, herr⟩ | ⟨v, rest, x, hv, hx, htext, heval⟩
    · exact .inl ⟨err, by rw [herr, error_bind]⟩
    · exact .inr ⟨v, rest, x, by rw [hv, ok_bind], hx, by rw [htext], heval⟩

/-- The name of a parameter ends at the first bracket. -/
theorem split_at {name : Bytes} {c : UInt8} (h : c ∉ name) (rest : Bytes) :
    (name ++ c :: rest).takeWhile (· ≠ c) = name ∧ (name ++ c :: rest).dropWhile (· ≠ c) = c :: rest := by
  have hall : ∀ d ∈ name, decide (d ≠ c) = true := fun d hd => by
    rw [decide_eq_true_eq]
    rintro rfl
    exact h hd
  rw [List.takeWhile_append_of_pos hall, List.dropWhile_append_of_pos hall]
  simp

theorem dropWhile_eq_cons {arg : Bytes} {c d : UInt8} (h : arg.dropWhile (· ≠ c) = d :: rest) :
    d = c ∧ arg = arg.takeWhile (· ≠ c) ++ c :: rest ∧ c ∉ arg.takeWhile (· ≠ c) := by
  have hd : d = c := by
    have hhead := List.head?_dropWhile_not (fun e : UInt8 => decide (e ≠ c)) arg
    rw [h] at hhead
    simpa using hhead
  refine ⟨hd, ?_, ?_⟩
  · conv_lhs => rw [← List.takeWhile_append_dropWhile (p := fun e => decide (e ≠ c)) (l := arg), h, hd]
  · intro hin
    simpa using List.mem_takeWhile_imp hin

theorem read_unary_sound (hex : ReadsBrackets env n fun line => (ex line).isOk) (hline : line.length < n) :
    ∃ result, (read_unary env ex line).isOk = .ok result ∧ ∀ v rest, result = some (v, rest) →
      ∃ a : Operand, a.WellFormed ∧ line = a.text ++ rest ∧ a.eval env = some v := by
  unfold read_unary
  cases hop : read_operation_unary line with
  | error e => exact ⟨none, rfl, nofun⟩
  | ok found =>
    obtain ⟨operation, later⟩ := found
    have hsplit := read_operation_unary_sound hop
    rw [ofExcept_ok, ok_bind]
    dsimp only
    split
    case h_2 => exact ⟨none, rfl, nofun⟩
    case h_1 arg =>
      have hshort : (0x5b :: arg).length < n := by
        rw [hsplit, List.length_append] at hline
        omega
      by_cases hexists : operation = .Exists
      · subst hexists
        rw [if_pos rfl]
        cases hrest : arg.dropWhile (· ≠ 0x5d) with
        | nil => exact ⟨none, rfl, nofun⟩
        | cons d rest =>
          obtain ⟨rfl, harg, hname⟩ := dropWhile_eq_cons hrest
          refine ⟨_, rfl, fun v rest' hsame => ?_⟩
          obtain ⟨rfl, rfl⟩ := Prod.mk.inj (Option.some.inj hsame)
          refine ⟨.exists_ (arg.takeWhile (· ≠ 0x5d)), by rwa [Operand.WellFormed], ?_, by rw [Operand.eval]⟩
          rw [hsplit, Operand.text]
          conv_lhs => rw [harg]
          simp
      · rw [if_neg hexists]
        rcases hex.cases_sound hshort with ⟨err, herr⟩ | ⟨v, rest, e, hv, he, htext, heval⟩
        · exact ⟨none, by rw [herr]; rfl, nofun⟩
        · rw [hv, ok_bind]
          dsimp only
          by_cases hatan : operation = .ATAN
          · subst hatan
            rw [if_pos rfl]
            have hlength := congrArg List.length htext
            rw [List.length_append] at hlength
            rcases read_atan_sound hex (by omega : rest.length < n)
              v with ⟨err, herr⟩ | ⟨w, after, x, hw, hx, hafter, heval'⟩
            · exact ⟨none, by rw [herr]; rfl, nofun⟩
            · refine ⟨some (env.atan2 v w, after), by rw [hw]; rfl, fun u after' hsame => ?_⟩
              obtain ⟨rfl, rfl⟩ := Prod.mk.inj (Option.some.inj hsame)
              refine ⟨.atan e x, by rw [Operand.WellFormed]; exact ⟨he, hx⟩, ?_, ?_⟩
              · rw [hsplit, htext, hafter, Operand.text]
                simp [Expr.bracketed]
              · rw [Operand.eval, heval, heval']
                rfl
          · rw [if_neg hatan]
            cases happly : env.execute_unary operation v with
            | error err => exact ⟨none, rfl, nofun⟩
            | ok w =>
              refine ⟨some (w, rest), rfl, fun u rest' hsame => ?_⟩
              obtain ⟨rfl, rfl⟩ := Prod.mk.inj (Option.some.inj hsame)
              refine ⟨.unary operation e, by rw [Operand.WellFormed]; exact ⟨hatan, hexists, he⟩, ?_, ?_⟩
              · rw [hsplit, htext, Operand.text]
                simp [Expr.bracketed]
              · rw [Operand.eval, heval, Option.bind_some, happly]
                rfl

/-- A function with its bracket. -/
theorem read_unary_bracket (operation : UnaryOp) (arg : Bytes) :
    read_unary env ex (operation.text ++ 0x5b :: arg) =
      if operation = .Exists then
        match arg.dropWhile (· ≠ 0x5d) with
        | [] => .error .ExpressionSyntaxError
        | _ :: line => .ok (env.truth (env.named_param_exists (arg.takeWhile (· ≠ 0x5d))), line)
      else
        (ex (0x5b :: arg)).bind fun (value, line) =>
          if operation = .ATAN then read_atan env ex value line
          else (ofExcept (env.execute_unary operation value)).bind fun value => .ok (value, line) := by
  rw [read_unary, read_operation_unary_text]
  rfl

theorem read_unary_unary (hex : ReadsBrackets env n fun line => (ex line).isOk) {operation : UnaryOp} {e : Expr}
    (h : (Operand.unary operation e).WellFormed) (hline : ((Operand.unary operation e).text ++ rest).length < n) :
    (read_unary env ex ((Operand.unary operation e).text ++ rest)).isOk =
      .ok (((Operand.unary operation e).eval env).map fun v => (v, rest)) := by
  rw [Operand.WellFormed] at h
  obtain ⟨hatan, hexists, he⟩ := h
  have htext : (Operand.unary operation e).text ++ rest = operation.text ++ (e.bracketed ++ rest) := by
    rw [Operand.text]
    simp [Expr.bracketed]
  rw [htext, List.length_append] at hline
  rw [htext, Operand.eval, Option.map_bind]
  change (read_unary env ex (operation.text ++ 0x5b :: (e.text ++ [0x5d] ++ rest))).isOk = _
  rw [read_unary_bracket, if_neg hexists]
  refine hex.bind_complete he (by omega) _ _ fun v => ?_
  dsimp only
  rw [if_neg hatan, Function.comp_apply]
  cases env.execute_unary operation v with
  | error err => rfl
  | ok w => rfl

theorem read_unary_atan (hex : ReadsBrackets env n fun line => (ex line).isOk) {y x : Expr}
    (h : (Operand.atan y x).WellFormed) (hline : ((Operand.atan y x).text ++ rest).length < n) :
    (read_unary env ex ((Operand.atan y x).text ++ rest)).isOk =
      .ok (((Operand.atan y x).eval env).map fun v => (v, rest)) := by
  rw [Operand.WellFormed] at h
  have htext : (Operand.atan y x).text ++ rest =
      UnaryOp.ATAN.text ++ (y.bracketed ++ 0x2f :: (x.bracketed ++ rest)) := by
    rw [Operand.text]
    simp [Expr.bracketed]
  rw [htext] at hline
  simp only [List.length_append, List.length_cons] at hline
  rw [htext, Operand.eval, Option.map_bind]
  change (read_unary env ex (UnaryOp.ATAN.text ++ 0x5b :: (y.text ++ [0x5d] ++ 0x2f :: (x.bracketed ++ rest)))).isOk = _
  rw [read_unary_bracket, if_neg (by decide)]
  refine hex.bind_complete h.1
    (by simp only [List.length_append, List.length_cons]; omega) _ _ fun v => ?_
  dsimp only
  rw [if_pos rfl, read_atan_complete hex h.2 (by rw [List.length_append]; omega)]
  simp only [Function.comp_apply, Option.map_map]
  rfl

theorem read_unary_exists {name : Bytes} (h : (Operand.exists_ name).WellFormed) :
    (read_unary env ex ((Operand.exists_ name).text ++ rest)).isOk =
      .ok (((Operand.exists_ name).eval env).map fun v => (v, rest)) := by
  rw [Operand.WellFormed] at h
  have htext : (Operand.exists_ name).text ++ rest = UnaryOp.Exists.text ++ 0x5b :: (name ++ 0x5d :: rest) := by
    rw [Operand.text]
    simp
  obtain ⟨htake, hdrop⟩ := split_at h rest
  rw [htext, Operand.eval, read_unary_bracket, if_pos rfl, htake, hdrop]
  rfl

end Unary

section References

theorem get_param_ref_number {c : UInt8} (hindirect : c ≠ 0x23) (hnamed : c ≠ 0x3c) (hcomputed : c ≠ 0x5b)
    (text : Bytes) :
    get_param_ref env ex (c :: text) =
      .ok ((read_float (c :: text)).map fun (result, line) =>
        (.numbered (env.param_id (env.literal result)), line)) := by
  unfold get_param_ref
  split
  · simp_all
  · simp_all
  · simp_all
  · cases read_float (c :: text) with
    | none => rfl
    | some found => rfl

theorem get_param_ref_sound (hex : ReadsBrackets env n fun line => (ex line).isOk) (hline : line.length < n) :
    ∃ result, get_param_ref env ex line = .ok result ∧ ∀ ref rest, result = some (ref, rest) → Delimited rest →
      ∃ r : Ref, r.WellFormed ∧ line = r.text ++ rest ∧ r.eval env = some ref := by
  induction line with
  | nil => exact ⟨none, rfl, nofun⟩
  | cons c line ih =>
    rw [List.length_cons] at hline
    by_cases hindirect : c = 0x23
    · subst hindirect
      obtain ⟨result, hread, hsound⟩ := ih (by omega)
      rw [get_param_ref, hread, ok_bind]
      cases result with
      | none => exact ⟨none, rfl, nofun⟩
      | some found =>
        obtain ⟨next_param_ref, rest⟩ := found
        dsimp only
        cases hget : env.get_param next_param_ref with
        | none => exact ⟨none, rfl, nofun⟩
        | some result =>
          refine ⟨_, rfl, fun ref rest' hsame hrest => ?_⟩
          obtain ⟨rfl, rfl⟩ := Prod.mk.inj (Option.some.inj hsame)
          obtain ⟨r, hr, htext, heval⟩ := hsound next_param_ref rest rfl hrest
          refine ⟨.indirect r, by rwa [Ref.WellFormed], by rw [Ref.text, htext]; rfl, ?_⟩
          rw [Ref.eval, heval, Option.bind_some, hget, Option.map_some]
    · by_cases hnamed : c = 0x3c
      · subst hnamed
        rw [get_param_ref]
        cases hrest : line.dropWhile (· ≠ 0x3e) with
        | nil => exact ⟨none, rfl, nofun⟩
        | cons d rest =>
          obtain ⟨rfl, harg, hname⟩ := dropWhile_eq_cons hrest
          refine ⟨_, rfl, fun ref rest' hsame _ => ?_⟩
          obtain ⟨rfl, rfl⟩ := Prod.mk.inj (Option.some.inj hsame)
          refine ⟨.named (line.takeWhile (· ≠ 0x3e)), by rwa [Ref.WellFormed], ?_, by rw [Ref.eval]⟩
          rw [Ref.text]
          conv_lhs => rw [harg]
          simp
      · by_cases hcomputed : c = 0x5b
        · subst hcomputed
          rw [get_param_ref]
          have hopened : (0x5b :: line).length < n := by rwa [List.length_cons]
          rcases hex.cases_sound hopened with ⟨err, herr⟩ | ⟨v, rest, e, hv, he, htext, heval⟩
          · exact ⟨none, by rw [herr]; rfl, nofun⟩
          · refine ⟨_, by rw [hv]; rfl, fun ref rest' hsame _ => ?_⟩
            obtain ⟨rfl, rfl⟩ := Prod.mk.inj (Option.some.inj hsame)
            refine ⟨.computed e, by rwa [Ref.WellFormed], by rw [Ref.text, htext]; rfl, ?_⟩
            rw [Ref.eval, heval, Option.map_some]
        · rw [get_param_ref_number hindirect hnamed hcomputed]
          refine ⟨_, rfl, fun ref rest hsame hrest => ?_⟩
          obtain ⟨⟨value, rest'⟩, hread, hsame⟩ := Option.map_eq_some_iff.mp hsame
          obtain ⟨rfl, rfl⟩ := Prod.mk.inj hsame
          obtain ⟨w, htext, -⟩ := read_float_sound hread
          have hvalue := number_text env w hrest
          rw [← htext, hread, Option.map_some] at hvalue
          obtain ⟨v, hv, hsame⟩ := Option.map_eq_some_iff.mp hvalue.symm
          obtain ⟨rfl, -⟩ := Prod.mk.inj hsame
          exact ⟨.numbered w, by rw [Ref.WellFormed]; trivial, by rw [Ref.text, htext],
            by rw [Ref.eval, hv, Option.map_some]⟩

theorem written_first (w : Written) : ∃ c later, w.text = c :: later ∧ c ≠ 0x23 ∧ c ≠ 0x3c ∧ c ≠ 0x5b := by
  obtain ⟨c, later, hbody, hc⟩ := body_start w
  unfold Written.text
  cases hsign : w.sign with
  | none =>
    refine ⟨c, later, by rw [hbody]; rfl, ?_, ?_, ?_⟩
    all_goals
      rintro rfl
      exact absurd hc (by decide)
  | some minus =>
    cases minus with
    | true => exact ⟨_, _, rfl, by decide, by decide, by decide⟩
    | false => exact ⟨_, _, rfl, by decide, by decide, by decide⟩

theorem get_param_ref_complete (hex : ReadsBrackets env n fun line => (ex line).isOk) (hrest : Delimited rest) :
    ∀ r : Ref, r.WellFormed → (r.text ++ rest).length < n →
      get_param_ref env ex (r.text ++ rest) = .ok ((r.eval env).map fun ref => (ref, rest))
  | .numbered w, _, _ => by
    obtain ⟨c, later, htext, hindirect, hnamed, hcomputed⟩ := written_first w
    have hvalue := number_text env w hrest
    rw [Ref.text, Ref.eval]
    rw [htext, List.cons_append] at hvalue ⊢
    rw [get_param_ref_number hindirect hnamed hcomputed]
    cases hread : read_float (c :: (later ++ rest)) with
    | none =>
      rw [hread] at hvalue
      rw [Option.map_eq_none_iff.mp hvalue.symm]
      rfl
    | some found =>
      rw [hread] at hvalue
      obtain ⟨v, hv, hsame⟩ := Option.map_eq_some_iff.mp hvalue.symm
      obtain ⟨rfl, hlast⟩ := Prod.mk.inj hsame
      rw [hv, Option.map_some, Option.map_some, Option.map_some, hlast]
  | .named name, h, _ => by
    rw [Ref.WellFormed] at h
    obtain ⟨htake, hdrop⟩ := split_at h rest
    have htext : (Ref.named name).text ++ rest = 0x3c :: (name ++ 0x3e :: rest) := by
      rw [Ref.text]
      simp
    rw [htext, get_param_ref, htake, hdrop, Ref.eval]
    rfl
  | .indirect r, h, hline => by
    rw [Ref.WellFormed] at h
    rw [Ref.text] at hline ⊢
    rw [List.cons_append, List.length_cons] at hline
    have hread := get_param_ref_complete hex hrest r h (by omega)
    rw [List.cons_append, get_param_ref, hread, ok_bind, Ref.eval]
    cases r.eval env with
    | none => rfl
    | some ref =>
      rw [Option.map_some, Option.bind_some]
      dsimp only
      cases env.get_param ref with
      | none => rfl
      | some v => rfl
  | .computed e, h, hline => by
    rw [Ref.WellFormed] at h
    have htext : (Ref.computed e).text ++ rest = e.bracketed ++ rest := by rw [Ref.text]; rfl
    rw [htext] at hline ⊢
    have hread := hex.complete e rest h trivial hline
    rw [Ref.eval]
    change get_param_ref env ex (0x5b :: (e.text ++ [0x5d] ++ rest)) = _
    change (ex (0x5b :: (e.text ++ [0x5d] ++ rest))).isOk = _ at hread
    rw [get_param_ref, hread, ok_bind]
    cases e.eval env with
    | none => rfl
    | some v => rfl

end References

section Numbers

/-- The choice of `read_number` by the first character, inside of an expression. -/
theorem read_number_succ (depth : Nat) (line : Bytes) :
    read_number env (depth + 1) true line =
      let expression := expression_with env (read_number env depth true)
      if line.headD 0 = 0x23 then
        (get_param_ref env expression line.tail).bind fun
          | none => .ok none
          | some (param_ref, line) => .ok ((env.get_param param_ref).map fun result => (result, line))
      else if line.headD 0 = 0x5b then (expression line).isOk
      else if isalpha (line.headD 0) = true then (read_unary env expression line).isOk
      else if line.headD 0 = 0x2d then
        (read_number env depth true line.tail).bind fun
          | none => .ok none
          | some (result, line) => .ok (some (env.neg result, line))
      else if line.headD 0 = 0x2b then read_number env depth true line.tail
      else .ok ((read_float line).map fun (result, line) => (env.literal result, line)) := by
  have hin (p : Prop) : true = true ∧ p ↔ p := and_iff_right rfl
  rw [read_number]
  exact if_congr Iff.rfl rfl (if_congr Iff.rfl rfl
    (if_congr (hin _) rfl (if_congr (hin _) rfl (if_congr (hin _) rfl rfl))))

variable {depth : Nat}

/-- A sign and its operand. -/
theorem signed_sound (hrd : ReadsOperands env depth (read_number env depth true)) (hline : line.length < depth)
    (sign : V → V) (phrase : Operand → Operand) (c : UInt8)
    (hphrase : ∀ a : Operand, a.WellFormed →
      (phrase a).WellFormed ∧ (phrase a).text = c :: a.text ∧ (phrase a).eval env = (a.eval env).map sign) :
    ∃ result, ((read_number env depth true line).bind fun
        | none => .ok none
        | some (result, line) => .ok (some (sign result, line))) = .ok result ∧
      ∀ v rest, result = some (v, rest) → Delimited rest →
        ∃ a : Operand, a.WellFormed ∧ c :: line = a.text ++ rest ∧ a.eval env = some v := by
  obtain ⟨result, hread, hsound⟩ := hrd.sound line hline
  rw [hread, ok_bind]
  cases result with
  | none => exact ⟨none, rfl, nofun⟩
  | some found =>
    obtain ⟨v, rest⟩ := found
    refine ⟨some (sign v, rest), rfl, fun w rest' hsame hrest => ?_⟩
    obtain ⟨rfl, rfl⟩ := Prod.mk.inj (Option.some.inj hsame)
    obtain ⟨a, ha, htext, heval⟩ := hsound v rest rfl hrest
    obtain ⟨hwf, htext', heval'⟩ := hphrase a ha
    exact ⟨phrase a, hwf, by rw [htext', htext]; rfl, by rw [heval', heval, Option.map_some]⟩

theorem read_number_sound (hrd : ReadsOperands env depth (read_number env depth true))
    (hline : line.length < depth + 1) :
    ∃ result, read_number env (depth + 1) true line = .ok result ∧ ∀ v rest, result = some (v, rest) → Delimited rest →
      ∃ a : Operand, a.WellFormed ∧ line = a.text ++ rest ∧ a.eval env = some v := by
  have hex := expression_with_recognizes hrd
  rw [read_number_succ]
  dsimp only
  cases line with
  | nil => exact ⟨none, rfl, nofun⟩
  | cons c line =>
    rw [List.length_cons, Nat.add_lt_add_iff_right] at hline
    rw [List.headD_cons, List.tail_cons]
    by_cases hparam : c = 0x23
    · subst hparam
      rw [if_pos rfl]
      obtain ⟨result, hread, hsound⟩ := get_param_ref_sound hex (by omega : line.length < depth + 1)
      rw [hread, ok_bind]
      cases result with
      | none => exact ⟨none, rfl, nofun⟩
      | some found =>
        obtain ⟨param_ref, rest⟩ := found
        refine ⟨_, rfl, fun v rest' hsame hrest => ?_⟩
        obtain ⟨w, hget, hsame⟩ := Option.map_eq_some_iff.mp hsame
        obtain ⟨rfl, rfl⟩ := Prod.mk.inj hsame
        obtain ⟨r, hr, htext, heval⟩ := hsound param_ref rest rfl hrest
        exact ⟨.parameter r, by rwa [Operand.WellFormed], by rw [Operand.text, htext]; rfl,
          by rw [Operand.eval, heval, Option.bind_some, hget]⟩
    · rw [if_neg hparam]
      by_cases hbracket : c = 0x5b
      · subst hbracket
        rw [if_pos rfl]
        obtain ⟨result, hread, hsound⟩ := hex.sound (0x5b :: line) (by rw [List.length_cons]; omega)
        refine ⟨result, hread, fun v rest hsame _ => ?_⟩
        obtain ⟨e, he, htext, heval⟩ := hsound v rest hsame trivial
        exact ⟨.bracket e, by rwa [Operand.WellFormed], by rw [Operand.text, htext]; rfl, by rw [Operand.eval, heval]⟩
      · rw [if_neg hbracket]
        by_cases halpha : isalpha c = true
        · rw [if_pos halpha]
          obtain ⟨result, hread, hsound⟩ := read_unary_sound hex 
            (by rw [List.length_cons]; omega : (c :: line).length < depth + 1)
          exact ⟨result, hread, fun v rest hsame _ => hsound v rest hsame⟩
        · rw [if_neg halpha]
          by_cases hminus : c = 0x2d
          · subst hminus
            rw [if_pos rfl]
            refine signed_sound hrd hline env.neg .negative _ fun a ha => ⟨by rwa [Operand.WellFormed], ?_, ?_⟩
            · rw [Operand.text]
            · rw [Operand.eval]
          · rw [if_neg hminus]
            by_cases hplus : c = 0x2b
            · subst hplus
              rw [if_pos rfl]
              obtain ⟨result, hread, hsound⟩ := hrd.sound line hline
              refine ⟨result, hread, fun v rest hsame hrest => ?_⟩
              obtain ⟨a, ha, htext, heval⟩ := hsound v rest hsame hrest
              exact ⟨.positive a, by rwa [Operand.WellFormed], by rw [Operand.text, htext]; rfl,
                by rw [Operand.eval, heval]⟩
            · rw [if_neg hplus]
              refine ⟨_, rfl, fun v rest hsame hrest => ?_⟩
              obtain ⟨⟨value, rest'⟩, hread, hsame⟩ := Option.map_eq_some_iff.mp hsame
              obtain ⟨rfl, rfl⟩ := Prod.mk.inj hsame
              obtain ⟨w, htext, hsign⟩ := read_float_sound hread
              have hnone : w.sign = none := by
                rw [hsign, signOf, if_neg (by simpa using hminus), if_neg (by simpa using hplus)]
              have hvalue := number_text env w hrest
              rw [← htext, hread, Option.map_some] at hvalue
              obtain ⟨v, hv, hsame⟩ := Option.map_eq_some_iff.mp hvalue.symm
              obtain ⟨rfl, -⟩ := Prod.mk.inj hsame
              exact ⟨.number w, by rwa [Operand.WellFormed], by rw [Operand.text, htext], by rw [Operand.eval, hv]⟩

theorem read_number_alpha {c : UInt8} (halpha : isalpha c = true) (text : Bytes) :
    read_number env (depth + 1) true (c :: text) =
      (read_unary env (expression_with env (read_number env depth true)) (c :: text)).isOk := by
  rw [read_number_succ]
  dsimp only
  rw [List.headD_cons, if_neg, if_neg, if_pos halpha]
  · rintro rfl
    exact absurd halpha (by decide)
  · rintro rfl
    exact absurd halpha (by decide)

/-- No other operand begins like a number. -/
theorem number_start {c : UInt8} (h : isdigit c = true ∨ c = 0x2e) :
    c ≠ 0x23 ∧ c ≠ 0x5b ∧ ¬isalpha c = true ∧ c ≠ 0x2d ∧ c ≠ 0x2b := by
  rcases h with hdigit | rfl
  · rw [Decimal.isdigit_iff] at hdigit
    have halpha : ¬isalpha c = true := by
      simp only [isalpha, decide_eq_true_eq, UInt8.le_iff_toNat_le]
      have hletters : (0x41 : UInt8).toNat = 65 ∧ (0x61 : UInt8).toNat = 97 := ⟨rfl, rfl⟩
      omega
    refine ⟨?_, ?_, halpha, ?_, ?_⟩
    all_goals
      rintro rfl
      exact absurd hdigit (by decide)
  · decide

theorem read_number_complete (hrd : ReadsOperands env depth (read_number env depth true)) {a : Operand}
    (ha : a.WellFormed) (hrest : Delimited rest) (hline : (a.text ++ rest).length < depth + 1) :
    read_number env (depth + 1) true (a.text ++ rest) = .ok ((a.eval env).map fun v => (v, rest)) := by
  have hex := expression_with_recognizes hrd
  cases a with
  | number w =>
    obtain ⟨c, later, hbody, hc⟩ := body_start w
    rw [Operand.WellFormed] at ha
    have htext : w.text = c :: later := by rw [Written.text, ha, hbody]; rfl
    obtain ⟨hparam, hbracket, halpha, hminus, hplus⟩ := number_start hc
    rw [Operand.text, Operand.eval, ← number_text env w hrest, htext, read_number_succ]
    dsimp only
    rw [List.cons_append, List.headD_cons, if_neg hparam, if_neg hbracket, if_neg halpha, if_neg hminus, if_neg hplus]
  | negative a =>
    rw [Operand.WellFormed] at ha
    rw [Operand.text, List.cons_append, List.length_cons, Nat.add_lt_add_iff_right] at hline
    rw [Operand.text, Operand.eval, read_number_succ]
    dsimp only
    rw [List.cons_append, List.headD_cons, if_neg (by decide), if_neg (by decide), if_neg (by decide), if_pos rfl,
      List.tail_cons, hrd.complete a rest ha hrest hline]
    cases a.eval env with
    | none => rfl
    | some v => rfl
  | positive a =>
    rw [Operand.WellFormed] at ha
    rw [Operand.text, List.cons_append, List.length_cons, Nat.add_lt_add_iff_right] at hline
    rw [Operand.text, Operand.eval, read_number_succ]
    dsimp only
    rw [List.cons_append, List.headD_cons, if_neg (by decide), if_neg (by decide), if_neg (by decide),
      if_neg (by decide), if_pos rfl, List.tail_cons, hrd.complete a rest ha hrest hline]
  | parameter r =>
    rw [Operand.WellFormed] at ha
    rw [Operand.text, List.cons_append, List.length_cons] at hline
    rw [Operand.text, Operand.eval, read_number_succ]
    dsimp only
    rw [List.cons_append, List.headD_cons, if_pos rfl, List.tail_cons,
      get_param_ref_complete hex hrest r ha (by omega)]
    cases r.eval env with
    | none => rfl
    | some ref => rfl
  | bracket e =>
    rw [Operand.WellFormed] at ha
    have htext : (Operand.bracket e).text = e.bracketed := by rw [Operand.text]; rfl
    rw [htext] at hline ⊢
    have hread := hex.complete e rest ha trivial hline
    have hcons : e.bracketed ++ rest = 0x5b :: (e.text ++ [0x5d] ++ rest) := rfl
    rw [Operand.eval, ← hread, hcons, read_number_succ]
    dsimp only
    rw [List.headD_cons, if_neg (by decide), if_pos rfl]
  | unary operation e =>
    obtain ⟨c, later, hname, halpha⟩ := operation.text_head
    obtain ⟨tail, htext⟩ : ∃ tail, (Operand.unary operation e).text ++ rest = c :: tail :=
      ⟨_, by rw [Operand.text, hname]; rfl⟩
    have hread := read_unary_unary hex ha hline
    rw [htext] at hread ⊢
    rw [read_number_alpha halpha, hread]
  | atan y x =>
    obtain ⟨c, later, hname, halpha⟩ := UnaryOp.ATAN.text_head
    obtain ⟨tail, htext⟩ : ∃ tail, (Operand.atan y x).text ++ rest = c :: tail :=
      ⟨_, by rw [Operand.text, hname]; rfl⟩
    have hread := read_unary_atan hex ha hline
    rw [htext] at hread ⊢
    rw [read_number_alpha halpha, hread]
  | exists_ name =>
    obtain ⟨c, later, hname, halpha⟩ := UnaryOp.Exists.text_head
    obtain ⟨tail, htext⟩ : ∃ tail, (Operand.exists_ name).text ++ rest = c :: tail :=
      ⟨_, by rw [Operand.text, hname]; rfl⟩
    have hread : (read_unary env (expression_with env (read_number env depth true))
        ((Operand.exists_ name).text ++ rest)).isOk = _ := read_unary_exists ha
    rw [htext] at hread ⊢
    rw [read_number_alpha halpha, hread]

/-- To any depth, the operands that are shorter than it. -/
theorem read_number_recognizes (env : Env V) (depth : Nat) : ReadsOperands env depth (read_number env depth true) := by
  induction depth with
  | zero => exact ⟨fun line h => absurd h (Nat.not_lt_zero _), fun a rest _ _ h => absurd h (Nat.not_lt_zero _)⟩
  | succ depth ih =>
    exact ⟨fun line hline => read_number_sound ih hline, fun a rest ha hrest hline =>
      read_number_complete ih ha hrest hline⟩

end Numbers

/-- Every text is evaluated to its end or to an error, within the two stacks. There is a value exactly for the
expressions in brackets that are well formed and have one: it is theirs, and the text goes on
behind their bracket. -/
theorem expression_evaluates (env : Env V) (line : Bytes) :
    expression env line ≠ .fault ∧ ∀ v rest, expression env line = .ok (v, rest) ↔
      ∃ e : Expr, e.WellFormed ∧ line = 0x5b :: e.text ++ 0x5d :: rest ∧ e.eval env = some v := by
  have hex := expression_with_recognizes (read_number_recognizes env line.length)
  have hbracketed : ∀ (e : Expr) (rest : Bytes), 0x5b :: e.text ++ 0x5d :: rest = e.bracketed ++ rest := by
    intro e rest
    simp [Expr.bracketed]
  have hline : line.length < line.length + 1 := Nat.lt_succ_self _
  unfold expression
  refine ⟨?_, fun v rest => ⟨fun h => ?_, ?_⟩⟩
  · obtain ⟨result, hread, -⟩ := hex.sound line hline
    intro hfault
    rw [hfault] at hread
    cases hread
  · rcases hex.cases_sound hline with ⟨err, herr⟩ | ⟨w, after, e, hw, he, htext, heval⟩
    · rw [herr] at h
      cases h
    · rw [hw] at h
      obtain ⟨rfl, rfl⟩ := Prod.mk.inj (Evaluated.ok.inj h)
      exact ⟨e, he, by rw [hbracketed, htext], heval⟩
  · rintro ⟨e, he, rfl, heval⟩
    rw [hbracketed] at hline hex ⊢
    have hread := hex.complete e rest he trivial hline
    rw [heval] at hread
    exact isOk_eq_some hread

end DuneWeaver.Expression
