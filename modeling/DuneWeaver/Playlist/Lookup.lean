import DuneWeaver.Playlist.ResolvedPath
import Mathlib.Data.List.GetD
import Mathlib.Data.List.Nodup

namespace DuneWeaver

namespace Scan

variable {σ : Type*} {fn : σ → Nat → Bytes → σ × Bool}

/-- The loop comes to the end of what the stream delivers: neither the callback
nor a cap ends it before that. -/
def runsOut (fn : σ → Nat → Bytes → σ × Bool) : Bytes → Scan σ → Bool
  | [], _ => true
  | c :: rest, s =>
    if s.consumed < MAX_PLAYLIST_FILE ∧ s.valid < MAX_ITEMS then
      if c = 10 then
        if s.overlong then
          runsOut fn rest { s with consumed := s.consumed + 1, line := [], overlong := false }
        else
          let (s, cont) := s.flush fn
          if ¬ cont then false
          else runsOut fn rest { s with consumed := s.consumed + 1, line := [], overlong := false }
      else if s.line.length < MAX_LINE then
        runsOut fn rest { s with consumed := s.consumed + 1, line := s.line ++ [c] }
      else
        runsOut fn rest { s with consumed := s.consumed + 1, overlong := true }
    else false

/-- A loop that ends before that does not depend on what would follow. -/
theorem loop_append {content : Bytes} {s : Scan σ} (hends : s.runsOut fn content = false) (rest : Bytes) :
    s.loop fn (content ++ rest) = s.loop fn content := by
  induction content generalizing s with
  | nil => cases hends
  | cons c content ih =>
    rw [runsOut] at hends
    rw [List.cons_append, loop, loop]
    split_ifs at hends ⊢
    · exact ih hends
    · dsimp only at hends ⊢
      split_ifs at hends ⊢
      · exact ih hends
      · rfl
    · exact ih hends
    · exact ih hends
    · rfl

end Scan

section Capture

variable (target : Nat) (want_next : Bool) (next_target : Nat)

/-- Without a wanted next line, the callback keeps none. -/
private theorem visit_capture_unwanted (found : Bytes × Bytes) (valid : Nat) (items : List Bytes) :
    (visit (Tick.capture target false next_target) found valid items).2 = found.2 := by
  induction items generalizing found valid with
  | nil => rfl
  | cons p items ih =>
    have hkept : (Tick.capture target false next_target found valid p).1.2 = found.2 := by
      unfold Tick.capture
      split <;> rfl
    rw [visit]
    dsimp only
    split_ifs
    · rw [ih, hkept]
    · exact hkept

/-- Past the next target, the callback keeps what it has found of it. -/
private theorem visit_capture_next_past {valid : Nat} (hpast : next_target < valid) (found : Bytes × Bytes)
    (items : List Bytes) :
    (visit (Tick.capture target want_next next_target) found valid items).2 = found.2 := by
  induction items generalizing valid found with
  | nil => rfl
  | cons p items ih =>
    have hkept : (Tick.capture target want_next next_target found valid p).1.2 = found.2 := by
      unfold Tick.capture
      dsimp only
      rw [if_neg (by omega : ¬ (want_next = true ∧ valid = next_target))]
      split_ifs <;> rfl
    rw [visit]
    dsimp only
    split_ifs
    · rw [ih (by omega), hkept]
    · exact hkept

/-- Before the next target, the callback goes on until it comes to it, whether
the target itself comes before it or after it. -/
private theorem visit_capture_next (hdistinct : target ≠ next_target) {valid : Nat}
    (hbefore : valid ≤ next_target) (found : Bytes × Bytes) (hnone : found.2 = []) (items : List Bytes) :
    (visit (Tick.capture target true next_target) found valid items).2 =
      items[next_target - valid]?.getD [] := by
  induction items generalizing valid found with
  | nil => simpa [visit] using hnone
  | cons p items ih =>
    rw [visit]
    dsimp only
    by_cases hhere : valid = next_target
    · have hfound : (Tick.capture target true next_target found valid p).1.2 = p := by
        unfold Tick.capture
        dsimp only
        rw [if_neg (by omega), if_pos ⟨rfl, hhere⟩]
      subst hhere
      rw [Nat.sub_self, List.getElem?_cons_zero, Option.getD_some]
      split_ifs
      · rw [visit_capture_next_past _ _ _ (Nat.lt_succ_self _), hfound]
      · exact hfound
    · have hkept : (Tick.capture target true next_target found valid p).1.2 = [] ∧
          (Tick.capture target true next_target found valid p).2 = true := by
        unfold Tick.capture
        dsimp only
        rw [if_neg (fun hnext : _ ∧ valid = next_target => hhere hnext.2)]
        split_ifs <;> simp [hnone]
      obtain ⟨hstill, hgo⟩ := hkept
      have hoffset : next_target - valid = (next_target - (valid + 1)) + 1 := by omega
      rw [if_pos hgo, ih (by omega) _ hstill, hoffset, List.getElem?_cons_succ]

end Capture

/-- A read that breaks off delivers the front of the file. -/
theorem Env.read_take {env : Env} {attempt count : Nat} {path content : Bytes} (hfault : env.fault attempt = .after count)
    (hfile : env.files path = some content) : env.read attempt path = some (content.take count) := by
  rw [read, hfault, hfile]
  rfl

namespace Tick

/-- The order is one of the lines it was drawn for, none twice. -/
def Shuffled (t : Tick) : Prop := t.order.Perm (List.range t.order.length)

instance (t : Tick) : Decidable t.Shuffled := inferInstanceAs (Decidable (List.Perm _ _))

/-- The tick with the current and the next slot looked up in a playlist file;
`none` when there is no line for the current one. -/
def lookedUp (content : Bytes) (t : Tick) : Option Tick :=
  (slotLine content t.order t.index).map fun path =>
    { t with
      current_path := path
      next_path := (slotLine content t.order (t.index + 1)).getD [] }

/-- The callback with which `resolveCurrent` scans. -/
def wanted (t : Tick) : Bytes × Bytes → Nat → Bytes → (Bytes × Bytes) × Bool :=
  capture (t.order.getD t.index 0) (decide (t.index + 1 < t.order.length)) (t.order.getD (t.index + 1) 0)

/-- A scan of a file finds the two lines, in whichever order they come. -/
theorem scan_wanted {t : Tick} (hshuffled : t.Shuffled) (hindex : t.index < t.order.length)
    (content : Bytes) :
    scanValidLines t.wanted ([], []) content =
      ((slotLine content t.order t.index).getD [], (slotLine content t.order (t.index + 1)).getD []) := by
  rw [scanValidLines_eq_visit]
  have hslot (index : Nat) (h : index < t.order.length) :
      slotLine content t.order index = (validLines content)[t.order.getD index 0]? := by
    unfold slotLine
    rw [List.getD_eq_getElem _ _ h, List.getElem?_eq_getElem h, Option.bind_some]
  apply Prod.ext
  · rw [hslot _ hindex]
    exact visit_capture _ _ _ (Nat.zero_le _) _ rfl _
  · by_cases hnext : t.index + 1 < t.order.length
    · have hnodup : t.order.Nodup := hshuffled.nodup_iff.mpr List.nodup_range
      have hdistinct : t.order.getD t.index 0 ≠ t.order.getD (t.index + 1) 0 := by
        rw [List.getD_eq_getElem _ _ hindex, List.getD_eq_getElem _ _ hnext]
        intro hsame
        have hindexes := (List.Nodup.getElem_inj_iff hnodup).mp hsame
        omega
      unfold wanted
      rw [decide_eq_true hnext, hslot _ hnext]
      exact visit_capture_next _ _ hdistinct (Nat.zero_le _) _ rfl _
    · have hnone : slotLine content t.order (t.index + 1) = none := by
        unfold slotLine
        rw [List.getElem?_eq_none (Nat.le_of_not_lt hnext), Option.bind_none]
      unfold wanted
      rw [decide_eq_false hnext, hnone]
      exact visit_capture_unwanted _ _ _ _ _

theorem slotLine_ne_nil {content : Bytes} {order : List Nat} {index : Nat} {path : Bytes}
    (hslot : slotLine content order index = some path) : path ≠ [] := by
  obtain ⟨line, -, hline⟩ := Option.bind_eq_some_iff.mp hslot
  rintro rfl
  exact nil_notMem_validLines content (List.mem_of_getElem? hline)

variable {env : Env} {attempt : Nat} {t : Tick}

/-- A call that is delivered some content looks the two slots up in it. -/
theorem resolveCurrent_read (hplaylist : t.playlist_path ≠ []) (hshuffled : t.Shuffled)
    (hindex : t.index < t.order.length) {content : Bytes}
    (hread : env.read attempt t.playlist_path = some content) :
    t.resolveCurrent env attempt = t.lookedUp content := by
  have hscan := scan_wanted hshuffled hindex content
  unfold wanted at hscan
  unfold resolveCurrent lookedUp
  rw [if_neg hplaylist, if_neg (by omega), hread]
  dsimp only
  rw [hscan]
  cases hslot : slotLine content t.order t.index with
  | none => rfl
  | some path =>
    rw [Option.getD_some, if_neg (slotLine_ne_nil hslot)]
    rfl

/-- A call that is delivered nothing leaves the object alone. -/
theorem resolveCurrent_unread (hplaylist : t.playlist_path ≠ []) (hread : env.read attempt t.playlist_path = none) :
    t.resolveCurrent env attempt = none := by
  unfold resolveCurrent
  rw [if_neg hplaylist, hread]
  split <;> rfl

/-- A scan that ends in the delivered front of a file finds in it what is to be
found in the whole file. -/
theorem lookedUp_front (hshuffled : t.Shuffled) (hindex : t.index < t.order.length) {content : Bytes}
    {count : Nat} (hends : Scan.runsOut t.wanted (content.take count)
      { line := [], consumed := 0, valid := 0, overlong := false, acc := ([], []) } = false) :
    t.lookedUp (content.take count) = t.lookedUp content := by
  have hsame : scanValidLines t.wanted ([], []) content =
      scanValidLines t.wanted ([], []) (content.take count) := by
    have hloop := Scan.loop_append hends (content.drop count)
    rw [List.take_append_drop] at hloop
    exact hloop
  rw [scan_wanted hshuffled hindex, scan_wanted hshuffled hindex, Prod.mk.injEq] at hsame
  have hslot : slotLine content t.order t.index = slotLine (content.take count) t.order t.index := by
    cases hwhole : slotLine content t.order t.index with
    | none =>
      cases hfront : slotLine (content.take count) t.order t.index with
      | none => rfl
      | some path =>
        rw [hwhole, hfront] at hsame
        exact absurd hsame.1.symm (slotLine_ne_nil hfront)
    | some path =>
      cases hfront : slotLine (content.take count) t.order t.index with
      | none =>
        rw [hwhole, hfront] at hsame
        exact absurd hsame.1 (slotLine_ne_nil hwhole)
      | some front =>
        rw [hwhole, hfront] at hsame
        exact congrArg some hsame.1
  unfold lookedUp
  rw [hslot, hsame.2]

/-- The stream breaks off in front of the end of the file while the scan of the
call goes on; `delivered` is what it has delivered by then. -/
def BreaksOff (env : Env) (attempt : Nat) (t : Tick) (delivered : Bytes) : Prop :=
  ∃ content count, env.files t.playlist_path = some content ∧ env.fault attempt = .after count ∧
    count < content.length ∧ delivered = content.take count ∧
    Scan.runsOut t.wanted delivered
      { line := [], consumed := 0, valid := 0, overlong := false, acc := ([], []) } = true

/-- The playlist cannot be opened, or a read of its scan fails. -/
def ReadFails (env : Env) (attempt : Nat) (t : Tick) : Prop :=
  env.fault attempt = .open ∨ env.files t.playlist_path = none ∨ ∃ delivered, t.BreaksOff env attempt delivered

/-- What the lookup is for: the lines of the current and the next slot, and
nothing at all when a read fails or the line has vanished. -/
def LooksUp (env : Env) (attempt : Nat) (t : Tick) : Prop :=
  (t.ReadFails env attempt → t.resolveCurrent env attempt = none) ∧
    ∀ content, env.files t.playlist_path = some content → ¬ t.ReadFails env attempt →
      t.resolveCurrent env attempt = t.lookedUp content

/-- The one scan looks both lines up, except that a read error counts as the
end of the file: what has been delivered of the current line by then is taken for the line. -/
theorem looks_up_iff (env : Env) (attempt : Nat) (t : Tick) (hplaylist : t.playlist_path ≠ [])
    (hshuffled : t.Shuffled) (hindex : t.index < t.order.length) :
    t.LooksUp env attempt ↔
      ∀ delivered, t.BreaksOff env attempt delivered → slotLine delivered t.order t.index = none := by
  constructor
  · rintro ⟨hfails, -⟩ delivered hbreaks
    have hnone := hfails (.inr (.inr ⟨delivered, hbreaks⟩))
    obtain ⟨content, count, hfile, hfault, -, rfl, -⟩ := hbreaks
    have hread := Env.read_take hfault hfile
    rw [resolveCurrent_read hplaylist hshuffled hindex hread] at hnone
    exact Option.map_eq_none_iff.mp hnone
  · intro hvanished
    constructor
    · rintro (hopen | hmissing | ⟨delivered, hbreaks⟩)
      · apply resolveCurrent_unread hplaylist
        rw [Env.read, hopen]
      · apply resolveCurrent_unread hplaylist
        rw [Env.read, hmissing]
        cases env.fault attempt <;> rfl
      · have hslot := hvanished delivered hbreaks
        obtain ⟨content, count, hfile, hfault, -, rfl, -⟩ := hbreaks
        have hread := Env.read_take hfault hfile
        rw [resolveCurrent_read hplaylist hshuffled hindex hread, lookedUp, hslot]
        rfl
    · intro content hfile hsound
      have hopens : env.fault attempt ≠ .open := fun hopen => hsound (.inl hopen)
      rcases hfault : env.fault attempt with _ | _ | count
      · apply resolveCurrent_read hplaylist hshuffled hindex
        rw [Env.read, hfault, hfile]
      · exact absurd hfault hopens
      · have hread := Env.read_take hfault hfile
        rw [resolveCurrent_read hplaylist hshuffled hindex hread]
        by_cases hshort : count < content.length
        · apply lookedUp_front hshuffled hindex
          by_contra hends
          apply hsound
          exact .inr (.inr ⟨_, content, count, hfile, hfault, hshort, rfl, eq_true_of_ne_false hends⟩)
        · rw [List.take_of_length_le (by omega)]

/-- Two patterns in file order, and a read error behind the `/x` of `/x.thr`. -/
def torn_env : Env where
  files := fun _ => some (bytes "/x.thr\n/y.thr\n")
  fault := fun _ => .after 2

def torn_tick : Tick := { playlist_path := bytes "/playlists/a.txt", order := [0, 1], index := 0 }

/-- The front of a line is taken for the path of the slot. -/
theorem torn_line_is_resolved : ¬ torn_tick.LooksUp torn_env 0 := by
  intro hlooks
  have hbreaks : torn_tick.BreaksOff torn_env 0 (bytes "/x") :=
    ⟨bytes "/x.thr\n/y.thr\n", 2, rfl, rfl, by decide, by decide, by decide⟩
  have hnone := hlooks.1 (.inr (.inr ⟨_, hbreaks⟩))
  have hsome : (torn_tick.resolveCurrent torn_env 0).isSome = true := by decide
  rw [hnone] at hsome
  cases hsome

/-- A file in which the current line comes behind the next one. -/
theorem looks_up_backwards :
    let t : Tick := { playlist_path := bytes "/playlists/a.txt", order := [1, 0], index := 0 }
    let env : Env := { files := fun _ => some (bytes "/x.thr\n/y.thr\n") }
    t.LooksUp env 0 ∧ t.lookedUp (bytes "/x.thr\n/y.thr\n") =
      some { t with current_path := bytes "/y.thr", next_path := bytes "/x.thr" } := by
  intro t env
  refine ⟨(looks_up_iff env 0 t (by decide) (by decide) (by decide)).mpr ?_, by decide⟩
  rintro delivered ⟨content, count, -, hfault, -⟩
  cases hfault

end Tick

end DuneWeaver
