import DuneWeaver.WebServer.Upload

open Transition

namespace DuneWeaver.WebServer

/-- What `handleUpdate` answers: a refusal, or a status with the code of `_upload_status`. -/
inductive UpdateAnswer where
  | notAllowed
  | keyRequired
  | json (http : Nat) (status : Bytes) (code : Nat)
  deriving DecidableEq

/-- The server with what firmware updates keep. `accepted` is whether `Update.end` accepted the image of the last
session; `answer` and `fullReset` are what the last step answered and requested. -/
structure Updater where
  server : Web_Server
  maxSketchSpace : UInt32 := 0
  last_upload_update : UInt32 := 0
  accepted : Bool := false
  answer : Option UpdateAnswer := none
  fullReset : Bool := false
  panicked : Bool := false

/-- `HTTPUpload` of an update. A start comes with the size argument as a number, if there is one. -/
inductive UpdateUpload where
  | START (size : Option UInt32)
  | WRITE (totalSize : UInt32)
  | END
  | ABORTED

/-- What a call of `WebUpdateUpload` meets: whether the client may update, whether the machine is busy, the next
partition, and what `Update` answers. -/
structure UpdateCall where
  allowed : Bool := true
  blocked : Bool := false
  flashsize : UInt32 := 0
  begins : Bool := true
  writes : Bool := true
  ends : Bool := true
  /-- what `uploadCheck` meets -/
  check : Call := {}

/-- A request to the final handler: who asks, and whether the machine is busy. -/
structure UpdateRequest where
  admin : Bool := true
  sandKey : Bool := true
  blocked : Bool := false

/-- `int(_upload_status)`. -/
def UploadStatus.code : UploadStatus → Nat
  | NONE => 0
  | FAILED => 1
  | CANCELLED => 2
  | SUCCESSFUL => 3
  | ONGOING => 4

namespace Updater

def setStatus (status : UploadStatus) (u : Updater) : Updater :=
  { u with server := { u.server with upload_status := status } }

/-- The start of a session. -/
def updateStart (size : Option UInt32) (c : UpdateCall) (u : Updater) : Updater :=
  if c.blocked then
    let u := u.setStatus .FAILED
    { u with server := u.server.uploadCheck c.check }
  else
    let maxSketchSpace := size.getD u.maxSketchSpace
    let u := { u with maxSketchSpace }
    if c.flashsize < maxSketchSpace then u.setStatus .FAILED
    else
      let u := { u with last_upload_update := 0 }
      u.setStatus (if c.begins then .ONGOING else .FAILED)

/-- A part of the image. A division by zero is a trap. -/
def updateWrite (totalSize : UInt32) (c : UpdateCall) (u : Updater) : Updater :=
  if u.server.upload_status = .ONGOING then
    if u.maxSketchSpace = 0 then { u with panicked := true }
    else
      let percent := 100 * totalSize / u.maxSketchSpace
      let u := { u with last_upload_update := percent }
      if c.writes then u else u.setStatus .FAILED
  else u

/-- `WebUpdateUpload`. -/
def WebUpdateUpload (u : Updater) (upload : UpdateUpload) (c : UpdateCall) : Updater :=
  if ¬ c.allowed then u.setStatus .FAILED
  else
    match upload with
    | .START size => u.updateStart size c
    | .WRITE totalSize => if u.server.upload_status ≠ .FAILED then u.updateWrite totalSize c else u
    | .END =>
      if u.server.upload_status ≠ .FAILED then
        if c.ends then { u.setStatus .SUCCESSFUL with accepted := true } else u.setStatus .FAILED
      else u
    | .ABORTED => if u.server.upload_status ≠ .FAILED then u.setStatus .FAILED else u

/-- The answer for a request that is allowed. -/
def updateAnswer (blocked : Bool) (status : UploadStatus) : UpdateAnswer :=
  let ok := status = .SUCCESSFUL
  let probe := status = .NONE
  .json (if ok then 200 else if blocked then 409 else if probe then 200 else 500)
    (if ok then bytes "ok"
      else if probe then if blocked then bytes "busy" else bytes "ready"
      else if blocked then bytes "busy" else bytes "failed")
    status.code

/-- `handleUpdate`. -/
def handleUpdate (u : Updater) (r : UpdateRequest) : Updater :=
  if ¬ r.admin then { u.setStatus .NONE with answer := some .notAllowed }
  else if ¬ r.sandKey then { u.setStatus .NONE with answer := some .keyRequired }
  else
    let u := { u with answer := some (updateAnswer r.blocked u.server.upload_status) }
    if u.server.upload_status = .SUCCESSFUL then { u with fullReset := true } else u.setStatus .NONE

/-- What the server is asked: an event of an update's upload, its final handler, or a whole session of another upload
or a request to the handler of those, with which updates share the status. -/
inductive Step where
  | upload (upload : UpdateUpload) (c : UpdateCall)
  | handle (r : UpdateRequest)
  | file (s : Session)
  | fileOps (allowed : Bool)

/-- A new session has no image yet. -/
def begins : Step → Bool
  | .upload (.START _) _ => true
  | _ => false

/-- One step; behind a trap there is none. -/
def step (u : Updater) (a : Step) : Updater :=
  if u.panicked then u
  else
    let u := { u with answer := none, fullReset := false, accepted := u.accepted && !begins a }
    match a with
    | .upload upload c => u.WebUpdateUpload upload c
    | .handle r => u.handleUpdate r
    | .file s => { u with server := u.server.serve s }
    | .fileOps allowed => { u with server := (u.server.handleFileOps allowed).2 }

/-- The server after a reset. -/
def fresh (files : Bytes → Option Bytes) : Updater := { server := Web_Server.fresh files }

/-- The server has not trapped, and when it answers that an update is done or requests the reset, the image of the last
session was accepted. -/
structure Sound (u : Updater) : Prop where
  running : u.panicked = false
  answered : u.fullReset = true ∨ (∃ http code, u.answer = some (.json http (bytes "ok") code)) → u.accepted = true

/-- A part of an image comes in while no size is known. -/
def Unsized (u : Updater) : Step → Prop
  | .upload (.WRITE _) c => c.allowed = true ∧ u.server.upload_status = .ONGOING ∧ u.maxSketchSpace = 0
  | _ => False

/-- A status of success is that of an image. -/
def Kept (u : Updater) : Prop := u.server.upload_status = .SUCCESSFUL → u.accepted = true

section Status

variable {u : Updater} {c : UpdateCall}

theorem failed_ne : UploadStatus.FAILED ≠ .SUCCESSFUL := by decide

theorem ongoing_ne : UploadStatus.ONGOING ≠ .SUCCESSFUL := by decide

theorem uploadCheck_status (c : Call) (s : Web_Server) : (s.uploadCheck c).upload_status = s.upload_status := by
  unfold Web_Server.uploadCheck
  split
  · rfl
  · rfl

theorem handleFileOps_status (allowed : Bool) (s : Web_Server) : (s.handleFileOps allowed).2.upload_status = .NONE := by
  unfold Web_Server.handleFileOps
  split
  · rfl
  · dsimp only
    split
    · rfl
    · rfl

/-- A session of another upload leaves no success behind: its final handler takes it back, and an abort is a failure. -/
theorem serve_status (s : Session) (w : Web_Server) : (w.serve s).upload_status ≠ .SUCCESSFUL := by
  unfold Web_Server.serve
  by_cases hended : s.last.isSome = true
  · rw [if_pos hended, handleFileOps_status]
    decide
  · have hlast : s.last = none := by simpa using hended
    rw [if_neg hended, Web_Server.perform, Session.events, run_append, hlast, run_cons, run_nil]
    generalize run Web_Server.fileUpload w _ = v
    unfold Web_Server.fileUpload
    dsimp only
    by_cases hallowed : s.finish.allowed = true
    · rw [if_neg (not_not_intro hallowed)]
      by_cases hfailed : v.upload_status = .FAILED
      · rw [if_neg (not_not_intro hfailed), uploadCheck_status, hfailed]
        decide
      · rw [if_pos hfailed]
        unfold Web_Server.uploadStop
        dsimp only
        split
        · exact failed_ne
        · exact failed_ne
    · rw [if_pos hallowed, uploadCheck_status]
      exact failed_ne

theorem updateStart_status (size : Option UInt32) : (u.updateStart size c).server.upload_status ≠ .SUCCESSFUL := by
  unfold updateStart
  split
  · dsimp only
    rw [uploadCheck_status]
    exact failed_ne
  · dsimp only
    split
    · exact failed_ne
    · cases c.begins with
      | true => exact ongoing_ne
      | false => exact failed_ne

/-- A part of an image is no success, and it changes no other status. -/
theorem Kept.updateWrite (totalSize : UInt32) (h : u.Kept) : (u.updateWrite totalSize c).Kept := by
  unfold Updater.updateWrite
  split
  case isTrue hongoing =>
    split
    · exact h
    · dsimp only
      split
      · exact h
      · intro hsuccess
        cases hsuccess
  case isFalse => exact h

theorem kept_failed (u : Updater) : (u.setStatus .FAILED).Kept := fun hsuccess => by cases hsuccess

theorem kept_none (u : Updater) : (u.setStatus .NONE).Kept := fun hsuccess => by cases hsuccess

/-- Only an image that `Update.end` accepts makes an upload successful. -/
theorem Kept.upload (upload : UpdateUpload) (h : (∃ size, upload = .START size) ∨ u.Kept) :
    (u.WebUpdateUpload upload c).Kept := by
  unfold WebUpdateUpload
  split
  · exact kept_failed u
  · cases upload with
    | START size => exact fun hsuccess => absurd hsuccess (updateStart_status size)
    | WRITE totalSize =>
      have hkept : u.Kept := h.resolve_left fun ⟨size, heq⟩ => by cases heq
      dsimp only
      split
      · exact hkept.updateWrite totalSize
      · exact hkept
    | END =>
      have hkept : u.Kept := h.resolve_left fun ⟨size, heq⟩ => by cases heq
      dsimp only
      split
      · split
        · exact fun _ => rfl
        · exact kept_failed u
      · exact hkept
    | ABORTED =>
      have hkept : u.Kept := h.resolve_left fun ⟨size, heq⟩ => by cases heq
      dsimp only
      split
      · exact kept_failed u
      · exact hkept

theorem Kept.handleUpdate (r : UpdateRequest) (h : u.Kept) : (u.handleUpdate r).Kept := by
  unfold Updater.handleUpdate
  split
  · exact kept_none u
  · split
    · exact kept_none u
    · dsimp only
      split
      · exact h
      · exact kept_none u

/-- Every step keeps that. -/
theorem Kept.step (h : u.Kept) (a : Step) : (u.step a).Kept := by
  unfold Updater.step
  split
  · exact h
  · cases a with
    | upload upload c =>
      refine Kept.upload upload ?_
      cases upload with
      | START size => exact .inl ⟨size, rfl⟩
      | WRITE totalSize => exact .inr fun hsuccess => Bool.and_eq_true_iff.mpr ⟨h hsuccess, rfl⟩
      | END => exact .inr fun hsuccess => Bool.and_eq_true_iff.mpr ⟨h hsuccess, rfl⟩
      | ABORTED => exact .inr fun hsuccess => Bool.and_eq_true_iff.mpr ⟨h hsuccess, rfl⟩
    | handle r => exact Kept.handleUpdate r fun hsuccess => Bool.and_eq_true_iff.mpr ⟨h hsuccess, rfl⟩
    | file s => exact fun hsuccess => absurd hsuccess (serve_status s u.server)
    | fileOps allowed =>
      intro hsuccess
      have hnone := handleFileOps_status allowed u.server
      exact UploadStatus.noConfusion (hnone.symm.trans hsuccess)

end Status

section Traps

variable {u : Updater}

/-- An upload answers nothing, and it traps in a part of an image without a size only. -/
theorem upload_quiet (upload : UpdateUpload) (c : UpdateCall) : (u.WebUpdateUpload upload c).answer = u.answer ∧
    (u.WebUpdateUpload upload c).fullReset = u.fullReset ∧
    ((u.WebUpdateUpload upload c).panicked = true ↔ u.panicked = true ∨ u.Unsized (.upload upload c)) := by
  unfold WebUpdateUpload
  split
  case isTrue hrefused =>
    refine ⟨rfl, rfl, (or_iff_left ?_).symm⟩
    cases upload with
    | WRITE totalSize => exact fun h => hrefused h.1
    | _ => exact id
  case isFalse hallowed =>
    cases upload with
    | START size =>
      dsimp only
      unfold updateStart
      split
      · exact ⟨rfl, rfl, (or_iff_left id).symm⟩
      · dsimp only
        split
        · exact ⟨rfl, rfl, (or_iff_left id).symm⟩
        · exact ⟨rfl, rfl, (or_iff_left id).symm⟩
    | WRITE totalSize =>
      dsimp only
      split
      case isTrue hopen =>
        unfold updateWrite
        by_cases hongoing : u.server.upload_status = .ONGOING
        · rw [if_pos hongoing]
          by_cases hsize : u.maxSketchSpace = 0
          · rw [if_pos hsize]
            exact ⟨rfl, rfl, iff_of_true rfl (.inr ⟨not_not.mp hallowed, hongoing, hsize⟩)⟩
          · have hsized : ¬ u.Unsized (.upload (.WRITE totalSize) c) := fun h => hsize h.2.2
            rw [if_neg hsize]
            dsimp only
            split
            · exact ⟨rfl, rfl, (or_iff_left hsized).symm⟩
            · exact ⟨rfl, rfl, (or_iff_left hsized).symm⟩
        · rw [if_neg hongoing]
          exact ⟨rfl, rfl, (or_iff_left fun h => hongoing h.2.1).symm⟩
      case isFalse hfailed =>
        refine ⟨rfl, rfl, (or_iff_left fun h => ?_).symm⟩
        have hstatus := (not_not.mp hfailed).symm.trans h.2.1
        cases hstatus
    | END =>
      dsimp only
      split
      · split
        · exact ⟨rfl, rfl, (or_iff_left id).symm⟩
        · exact ⟨rfl, rfl, (or_iff_left id).symm⟩
      · exact ⟨rfl, rfl, (or_iff_left id).symm⟩
    | ABORTED =>
      dsimp only
      split
      · exact ⟨rfl, rfl, (or_iff_left id).symm⟩
      · exact ⟨rfl, rfl, (or_iff_left id).symm⟩

/-- The answer is that the update is done exactly where the status is. -/
theorem updateAnswer_ok {blocked : Bool} {status : UploadStatus} {http code : Nat}
    (h : updateAnswer blocked status = .json http (bytes "ok") code) : status = .SUCCESSFUL := by
  cases status with
  | SUCCESSFUL => rfl
  | _ =>
    revert h
    unfold updateAnswer
    cases blocked with
    | true => exact fun h => absurd (UpdateAnswer.json.inj h).2.1 (by decide)
    | false => exact fun h => absurd (UpdateAnswer.json.inj h).2.1 (by decide)

/-- The final handler says that an update is done, and requests the reset, only where the image was accepted. -/
theorem handleUpdate_sound (r : UpdateRequest) (hkept : u.Kept) (hrunning : u.panicked = false)
    (hreset : u.fullReset = false) : (u.handleUpdate r).Sound := by
  unfold handleUpdate
  split
  · refine ⟨hrunning, fun h => ?_⟩
    obtain h | ⟨http, code, h⟩ := h
    · exact Bool.noConfusion (hreset.symm.trans h)
    · cases h
  · split
    · refine ⟨hrunning, fun h => ?_⟩
      obtain h | ⟨http, code, h⟩ := h
      · exact Bool.noConfusion (hreset.symm.trans h)
      · cases h
    · dsimp only
      by_cases hsuccess : u.server.upload_status = .SUCCESSFUL
      · rw [if_pos hsuccess]
        exact ⟨hrunning, fun _ => hkept hsuccess⟩
      · rw [if_neg hsuccess]
        refine ⟨hrunning, fun h => ?_⟩
        obtain h | ⟨http, code, h⟩ := h
        · exact Bool.noConfusion (hreset.symm.trans h)
        · exact absurd (updateAnswer_ok (Option.some.inj h)) hsuccess

/-- Without an answer nothing can be wrong with it. -/
theorem sound_of_quiet (hanswer : u.answer = none) (hreset : u.fullReset = false) :
    u.Sound ↔ u.panicked = false := by
  refine ⟨Sound.running, fun hrunning => ⟨hrunning, fun h => ?_⟩⟩
  obtain h | ⟨http, code, h⟩ := h
  · exact Bool.noConfusion (hreset.symm.trans h)
  · rw [hanswer] at h
    cases h

/-- A step goes wrong exactly if it is a part of an image that comes while no size is known. -/
theorem step_sound_iff (hkept : u.Kept) (hsound : u.Sound) (a : Step) : (u.step a).Sound ↔ ¬ u.Unsized a := by
  unfold step
  rw [if_neg (Bool.eq_false_iff.mp hsound.running)]
  cases a with
  | upload upload c =>
    obtain ⟨hanswer, hreset, hpanicked⟩ := upload_quiet
      (u := { u with answer := none, fullReset := false, accepted := u.accepted && !begins (.upload upload c) })
        upload c
    dsimp only
    rw [sound_of_quiet hanswer hreset, Bool.eq_false_iff, ne_eq, hpanicked]
    refine not_congr ((or_iff_right (Bool.eq_false_iff.mp hsound.running)).trans ?_)
    cases upload with
    | WRITE totalSize => rfl
    | _ => rfl
  | handle r =>
    refine iff_of_true (handleUpdate_sound r ?_ hsound.running rfl) id
    exact fun hsuccess => Bool.and_eq_true_iff.mpr ⟨hkept hsuccess, rfl⟩
  | file s => exact iff_of_true ((sound_of_quiet rfl rfl).mpr hsound.running) id
  | fileOps allowed => exact iff_of_true ((sound_of_quiet rfl rfl).mpr hsound.running) id

end Traps

/-- No run of updates traps or takes an image for accepted that was not, exactly if no part of an image comes while no
size is known. -/
theorem updates_sound_iff (files : Bytes → Option Bytes) (steps : List Step) :
    Always step Sound (fresh files) steps ↔ Throughout step (fun u a => ¬ u.Unsized a) (fresh files) steps := by
  refine always_iff_throughout_not (I := Kept) (Q := fun _ _ => True) (fun u a hkept _ _ => hkept.step a)
    (fun u a hkept _ hsound => step_sound_iff hkept hsound a) (fun hsuccess => by cases hsuccess) ?_
    (throughout_of_forall (fun _ _ => trivial) _ _)
  exact (sound_of_quiet rfl rfl).mpr rfl

/-- The first update after a reset, without a size argument. -/
theorem first_update_without_size_traps : ¬ Always step Sound (fresh fun _ => none)
    [.upload (.START none) { flashsize := 0x190000 }, .upload (.WRITE 1436) { flashsize := 0x190000 }] :=
  fun h => absurd h.last.running (by decide)

end Updater

end DuneWeaver.WebServer
