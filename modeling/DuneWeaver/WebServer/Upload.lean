import DuneWeaver.Bytes
import DuneWeaver.Transition.Run
import Mathlib.Logic.Function.Basic

namespace DuneWeaver.WebServer

/-- `UploadStatus`. -/
inductive UploadStatus where
  | NONE
  | FAILED
  | CANCELLED
  | SUCCESSFUL
  | ONGOING
  deriving DecidableEq

def ESP_ERROR_AUTHENTICATION : Nat := 1
def ESP_ERROR_FILE_CREATION : Nat := 2
def ESP_ERROR_FILE_WRITE : Nat := 3
def ESP_ERROR_UPLOAD : Nat := 4
def ESP_ERROR_NOT_ENOUGH_SPACE : Nat := 5
def ESP_ERROR_UPLOAD_CANCELLED : Nat := 6
def ESP_ERROR_FILE_CLOSE : Nat := 7

/-- `_upload_error_code` and `_upload_error_msg`. -/
structure UploadError where
  code : Nat := 0
  msg : Bytes := []
  deriving DecidableEq

/-- The open `_uploadFile`: its path, and what its writes have taken. -/
structure UploadFile where
  path : Bytes
  taken : Bytes := []
  deriving DecidableEq

/-- What all upload sessions share: the variables of the server, and the content of
the files. -/
structure Web_Server where
  upload_status : UploadStatus := .NONE
  uploadFile : Option UploadFile := none
  upload_error : UploadError := {}
  files : Bytes → Option Bytes

/-- What a call of `fileUpload` meets: whether the client may upload, and what the
filesystem does. An error comes with its message. -/
structure Call where
  allowed : Bool := true
  /-- constructing the path, at the start and after the file is closed -/
  fpath : Option Bytes := none
  space : Except Bytes Nat := .ok 0
  existing_size : Option Nat := none
  creates : Bool := true
  /-- how much a write takes at most -/
  writes : Nat := 0
  /-- how many of the bytes taken do not reach the file when it is closed -/
  loses : Nat := 0
  file_size : Bool := true
  removes : Bool := true

/-- `HTTPUpload`, with the size that the request declares for the file, or 0. -/
inductive HTTPUpload where
  | START (filename : Bytes) (filesize : Nat)
  | WRITE (buf : Bytes)
  | END (filesize : Nat)
  | ABORTED
  deriving DecidableEq

namespace Web_Server

/-- The upload has failed, and `recordUploadError`. -/
def fail (code : Nat) (msg : Bytes) (u : Web_Server) : Web_Server :=
  { u with upload_status := .FAILED, upload_error := ⟨code, msg⟩ }

/-- Deleting `_uploadFile` closes it. What its buffer still had may be lost, which
nobody learns of. -/
def close (c : Call) (f : UploadFile) (u : Web_Server) : Web_Server :=
  { u with
    uploadFile := none
    files := Function.update u.files f.path (some (f.taken.take (f.taken.length - c.loses))) }

/-- The checks of `uploadStart` before it creates the file, with the error of the
one that fails. Replacing a file that exists may make enough space. -/
def rejection (c : Call) (filesize : Nat) : Option UploadError :=
  match c.fpath, c.space with
  | some ec, _ => some ⟨ESP_ERROR_FILE_CREATION, bytes "filesystem inaccessible: " ++ ec⟩
  | none, .error ec => some ⟨ESP_ERROR_FILE_CREATION, bytes "filesystem inaccessible: " ++ ec⟩
  | none, .ok available =>
    if filesize ≠ 0 ∧ filesize > available ∧ ∀ existing ∈ c.existing_size, filesize > available + existing then
      some ⟨ESP_ERROR_NOT_ENOUGH_SPACE, bytes "not enough space"⟩
    else none

def uploadStart (c : Call) (filename : Bytes) (filesize : Nat) (u : Web_Server) : Web_Server :=
  match rejection c filesize with
  | some error => u.fail error.code error.msg
  | none =>
    if u.upload_status ≠ .FAILED then
      if c.creates then
        { u with
          uploadFile := some { path := filename }
          upload_status := .ONGOING
          files := Function.update u.files filename (some []) }
      else
        { u.fail ESP_ERROR_FILE_CREATION
            (bytes "cannot create " ++ filename ++ bytes " (missing directory, bad name, or filesystem full)") with
          uploadFile := none }
    else u

def uploadWrite (c : Call) (buf : Bytes) (u : Web_Server) : Web_Server :=
  match u.uploadFile, u.upload_status with
  | some f, .ONGOING =>
    let u := { u with uploadFile := some { f with taken := f.taken ++ buf.take c.writes } }
    if buf.length ≠ (buf.take c.writes).length then
      u.fail ESP_ERROR_FILE_WRITE (bytes "file write failed (filesystem full or failing?)")
    else u
  | _, _ => u.fail ESP_ERROR_FILE_WRITE (bytes "file not open")

/-- The size check of `uploadEnd`. A file whose size is not known counts as empty. -/
def checkSize (c : Call) (f : UploadFile) (filesize : Nat) (u : Web_Server) : Web_Server :=
  let actual_size := if c.file_size then ((u.files f.path).elim 0 List.length) else 0
  if filesize ≠ 0 ∧ filesize ≠ actual_size then
    u.fail ESP_ERROR_UPLOAD
      (bytes "size mismatch - expected " ++ digits filesize ++ bytes " got " ++ digits actual_size)
  else u

/-- The end of `uploadEnd`. -/
def endStatus (u : Web_Server) : Web_Server :=
  { u with upload_status := if u.upload_status = .ONGOING then .SUCCESSFUL else .FAILED }

def uploadEnd (c : Call) (filesize : Nat) (u : Web_Server) : Web_Server :=
  match u.uploadFile with
  | some f =>
    let u := u.close c f
    match c.fpath with
    | some ec => u.fail ESP_ERROR_FILE_CLOSE (bytes "filesystem inaccessible at close: " ++ ec)
    | none => (u.checkSize c f filesize).endStatus
  | none => (u.fail ESP_ERROR_FILE_CLOSE (bytes "file not open at close")).endStatus

def uploadStop (c : Call) (u : Web_Server) : Web_Server :=
  let u := u.fail ESP_ERROR_UPLOAD_CANCELLED (bytes "upload cancelled")
  match u.uploadFile with
  | some f => u.close c f
  | none => u

def uploadCheck (c : Call) (u : Web_Server) : Web_Server :=
  match u.upload_status, u.uploadFile with
  | .FAILED, some f =>
    let u := u.close c f
    { u with files := if c.removes then Function.update u.files f.path none else u.files }
  | _, _ => u

def fileUpload (u : Web_Server) : HTTPUpload × Call → Web_Server
  | (upload, c) =>
    if ¬ c.allowed then (u.fail ESP_ERROR_AUTHENTICATION (bytes "authentication failed")).uploadCheck c
    else
      match upload with
      | .START filename filesize => (u.uploadStart c filename filesize).uploadCheck c
      | .WRITE buf => (if u.upload_status ≠ .FAILED then u.uploadWrite c buf else u).uploadCheck c
      | .END filesize => (if u.upload_status ≠ .FAILED then u.uploadEnd c filesize else u).uploadCheck c
      | .ABORTED => if u.upload_status ≠ .FAILED then u.uploadStop c else u.uploadCheck c

/-- The status and the error that the response of `handleFileOps` begins with. -/
structure Response where
  sstatus : Bytes
  serror : Bytes := []
  ecode : Nat := 0
  deriving DecidableEq

/-- What `handleFileOps`, the final handler of an upload request, makes of the
upload before it turns to the request itself. -/
def handleFileOps (allowed : Bool) (u : Web_Server) : Response × Web_Server :=
  if ¬ allowed then (⟨bytes "Authentication failed", [], 0⟩, { u with upload_status := .NONE })
  else
    let u' := { u with upload_status := .NONE, upload_error := {} }
    if u.upload_status = .FAILED then
      (⟨bytes "Upload failed", if u.upload_error.msg = [] then bytes "upload failed" else u.upload_error.msg,
        u.upload_error.code⟩, u')
    else (⟨bytes "Ok", [], 0⟩, u')

end Web_Server

/-- One upload session: the start, the writes, and the end with the size declared
then, or the abort. The final handler runs after an end. -/
structure Session where
  filename : Bytes
  filesize : Nat := 0
  start : Call := {}
  writes : List (Bytes × Call) := []
  last : Option Nat := some 0
  finish : Call := {}
  handler_allowed : Bool := true

namespace Session

def events (s : Session) : List (HTTPUpload × Call) :=
  (.START s.filename s.filesize, s.start) :: s.writes.map (fun w => (.WRITE w.1, w.2)) ++
    [(match s.last with | some filesize => .END filesize | none => .ABORTED, s.finish)]

/-- The chunks one after the other. -/
def content (s : Session) : Bytes := (s.writes.map Prod.fst).flatten

end Session

namespace Web_Server

/-- The events of a session. -/
def perform (u : Web_Server) (s : Session) : Web_Server := Transition.run fileUpload u s.events

/-- A session with its final handler. -/
def serve (u : Web_Server) (s : Session) : Web_Server :=
  if s.last.isSome then ((u.perform s).handleFileOps s.handler_allowed).2 else u.perform s

/-- The server between two sessions that has not seen one before. -/
def fresh (files : Bytes → Option Bytes) : Web_Server := { files }

/-- The status, the error of an upload that has failed, and the files. -/
def outcome (u : Web_Server) : UploadStatus × Option UploadError × (Bytes → Option Bytes) :=
  (u.upload_status, if u.upload_status = .FAILED then some u.upload_error else none, u.files)

end Web_Server

namespace Session

/-- The file is the upload: all chunks, and no fewer bytes than were declared. -/
def Complete (s : Session) (file : Option Bytes) : Prop :=
  file = some s.content ∧ ∃ filesize, s.last = some filesize ∧ filesize ≤ s.content.length

/-- The session is independent of those before it and exact. -/
structure Exact (s : Session) (u : Web_Server) : Prop where
  independent : (u.perform s).outcome = ((Web_Server.fresh u.files).perform s).outcome
  successful : (u.perform s).upload_status = .SUCCESSFUL →
    (u.perform s).files s.filename = some s.content ∧
      ∃ filesize, s.last = some filesize ∧ (filesize ≠ 0 → s.content.length = filesize)
  failed : (u.perform s).upload_status = .FAILED →
    (u.perform s).files s.filename = none ∨ (u.perform s).files s.filename = u.files s.filename ∨
      s.Complete ((u.perform s).files s.filename)

/-- The start fails before it comes to the status of the server. -/
def refused (s : Session) : Bool := ¬ s.start.allowed ∨ (Web_Server.rejection s.start s.filesize).isSome

/-- A write is taken whole. -/
def whole (w : Bytes × Call) : Bool := w.2.allowed ∧ w.1.length ≤ w.2.writes

/-- A file that has been created is removed when a write or the end is refused;
else the session ends with all of it stored and no more declared. It is not aborted. -/
def closes (s : Session) : Bool :=
  match s.writes.find? (fun w => ¬ whole w) with
  | some w => w.2.removes
  | none =>
    if ¬ s.finish.allowed then s.finish.removes
    else
      match s.last with
      | some filesize => min s.finish.loses s.content.length = 0 ∧ filesize ≤ s.content.length
      | none => false

/-- No earlier failure stands when the session creates its file, and the file that
it creates is closed well. -/
def Sound (s : Session) (u : Web_Server) : Prop :=
  (u.upload_status ≠ .FAILED ∨ s.refused = true) ∧
    (s.refused = false ∧ s.start.creates = true → s.closes = true)

instance (s : Session) (u : Web_Server) : Decidable (s.Sound u) := inferInstanceAs (Decidable (_ ∧ _))

end Session

namespace Web_Server

/-- Between two sessions. -/
structure Idle (u : Web_Server) : Prop where
  uploadFile : u.uploadFile = none
  status : u.upload_status = .NONE ∨ u.upload_status = .FAILED

/-- The session has failed with nothing open, and left `file` under its name. -/
structure Failed (filename : Bytes) (file : Option Bytes) (u : Web_Server) : Prop where
  status : u.upload_status = .FAILED
  uploadFile : u.uploadFile = none
  left : u.files filename = file

/-- The session has an open file, which has taken `done`. -/
structure Writing (filename done : Bytes) (u : Web_Server) : Prop where
  status : u.upload_status = .ONGOING
  uploadFile : u.uploadFile = some ⟨filename, done⟩

variable {u : Web_Server} {c : Call} {filename done : Bytes} {file : Option Bytes}

theorem uploadCheck_of_none (h : u.uploadFile = none) : u.uploadCheck c = u := by
  unfold uploadCheck
  rw [h]
  cases u.upload_status <;> rfl

theorem uploadCheck_of_status (h : u.upload_status ≠ .FAILED) : u.uploadCheck c = u := by
  unfold uploadCheck
  cases hstatus : u.upload_status with
  | FAILED => exact absurd hstatus h
  | NONE => rfl
  | CANCELLED => rfl
  | SUCCESSFUL => rfl
  | ONGOING => rfl

/-- A failure with the file open ends with the file removed, if it can be. -/
theorem uploadCheck_removes (hstatus : u.upload_status = .FAILED) (hfile : u.uploadFile = some ⟨filename, done⟩)
    (hremoves : c.removes = true) : Failed filename none (u.uploadCheck c) := by
  unfold uploadCheck
  rw [hstatus, hfile]
  refine ⟨hstatus, rfl, ?_⟩
  simp [hremoves]

theorem fileUpload_rejected (upload : HTTPUpload) (h : c.allowed = false) : u.fileUpload (upload, c) =
    (u.fail ESP_ERROR_AUTHENTICATION (bytes "authentication failed")).uploadCheck c :=
  if_pos (by simp [h])

theorem fileUpload_write (buf : Bytes) (h : c.allowed = true) (hstatus : u.upload_status ≠ .FAILED) :
    u.fileUpload (.WRITE buf, c) = (u.uploadWrite c buf).uploadCheck c := by
  simp only [fileUpload, h, not_true_eq_false, if_false, hstatus, ne_eq, not_false_eq_true, if_true]

theorem fileUpload_end (filesize : Nat) (h : c.allowed = true) (hstatus : u.upload_status ≠ .FAILED) :
    u.fileUpload (.END filesize, c) = (u.uploadEnd c filesize).uploadCheck c := by
  simp only [fileUpload, h, not_true_eq_false, if_false, hstatus, ne_eq, not_false_eq_true, if_true]

theorem fileUpload_aborted (h : c.allowed = true) (hstatus : u.upload_status ≠ .FAILED) :
    u.fileUpload (.ABORTED, c) = u.uploadStop c := by
  simp only [fileUpload, h, not_true_eq_false, if_false, hstatus, ne_eq, not_false_eq_true, if_true]

/-- Only a start is looked at once the upload has failed. -/
theorem fileUpload_failed {upload : HTTPUpload} (h : c.allowed = true) (hstatus : u.upload_status = .FAILED)
    (hstart : ∀ name size, upload ≠ .START name size) : u.fileUpload (upload, c) = u.uploadCheck c := by
  cases upload with
  | START name size => exact absurd rfl (hstart name size)
  | WRITE buf => simp only [fileUpload, h, not_true_eq_false, if_false, hstatus, ne_eq]
  | END filesize => simp only [fileUpload, h, not_true_eq_false, if_false, hstatus, ne_eq]
  | ABORTED => simp only [fileUpload, h, not_true_eq_false, if_false, hstatus, ne_eq]

/-- Nothing happens any more in a session that has failed. -/
theorem Failed.step {upload : HTTPUpload} (h : u.Failed filename file)
    (hstart : ∀ name size, upload ≠ .START name size) : (u.fileUpload (upload, c)).Failed filename file := by
  obtain ⟨hstatus, hfile, hleft⟩ := h
  by_cases hallowed : c.allowed = true
  · rw [fileUpload_failed hallowed hstatus hstart, uploadCheck_of_none hfile]
    exact ⟨hstatus, hfile, hleft⟩
  · rw [fileUpload_rejected upload (eq_false_of_ne_true hallowed), uploadCheck_of_none (by exact hfile)]
    exact ⟨rfl, hfile, hleft⟩

theorem Failed.run (h : u.Failed filename file) (writes : List (Bytes × Call)) :
    (Transition.run Web_Server.fileUpload u (writes.map fun w => (.WRITE w.1, w.2))).Failed filename file := by
  induction writes generalizing u with
  | nil => exact h
  | cons w writes ih => exact ih (h.step fun name size => by simp)

/-- A write that is taken whole goes on with the file. -/
theorem Writing.write {buf : Bytes} (h : u.Writing filename done) (hwhole : Session.whole (buf, c) = true) :
    (u.fileUpload (.WRITE buf, c)).Writing filename (done ++ buf) := by
  obtain ⟨hstatus, hfile⟩ := h
  obtain ⟨hallowed, hlen⟩ := of_decide_eq_true hwhole
  have htaken : buf.take c.writes = buf := List.take_of_length_le hlen
  have hwrites : u.uploadWrite c buf = { u with uploadFile := some ⟨filename, done ++ buf⟩ } := by
    unfold uploadWrite
    rw [hfile, hstatus]
    simp only [htaken, ne_eq, not_true_eq_false, if_false]
  rw [fileUpload_write buf hallowed (by simp [hstatus]), hwrites, uploadCheck_of_status (by simp [hstatus])]
  exact ⟨hstatus, rfl⟩

/-- Any other removes it. -/
theorem Writing.refused {buf : Bytes} (h : u.Writing filename done) (hwhole : ¬ Session.whole (buf, c) = true)
    (hremoves : c.removes = true) : (u.fileUpload (.WRITE buf, c)).Failed filename none := by
  obtain ⟨hstatus, hfile⟩ := h
  by_cases hallowed : c.allowed = true
  · have hshort : buf.length ≠ (buf.take c.writes).length := by
      intro hlen
      rw [List.length_take] at hlen
      have hle : buf.length ≤ c.writes := by omega
      exact hwhole (decide_eq_true ⟨hallowed, hle⟩)
    have hwrites : u.uploadWrite c buf =
        Web_Server.fail ESP_ERROR_FILE_WRITE (bytes "file write failed (filesystem full or failing?)")
          { u with uploadFile := some ⟨filename, done ++ buf.take c.writes⟩ } := by
      unfold uploadWrite
      rw [hfile, hstatus]
      exact if_pos hshort
    rw [fileUpload_write buf hallowed (by simp [hstatus]), hwrites]
    exact uploadCheck_removes rfl rfl hremoves
  · rw [fileUpload_rejected _ (eq_false_of_ne_true hallowed)]
    exact uploadCheck_removes rfl hfile hremoves

/-- The size check fails the upload, or the size is the declared one. -/
theorem checkSize_cases {f : UploadFile} {stored : Bytes} (filesize : Nat) (hstored : u.files f.path = some stored) :
    (∃ msg, u.checkSize c f filesize = u.fail ESP_ERROR_UPLOAD msg) ∨
      u.checkSize c f filesize = u ∧ (filesize ≠ 0 → stored.length = filesize) := by
  unfold checkSize
  rw [hstored]
  dsimp only [Option.elim_some]
  generalize hsize : (if c.file_size = true then stored.length else 0) = actual_size
  by_cases hdiffers : filesize ≠ 0 ∧ filesize ≠ actual_size
  · exact .inl ⟨_, if_pos hdiffers⟩
  · refine .inr ⟨if_neg hdiffers, fun hdeclared => ?_⟩
    have hactual := not_not.mp (not_and.mp hdiffers hdeclared)
    rw [hactual, ← hsize] at hdeclared ⊢
    split_ifs at hdeclared ⊢
    · rfl
    · exact absurd rfl hdeclared

/-- How a session ends: nothing is open, and it has failed or it is successful. -/
structure Ended (s : Session) (before : Option Bytes) (u : Web_Server) : Prop where
  uploadFile : u.uploadFile = none
  status : u.upload_status = .FAILED ∧
      (u.files s.filename = none ∨ u.files s.filename = before ∨ s.Complete (u.files s.filename)) ∨
    u.upload_status = .SUCCESSFUL ∧ u.files s.filename = some s.content ∧
      ∃ filesize, s.last = some filesize ∧ (filesize ≠ 0 → s.content.length = filesize)

/-- The end of a session that has written all of its chunks. -/
theorem Writing.ends {s : Session} {filesize : Nat} (before : Option Bytes) (h : u.Writing s.filename s.content)
    (hlast : s.last = some filesize) (hallowed : s.finish.allowed = true)
    (hkept : min s.finish.loses s.content.length = 0) (hsize : filesize ≤ s.content.length) :
    (u.fileUpload (.END filesize, s.finish)).Ended s before := by
  obtain ⟨hstatus, hfile⟩ := h
  have htaken : s.content.take (s.content.length - s.finish.loses) = s.content := by
    apply List.take_of_length_le
    omega
  have hcloses : u.close s.finish ⟨s.filename, s.content⟩ =
      { u with uploadFile := none, files := Function.update u.files s.filename (some s.content) } := by
    unfold close
    rw [htaken]
  have hcomplete : s.Complete (some s.content) := ⟨rfl, filesize, hlast, hsize⟩
  rw [fileUpload_end filesize hallowed (by simp [hstatus])]
  unfold uploadEnd
  rw [hfile]
  dsimp only
  rw [hcloses]
  cases hpath : s.finish.fpath with
  | some ec =>
    rw [uploadCheck_of_none rfl]
    exact ⟨rfl, .inl ⟨rfl, .inr (.inr (by simpa [Web_Server.fail] using hcomplete))⟩⟩
  | none =>
    dsimp only
    obtain ⟨msg, hfails⟩ | ⟨hagrees, hsize⟩ :=
      @checkSize_cases { u with uploadFile := none, files := Function.update u.files s.filename (some s.content) }
        s.finish ⟨s.filename, s.content⟩ s.content filesize (Function.update_self _ _ _)
    · rw [hfails, uploadCheck_of_none rfl]
      exact ⟨rfl, .inl ⟨rfl, .inr (.inr (by simpa [endStatus, Web_Server.fail] using hcomplete))⟩⟩
    · rw [hagrees, uploadCheck_of_none rfl]
      exact ⟨rfl, .inr ⟨if_pos hstatus, Function.update_self _ _ _, filesize, hlast, hsize⟩⟩

/-- The writes of a session go on with the file or, at the first that is not taken
whole, remove it. -/
theorem Writing.writes {writes : List (Bytes × Call)} (h : u.Writing filename done) :
    (writes.find? (fun w => ¬ Session.whole w) = none ∧
      (Transition.run Web_Server.fileUpload u (writes.map fun w => (.WRITE w.1, w.2))).Writing filename
        (done ++ (writes.map Prod.fst).flatten)) ∨
    ∃ w, writes.find? (fun w => ¬ Session.whole w) = some w ∧ (w.2.removes = true →
      (Transition.run Web_Server.fileUpload u (writes.map fun w => (.WRITE w.1, w.2))).Failed filename none) := by
  induction writes generalizing u done with
  | nil => exact .inl ⟨rfl, by simpa using h⟩
  | cons w writes ih =>
    obtain ⟨buf, c⟩ := w
    by_cases hwhole : Session.whole (buf, c) = true
    · obtain ⟨hfind, hwriting⟩ | ⟨w, hfind, hfailed⟩ := ih (h.write hwhole)
      · left
        refine ⟨?_, ?_⟩
        · rw [List.find?_cons_of_neg (by simp [hwhole]), hfind]
        · simpa using hwriting
      · right
        refine ⟨w, ?_, hfailed⟩
        rw [List.find?_cons_of_neg (by simp [hwhole]), hfind]
    · right
      refine ⟨(buf, c), List.find?_cons_of_pos (by simpa using hwhole), fun hremoves => ?_⟩
      exact Failed.run (h.refused hwhole hremoves) writes

/-- Two servers in a session differ at most in an error that was left before it. -/
def Alike (u v : Web_Server) : Prop :=
  u = v ∨ u.upload_status = .ONGOING ∧ ∃ error, v = { u with upload_error := error }

theorem Alike.write {v : Web_Server} {buf : Bytes} (h : u.Alike v) :
    (u.fileUpload (.WRITE buf, c)).Alike (v.fileUpload (.WRITE buf, c)) := by
  obtain rfl | ⟨hstatus, error, rfl⟩ := h
  · exact .inl rfl
  obtain ⟨status, file, stale, files⟩ := u
  subst hstatus
  by_cases hallowed : c.allowed = true
  · rw [fileUpload_write buf hallowed (by simp), fileUpload_write buf hallowed (by simp)]
    cases file with
    | none => exact .inl rfl
    | some f =>
      simp only [uploadWrite]
      by_cases hshort : buf.length ≠ (buf.take c.writes).length
      · rw [if_pos hshort, if_pos hshort]
        exact .inl rfl
      · rw [if_neg hshort, if_neg hshort]
        exact .inr ⟨rfl, error, rfl⟩
  · rw [fileUpload_rejected _ (eq_false_of_ne_true hallowed), fileUpload_rejected _ (eq_false_of_ne_true hallowed)]
    exact .inl rfl

theorem Alike.writes {v : Web_Server} {writes : List (Bytes × Call)} (h : u.Alike v) :
    (Transition.run fileUpload u (writes.map fun w => (.WRITE w.1, w.2))).Alike
      (Transition.run fileUpload v (writes.map fun w => (.WRITE w.1, w.2))) := by
  induction writes generalizing u v with
  | nil => exact h
  | cons w writes ih => exact ih h.write

/-- The end of a session says nothing of errors before it. -/
theorem Alike.last {v : Web_Server} {upload : HTTPUpload} (h : u.Alike v)
    (hlast : upload = .ABORTED ∨ ∃ filesize, upload = .END filesize) :
    (u.fileUpload (upload, c)).outcome = (v.fileUpload (upload, c)).outcome := by
  obtain rfl | ⟨hstatus, error, rfl⟩ := h
  · rfl
  obtain ⟨status, file, stale, files⟩ := u
  subst hstatus
  by_cases hallowed : c.allowed = true
  · obtain rfl | ⟨filesize, rfl⟩ := hlast
    · rw [fileUpload_aborted hallowed (by simp), fileUpload_aborted hallowed (by simp)]
      rfl
    · rw [fileUpload_end filesize hallowed (by simp), fileUpload_end filesize hallowed (by simp)]
      cases file with
      | none => rfl
      | some f =>
        simp only [uploadEnd]
        cases hpath : c.fpath with
        | some ec => rfl
        | none =>
          dsimp only
          unfold checkSize
          dsimp only [close]
          generalize (if c.file_size = true then _ else 0) = actual_size
          by_cases hdiffers : filesize ≠ 0 ∧ filesize ≠ actual_size
          · rw [if_pos hdiffers, if_pos hdiffers]
            rfl
          · rw [if_neg hdiffers, if_neg hdiffers]
            rfl
  · rw [fileUpload_rejected _ (eq_false_of_ne_true hallowed), fileUpload_rejected _ (eq_false_of_ne_true hallowed)]
    rfl

/-- A session that is not spoilt by an earlier one starts as on a fresh server:
it fails, or it has its file open. -/
theorem Idle.start {s : Session} (h : u.Idle) (hfree : u.upload_status ≠ .FAILED ∨ s.refused = true) :
    (u.fileUpload (.START s.filename s.filesize, s.start) =
        (fresh u.files).fileUpload (.START s.filename s.filesize, s.start) ∧
      (u.fileUpload (.START s.filename s.filesize, s.start)).Failed s.filename (u.files s.filename)) ∨
    s.refused = false ∧ s.start.creates = true ∧
      (u.fileUpload (.START s.filename s.filesize, s.start)).Alike
        ((fresh u.files).fileUpload (.START s.filename s.filesize, s.start)) ∧
      (u.fileUpload (.START s.filename s.filesize, s.start)).Writing s.filename [] := by
  obtain ⟨status, file, stale, files⟩ := u
  obtain ⟨hfile, hstatus⟩ := h
  dsimp only at hfile hstatus hfree
  subst hfile
  by_cases hallowed : s.start.allowed = true
  · simp only [fileUpload, hallowed, not_true_eq_false, if_false, fresh]
    cases hrejects : rejection s.start s.filesize with
    | some error =>
      simp only [uploadStart, hrejects]
      exact .inl ⟨rfl, rfl, rfl, rfl⟩
    | none =>
      have haccepted : s.refused = false := by simp [Session.refused, hallowed, hrejects]
      have hnone : status = .NONE :=
        hstatus.resolve_right (hfree.resolve_right (by simp [haccepted]))
      subst hnone
      cases hcreates : s.start.creates with
      | false =>
        simp only [uploadStart, hrejects, hcreates]
        exact .inl ⟨rfl, rfl, rfl, rfl⟩
      | true =>
        simp only [uploadStart, hrejects, hcreates]
        exact .inr ⟨haccepted, trivial, .inr ⟨rfl, _, rfl⟩, rfl, rfl⟩
  · rw [fileUpload_rejected _ (eq_false_of_ne_true hallowed), fileUpload_rejected _ (eq_false_of_ne_true hallowed)]
    exact .inl ⟨rfl, rfl, rfl, rfl⟩

theorem Failed.ended {s : Session} {before : Option Bytes} (h : u.Failed s.filename file)
    (hleft : file = none ∨ file = before) : u.Ended s before := by
  obtain ⟨hstatus, hfile, hfiles⟩ := h
  refine ⟨hfile, .inl ⟨hstatus, ?_⟩⟩
  rw [hfiles]
  exact hleft.imp_right .inl

/-- What a session comes to where its condition holds. -/
theorem Idle.perform {s : Session} (h : u.Idle) (hsound : s.Sound u) :
    (u.perform s).outcome = ((fresh u.files).perform s).outcome ∧
      (u.perform s).Ended s (u.files s.filename) := by
  obtain ⟨hfree, hcloses⟩ := hsound
  let last : HTTPUpload := match s.last with | some filesize => .END filesize | none => .ABORTED
  have hlast : last = .ABORTED ∨ ∃ filesize, last = .END filesize := by
    simp only [last]
    cases s.last with
    | none => exact .inl rfl
    | some filesize => exact .inr ⟨filesize, rfl⟩
  have hrun (v : Web_Server) : v.perform s =
      (Transition.run fileUpload (v.fileUpload (.START s.filename s.filesize, s.start))
        (s.writes.map fun w => (.WRITE w.1, w.2))).fileUpload (last, s.finish) := by
    unfold Web_Server.perform Session.events
    rw [List.cons_append, Transition.run_cons, Transition.run_append]
    rfl
  have hstart : ∀ name size, last ≠ .START name size := by
    intro name size heq
    rw [heq] at hlast
    obtain hlast | ⟨filesize, hlast⟩ := hlast <;> cases hlast
  rw [hrun, hrun]
  obtain ⟨hsame, hfailed⟩ | ⟨haccepted, hcreates, halike, hwriting⟩ := h.start hfree
  · rw [hsame] at hfailed ⊢
    exact ⟨rfl, ((hfailed.run s.writes).step hstart).ended (.inr rfl)⟩
  · refine ⟨halike.writes.last hlast, ?_⟩
    have hends := hcloses ⟨haccepted, hcreates⟩
    unfold Session.closes at hends
    obtain ⟨hfind, hwrites⟩ | ⟨w, hfind, hremoved⟩ := @Writing.writes _ _ _ s.writes hwriting
    · rw [hfind] at hends
      rw [List.nil_append] at hwrites
      by_cases hallowed : s.finish.allowed = true
      · rw [if_neg (not_not_intro hallowed)] at hends
        cases hlast : s.last with
        | none =>
          rw [hlast] at hends
          cases hends
        | some filesize =>
          rw [hlast] at hends
          obtain ⟨hkept, hsize⟩ := of_decide_eq_true hends
          simp only [last, hlast]
          exact hwrites.ends _ hlast hallowed hkept hsize
      · rw [if_pos hallowed] at hends
        rw [fileUpload_rejected _ (eq_false_of_ne_true hallowed)]
        exact Failed.ended (uploadCheck_removes rfl hwrites.uploadFile hends) (.inl rfl)
    · rw [hfind] at hends
      exact ((hremoved hends).step hstart).ended (.inl rfl)

/-- Between sessions no file is open. -/
theorem Idle.serve {s : Session} (h : u.Idle) (hsound : s.Sound u) : (u.serve s).Idle := by
  obtain ⟨hfile, hstatus⟩ := (h.perform hsound).2
  unfold Web_Server.serve
  by_cases hended : s.last.isSome = true
  · rw [if_pos hended]
    unfold handleFileOps
    split
    · exact ⟨hfile, .inl rfl⟩
    · dsimp only
      split
      · exact ⟨hfile, .inl rfl⟩
      · exact ⟨hfile, .inl rfl⟩
  · rw [if_neg hended]
    refine ⟨hfile, .inr ?_⟩
    obtain ⟨hfailed, -⟩ | ⟨-, -, filesize, hlast, -⟩ := hstatus
    · exact hfailed
    · simp [hlast] at hended

theorem Idle.exact {s : Session} (h : u.Idle) (hsound : s.Sound u) : s.Exact u := by
  obtain ⟨hindependent, -, hstatus⟩ := h.perform hsound
  refine ⟨hindependent, fun hsuccessful => ?_, fun hfailed => ?_⟩
  · obtain ⟨hfailed, -⟩ | ⟨-, hstored⟩ := hstatus
    · simp [hsuccessful] at hfailed
    · exact hstored
  · obtain ⟨-, hleft⟩ | ⟨hsuccessful, -⟩ := hstatus
    · exact hleft
    · simp [hfailed] at hsuccessful

/-- Sessions are independent and exact as long as none creates its file while an
earlier failure still stands, and each closes the file that it creates well. -/
theorem sessions_are_exact (files : Bytes → Option Bytes) (sessions : List Session)
    (hsound : Transition.Throughout serve (fun u s => s.Sound u) (fresh files) sessions) :
    Transition.Throughout serve (fun u s => s.Exact u) (fresh files) sessions := by
  have hfresh : (fresh files).Idle := ⟨rfl, .inl rfl⟩
  exact Transition.throughout_of_invariant (fun u s h hs => Idle.serve h hs) (fun u s h hs => Idle.exact h hs)
    hfresh hsound

/-- A session that succeeds, and one with a short write whose file is removed. -/
theorem sessions_are_exact_on_full_card :
    Transition.Throughout serve (fun u s => s.Exact u) (fresh fun _ => none)
      [{ filename := bytes "a.thr", writes := [([48, 49], { writes := 2 })], last := some 2 },
        { filename := bytes "b.thr", writes := [([48, 49], { writes := 1 })] }] :=
  sessions_are_exact _ _ (by decide)

/-- An aborted upload, and then the same file once more. -/
def retried : List Session :=
  [{ filename := bytes "a.thr", writes := [([48, 49], { writes := 2 })], last := none },
    { filename := bytes "a.thr", writes := [([48, 49], { writes := 2 })] }]

/-- The abort leaves a truncated file, and the session after it is refused. -/
theorem retry_after_abort_fails :
    ¬ Transition.Throughout serve (fun u s => s.Exact u) (fresh fun _ => none) retried := by
  rintro ⟨-, hretry, -⟩
  have hstatus := congrArg Prod.fst hretry.independent
  revert hstatus
  decide

end Web_Server

end DuneWeaver.WebServer
