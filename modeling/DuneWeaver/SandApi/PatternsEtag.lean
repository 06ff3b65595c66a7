import DuneWeaver.Memo.Cache
import DuneWeaver.WebServer.Upload
import Mathlib.Data.List.Infix

open Transition DuneWeaver.WebServer

namespace DuneWeaver.SandApi

/-- The tag of a catalogue: a hash of its content, and its size. -/
structure ETag where
  hash : UInt32
  size : UInt32
  deriving DecidableEq

/-- The digits of `%x`. -/
def hexDigits (n : Nat) : Bytes := (Nat.toDigits 16 n).map fun c => c.toNat.toUInt8

/-- The tag as it is sent: `"%08x-%x"`, with its quotes. -/
def ETag.text (etag : ETag) : Bytes :=
  let hash := hexDigits etag.hash.toNat
  34 :: (List.replicate (8 - hash.length) 48 ++ hash ++ 45 :: hexDigits etag.size.toNat) ++ [34]

/-- FNV-1a. -/
def fnv1a (content : Bytes) : UInt32 := content.foldl (fun hash c => (hash ^^^ c.toUInt32) * 16777619) 2166136261

/-- The size of a file, as a `size_t`. -/
def fileSize (content : Bytes) : UInt32 := content.length.toUInt32

/-- The tag of a content, computed afresh. -/
def etagOf (content : Bytes) : ETag := ⟨fnv1a content, fileSize content⟩

def kPatternManifest : Bytes := bytes "/sd/patterns/index.json"

/-- The server with the statics of the tag. `returned` is what the last step returned; `served` are the catalogues that
went out, each with the tag it was sent with. -/
structure Catalog where
  server : Web_Server
  etag_valid : Bool := false
  etag_size : UInt32 := 0
  etag_hash : UInt32 := 0
  returned : Option ETag := none
  served : List (ETag × Bytes) := []

/-- What a look at the manifest meets: whether it can be opened, whether its size can be had, and how much of it can be
read before a read fails, if one does. A size that cannot be had is zero. -/
structure Look where
  opens : Bool := true
  stat : Bool := true
  short : Option Nat := none

/-- The bytes that the reads get. A read that fails looks like the end of the file. -/
def Look.got (look : Look) (content : Bytes) : Bytes := content.take (look.short.getD content.length)

/-- A request of `handleFileOps`, with what the file system makes of it. -/
inductive FileOp where
  | delete (path : Bytes) (done : Bool)
  /-- of what is below the path the file system removes as much as it can -/
  | deletedir (path : Bytes) (gone : Bytes → Bool)
  | createdir (path : Bytes)
  | rename (path newpath : Bytes) (done : Bool)

namespace Catalog

def manifest (s : Catalog) : Option Bytes := s.server.files kPatternManifest

def invalidatePatternsEtag (s : Catalog) : Catalog := { s with etag_valid := false }

/-- `patternsEtag`. A manifest that is not there has no tag. -/
def patternsEtag (look : Look) (s : Catalog) : Option ETag × Catalog :=
  match s.manifest with
  | none => (none, s)
  | some content =>
    if !look.opens then (none, s)
    else
      let size := if look.stat then fileSize content else 0
      if s.etag_valid && s.etag_size = size then (some ⟨s.etag_hash, size⟩, s)
      else
        let hash := fnv1a (look.got content)
        (some ⟨hash, size⟩, { s with etag_hash := hash, etag_size := size, etag_valid := true })

/-- Whether `uploadEnd` comes to where it drops the tag: the file was open, its path is still accessible behind the
close, and it is below `/patterns/`. -/
def invalidates (server : Web_Server) : HTTPUpload × WebServer.Call → Bool
  | (.END _, c) =>
    c.allowed && server.upload_status ≠ .FAILED && c.fpath.isNone &&
      server.uploadFile.any fun f => bytes "/patterns/" <:+: f.path
  | _ => false

/-- The path of a file below another one, behind that. -/
def below (path file : Bytes) : Option Bytes :=
  if path <+: file ∧ ((file.drop path.length).head? = none ∨ (file.drop path.length).head? = some 47) then
    some (file.drop path.length)
  else none

/-- The files behind a request. A directory is renamed with all that is in it. -/
def applied (files : Bytes → Option Bytes) : FileOp → Bytes → Option Bytes
  | .delete path done, file => if done ∧ file = path then none else files file
  | .deletedir path gone, file => if (below path file).isSome ∧ gone file then none else files file
  | .createdir _, file => files file
  | .rename path newpath done, file =>
    if !done then files file
    else
      match below newpath file with
      | some rest => files (path ++ rest)
      | none => if (below path file).isSome then none else files file

/-- What the web server is asked: an event of an upload, a request to `handleFileOps`, or for the tag. -/
inductive Step where
  | upload (e : HTTPUpload × WebServer.Call)
  | ops (allowed : Bool) (op : Option FileOp)
  | etag (look : Look)

/-- What a client gets that fetches the manifest with its tag. -/
def serve (etag : Option ETag) (s : Catalog) : List (ETag × Bytes) :=
  match etag, s.manifest with
  | some etag, some content => (etag, content) :: s.served
  | _, _ => s.served

def step (s : Catalog) : Step → Catalog
  | .upload e =>
    let s' := { s with server := s.server.fileUpload e, returned := none }
    if invalidates s.server e then s'.invalidatePatternsEtag else s'
  | .ops allowed op =>
    let server := (s.server.handleFileOps allowed).2
    match op with
    | some op =>
      let files := if allowed then applied server.files op else server.files
      { s with server := { server with files }, returned := none }
    | none => { s with server, returned := none }
  | .etag look =>
    let (etag, s') := s.patternsEtag look
    { s' with returned := etag, served := s.serve etag }

def fresh (files : Bytes → Option Bytes) : Catalog := { server := Web_Server.fresh files }

/-- The tag is never stale: the one that was returned and the one that would be are those of the content, and a client
whose tag is still the one that would be returned holds the content. -/
structure Current (s : Catalog) : Prop where
  returned : ∀ etag, s.returned = some etag → ∃ content, s.manifest = some content ∧ etag = etagOf content
  fresh : ∀ content, s.manifest = some content → (s.patternsEtag {}).1 = some (etagOf content)
  unmodified : ∀ e ∈ s.served, ∀ etag, (s.patternsEtag {}).1 = some etag → etag.text = e.1.text → s.manifest = some e.2

/-- The manifest that the step leaves: an event of an upload writes or removes the file that is open, a request of
`handleFileOps` removes or replaces what it names. -/
def left (s : Catalog) : Step → Option Bytes
  | .upload e => (s.server.fileUpload e).files kPatternManifest
  | .ops allowed (some op) => if allowed then applied s.server.files op kPatternManifest else s.manifest
  | .ops _ none => s.manifest
  | .etag _ => s.manifest

/-- Whether the step drops the tag. -/
def drops (s : Catalog) : Step → Bool
  | .upload e => invalidates s.server e
  | _ => false

/-- The size of a manifest that is not empty cannot be had. -/
def Unsized (s : Catalog) : Step → Prop
  | .etag look => look.opens = true ∧ look.stat = false ∧ ∃ content, s.manifest = some content ∧ fileSize content ≠ 0
  | _ => False

/-- Nothing is kept for the size of the manifest, and the bytes that can be read have another hash. -/
def Unread (s : Catalog) : Step → Prop
  | .etag look => look.opens = true ∧ ∃ content, s.manifest = some content ∧
      ¬ (s.etag_valid = true ∧ s.etag_size = fileSize content) ∧ fnv1a (look.got content) ≠ fnv1a content
  | _ => False

/-- What is kept, with the size that it is kept for. -/
def cached (s : Catalog) : Option (UInt32 × UInt32) :=
  if s.etag_valid then some (s.etag_size, s.etag_hash) else none

section Tag

variable {s : Catalog} {content : Bytes}

/-- The tag is looked up by the size. -/
theorem patternsEtag_eq (look : Look) (hmanifest : s.manifest = some content) (hopens : look.opens = true)
    {size : UInt32} (hsize : (if look.stat then fileSize content else 0) = size) :
    (s.patternsEtag look).1 =
        some ⟨(Memo.lookup (fun content => fnv1a (look.got content)) size content s.cached).1, size⟩ ∧
      (s.patternsEtag look).2.cached =
        (Memo.lookup (fun content => fnv1a (look.got content)) size content s.cached).2 ∧
      (s.patternsEtag look).2.server = s.server := by
  have hopen : ¬ (!look.opens) = true := by
    rw [hopens]
    exact Bool.false_ne_true
  rw [patternsEtag, hmanifest]
  dsimp only
  rw [if_neg hopen, hsize, cached]
  by_cases hvalid : s.etag_valid = true
  · rw [hvalid, if_pos rfl, Bool.true_and, Memo.lookup]
    by_cases hsame : s.etag_size = size
    · rw [if_pos (decide_eq_true hsame), if_pos hsame]
      exact ⟨rfl, by rw [cached, hvalid]; rfl, rfl⟩
    · rw [if_neg (by simpa using hsame), if_neg hsame]
      exact ⟨rfl, rfl, rfl⟩
  · rw [Bool.eq_false_iff.mpr hvalid, if_neg Bool.false_ne_true, Bool.false_and, if_neg Bool.false_ne_true]
    exact ⟨rfl, rfl, rfl⟩

/-- A look at which no read fails gets all of the file. -/
theorem got_whole (content : Bytes) : ({} : Look).got content = content := List.take_length

theorem patternsEtag_none {look : Look} (h : s.manifest = none ∨ look.opens = false) :
    s.patternsEtag look = (none, s) := by
  rw [patternsEtag]
  cases hmanifest : s.manifest with
  | none => rfl
  | some content =>
    have hopens : look.opens = false := h.resolve_left fun hnone => by rw [hmanifest] at hnone; cases hnone
    dsimp only
    rw [hopens]
    rfl

/-- The tag that would be returned is the content's if what is kept for its size is its hash. -/
theorem etag_fresh_iff (hmanifest : s.manifest = some content) :
    (s.patternsEtag {}).1 = some (etagOf content) ↔ Memo.Fresh fnv1a (fileSize content) content s.cached := by
  have hetag := (patternsEtag_eq {} hmanifest rfl rfl).1
  simp only [got_whole] at hetag
  change (s.patternsEtag {}).1 =
    some ⟨(Memo.lookup fnv1a (fileSize content) content s.cached).1, fileSize content⟩ at hetag
  rw [hetag, Memo.fresh_iff, Option.some.injEq, etagOf, ETag.mk.injEq, and_iff_left rfl]

/-- Something is kept for a size exactly if the tag is valid and of that size. -/
theorem cached_none_iff {size : UInt32} :
    (∀ hash, s.cached ≠ some (size, hash)) ↔ ¬ (s.etag_valid = true ∧ s.etag_size = size) := by
  rw [cached]
  by_cases hvalid : s.etag_valid = true
  · rw [if_pos hvalid]
    constructor
    · rintro h ⟨-, rfl⟩
      exact h s.etag_hash rfl
    · rintro h hash hentry
      exact h ⟨hvalid, (Prod.mk.inj (Option.some.inj hentry)).1⟩
  · rw [if_neg hvalid]
    exact iff_of_true (fun hash hentry => by cases hentry) fun h => hvalid h.1

end Tag

/-- Asking for the tag leaves the server as it is. -/
theorem patternsEtag_server (s : Catalog) (look : Look) : (s.patternsEtag look).2.server = s.server := by
  by_cases habsent : s.manifest = none ∨ look.opens = false
  · rw [patternsEtag_none habsent]
  · obtain ⟨hthere, hopens⟩ := not_or.mp habsent
    obtain ⟨content, hmanifest⟩ := Option.ne_none_iff_exists'.mp hthere
    exact (patternsEtag_eq look hmanifest (by simpa using hopens) rfl).2.2

theorem handleFileOps_files (u : Web_Server) (allowed : Bool) : (u.handleFileOps allowed).2.files = u.files := by
  unfold Web_Server.handleFileOps
  dsimp only
  split_ifs <;> rfl

theorem step_manifest (s : Catalog) (a : Step) : (s.step a).manifest = s.left a := by
  cases a with
  | upload e =>
    rw [step, left]
    cases invalidates s.server e with
    | true => rfl
    | false => rfl
  | ops allowed op =>
    cases op with
    | none => exact congrFun (handleFileOps_files s.server allowed) kPatternManifest
    | some op =>
      cases allowed with
      | true => exact congrArg (fun files => applied files op kPatternManifest) (handleFileOps_files s.server true)
      | false => rfl
  | etag look => exact congrArg (fun server => server.files kPatternManifest) (patternsEtag_server s look)

section Misleading

variable {s s' : Catalog} {content : Bytes}

theorem Current.kept (h : s.Current) (hmanifest : s.manifest = some content) :
    Memo.Fresh fnv1a (fileSize content) content s.cached ∧
      ∀ e ∈ s.served, (etagOf content).text = e.1.text → e.2 = content := by
  have hetag := h.fresh content hmanifest
  refine ⟨(etag_fresh_iff hmanifest).mp hetag, fun e he htext => ?_⟩
  exact (Option.some.inj (hmanifest.symm.trans (h.unmodified e he _ hetag htext))).symm

/-- The tag is current if what is kept and what went out is right about the content. -/
theorem current_of_kept (hmanifest : s.manifest = some content)
    (hreturned : ∀ etag, s.returned = some etag → etag = etagOf content)
    (hfresh : Memo.Fresh fnv1a (fileSize content) content s.cached)
    (hserved : ∀ e ∈ s.served, (etagOf content).text = e.1.text → e.2 = content) : s.Current := by
  have hetag := (etag_fresh_iff hmanifest).mpr hfresh
  refine ⟨fun etag h => ⟨content, hmanifest, hreturned etag h⟩, fun other hother => ?_, fun e he etag h htext => ?_⟩
  · rw [← Option.some.inj (hmanifest.symm.trans hother)]
    exact hetag
  · rw [← Option.some.inj (hetag.symm.trans h)] at htext
    rw [hmanifest, hserved e he htext]

/-- What a request answers and keeps. -/
theorem step_etag (look : Look) (hmanifest : s.manifest = some content) (hopens : look.opens = true) {size : UInt32}
    (hsize : (if look.stat then fileSize content else 0) = size) {entry : UInt32 × Option (UInt32 × UInt32)}
    (hentry : Memo.lookup (fun content => fnv1a (look.got content)) size content s.cached = entry) :
    (s.step (.etag look)).manifest = some content ∧ (s.step (.etag look)).returned = some ⟨entry.1, size⟩ ∧
      (s.step (.etag look)).cached = entry.2 ∧
      (s.step (.etag look)).served = (⟨entry.1, size⟩, content) :: s.served := by
  obtain ⟨hetag, hcached, -⟩ := patternsEtag_eq look hmanifest hopens hsize
  rw [hentry] at hetag hcached
  refine ⟨(step_manifest s _).trans hmanifest, hetag, hcached, ?_⟩
  change s.serve (s.patternsEtag look).1 = _
  rw [hetag]
  unfold serve
  rw [hmanifest]

/-- A request for the size and the hash of the manifest keeps the tag current. -/
theorem Current.asked (hcurrent : s.Current) (look : Look) (hmanifest : s.manifest = some content)
    (hopens : look.opens = true) (hsize : (if look.stat then fileSize content else 0) = fileSize content)
    (hread : ¬ s.Unread (.etag look)) : (s.step (.etag look)).Current := by
  obtain ⟨hkept, hserved⟩ := hcurrent.kept hmanifest
  have hsame : Memo.lookup (fun content => fnv1a (look.got content)) (fileSize content) content s.cached =
      Memo.lookup fnv1a (fileSize content) content s.cached := by
    refine Memo.lookup_congr fun hmissed => ?_
    by_contra hother
    exact hread ⟨hopens, content, hmanifest, cached_none_iff.mp hmissed, hother⟩
  have hhash : (Memo.lookup fnv1a (fileSize content) content s.cached).1 = fnv1a content := Memo.fresh_iff.mp hkept
  obtain ⟨hafter, hreturned, hcached, hserve⟩ := step_etag look hmanifest hopens hsize hsame
  rw [hhash] at hreturned hserve
  refine current_of_kept hafter (fun etag h => (Option.some.inj (hreturned.symm.trans h)).symm) ?_ fun e he htext => ?_
  · rw [hcached]
    exact hkept.lookup
  · rw [hserve] at he
    obtain rfl | he := List.mem_cons.mp he
    · rfl
    · exact hserved e he htext

end Misleading

end Catalog

end DuneWeaver.SandApi
