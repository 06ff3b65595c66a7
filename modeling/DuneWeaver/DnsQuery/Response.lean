import DuneWeaver.Bytes
import DuneWeaver.Dns.Message

namespace DuneWeaver.DnsQuery

def TYPE_A : UInt16 := 1
def TYPE_AAAA : UInt16 := 28

/-- The first question parsed out of a DNS query packet. -/
structure Question where
  valid : Bool := false
  id : UInt16 := 0
  qtype : UInt16 := 0
  name : Bytes := []
  qend : Nat := 0
  rd : UInt8 := 0
  deriving DecidableEq

/-- What to do with one question. -/
inductive Action where
  | AnswerA
  | NoData
  | NxDomain
  deriving DecidableEq

def kProbeHosts : List Bytes :=
  [bytes "captive.apple.com", bytes "www.apple.com", bytes "connectivitycheck.gstatic.com",
    bytes "connectivitycheck.android.com", bytes "clients3.google.com", bytes "www.msftconnecttest.com",
    bytes "dns.msftncsi.com", bytes "www.msftncsi.com", bytes "detectportal.firefox.com"]

def isProbeHost (name : Bytes) : Bool := kProbeHosts.contains name

/-- `rd16`, of the two bytes at `off`. Reading outside of the packet gives nothing,
here and below. -/
def rd16 (buf : Bytes) (off : Nat) : Option UInt16 := do
  let hi ← buf[off]?
  let lo ← buf[off + 1]?
  return Words.word hi lo

/-- The `n` bytes of a label at `off`, in lower case. -/
def readLabel (buf : Bytes) (off n : Nat) : Option Bytes :=
  (List.range n).mapM fun i => (buf[off + i]?).map tolower

/-- A label is put behind the name, after a dot unless it is the first. -/
def appendLabel (name text : Bytes) : Bytes := (if name.isEmpty then name else name ++ [0x2e]) ++ text

/-- The loop over the labels of the name: nothing if the packet is rejected, else
the offset behind the name, and the name. -/
def readName (buf : Bytes) (off : Nat) (name : Bytes) : Option (Option (Nat × Bytes)) :=
  if off ≥ buf.length then some none
  else
    match buf[off]? with
    | none => none
    | some label =>
      if label &&& 0xc0 ≠ 0 then some none
      else if label = 0 then some (some (off + 1, name))
      else if off + 1 + label.toNat > buf.length then some none
      else
        match readLabel buf (off + 1) label.toNat with
        | none => none
        | some text =>
          if (appendLabel name text).length > 255 then some none
          else readName buf (off + 1 + label.toNat) (appendLabel name text)
termination_by buf.length - off

/-- Parse the first question of a standard DNS query. A packet that is rejected
gives a question that is not valid. -/
def parse (buf : Bytes) : Option Question := do
  if buf.length < 12 then return {}
  let flagsHi ← buf[2]?
  if flagsHi &&& 0x80 ≠ 0 ∨ flagsHi &&& 0x78 ≠ 0 then return {}
  let qdcount ← rd16 buf 4
  if qdcount < 1 then return {}
  match ← readName buf 12 [] with
  | none => return {}
  | some (off, name) =>
    if off + 4 > buf.length then return {}
    let qtype ← rd16 buf off
    let id ← rd16 buf 0
    return { valid := true, id, qtype, name, qend := off + 4, rd := flagsHi &&& 0x01 }

/-- Captive-portal policy for one question given the AP role. -/
def decide (q : Question) (fallback : Bool) : Action :=
  let wantsIPv4 := q.qtype = TYPE_A
  if fallback then if wantsIPv4 then .AnswerA else .NoData
  else if isProbeHost q.name then if wantsIPv4 then .AnswerA else .NoData
  else .NxDomain

/-- Build the DNS response for a parsed question and the chosen action. -/
def buildResponse (query : Bytes) (q : Question) (action : Action) (ip0 ip1 ip2 ip3 : UInt8) : Bytes :=
  if ¬ q.valid ∨ q.qend > query.length then []
  else
    let answer := action = .AnswerA
    [(q.id >>> 8).toUInt8, (q.id &&& 0xff).toUInt8, 0x84 ||| (q.rd &&& 0x01),
        if action = .NxDomain then 0x03 else 0x00, 0x00, 0x01, 0x00, if answer then 0x01 else 0x00,
        0x00, 0x00, 0x00, 0x00] ++
      (query.drop 12).take (q.qend - 12) ++
      if answer then
        [0xc0, 0x0c, 0x00, 0x01, 0x00, 0x01, 0x00, 0x00, 0x00, 0x1e, 0x00, 0x04, ip0, ip1, ip2, ip3]
      else []

section Reading

variable {buf : Bytes} {off : Nat}

theorem readLabel_eq (n : Nat) (hn : off + n ≤ buf.length) :
    readLabel buf off n = some (((buf.drop off).take n).map tolower) := by
  induction n with
  | zero => rfl
  | succ n ih =>
    have hlt : off + n < buf.length := by omega
    have hget : (buf.drop off)[n]? = some buf[off + n] := by
      rw [List.getElem?_drop, List.getElem?_eq_getElem hlt]
    unfold readLabel at ih ⊢
    rw [List.range_succ, List.mapM_append, ih (by omega), List.take_add_one, hget]
    simp [List.getElem?_eq_getElem hlt]

theorem rd16_eq (h : off + 1 < buf.length) :
    rd16 buf off = some (Words.word buf[off] buf[off + 1]) := by
  unfold rd16
  rw [List.getElem?_eq_getElem (by omega), List.getElem?_eq_getElem h]
  rfl

/-- The loop reads inside the packet. -/
theorem readName_isSome (off : Nat) (name : Bytes) : (readName buf off name).isSome = true := by
  fun_induction readName buf off name with
  | case1 => rfl
  | case2 off name hlt hnone => simp [List.getElem?_eq_getElem (show off < buf.length by omega)] at hnone
  | case3 => rfl
  | case4 => rfl
  | case5 => rfl
  | case6 off name hlt label hlabel hplain hroot hfits hnone =>
    rw [readLabel_eq _ (by omega)] at hnone
    cases hnone
  | case7 => rfl
  | case8 off name hlt label hlabel hplain hroot hfits text htext hshort ih => exact ih

/-- A length byte without the bits of a compression pointer. -/
theorem length_byte_lt {label : UInt8} (hplain : label &&& 0xc0 = 0) : label.toNat < 64 := by
  have hall : ∀ n < 256, UInt8.ofNat n &&& 0xc0 = 0 → n < 64 := by decide +kernel
  apply hall label.toNat label.toNat_lt
  rwa [UInt8.ofNat_toNat]

theorem length_byte_plain {n : Nat} (hn : n ≤ 63) : UInt8.ofNat n &&& 0xc0 = 0 := by
  have hall : ∀ n < 64, UInt8.ofNat n &&& 0xc0 = 0 := by decide
  exact hall n (by omega)

/-- What the loop accepts is a name, and the offset it returns is the one behind
the name. -/
theorem readName_encodes {name : Bytes} {off' : Nat} {name' : Bytes}
    (h : readName buf off name = some (some (off', name'))) :
    ∃ labels, buf.drop off = Dns.encodeName labels ++ buf.drop off' ∧
      off' = off + (Dns.encodeName labels).length ∧ off' ≤ buf.length := by
  fun_induction readName buf off name with
  | case1 => simp at h
  | case2 => simp at h
  | case3 => simp at h
  | case4 off name hlt hroot hplain =>
    obtain ⟨rfl, rfl⟩ : off + 1 = off' ∧ name = name' := by simpa using h
    obtain ⟨hoff, hget⟩ := List.getElem?_eq_some_iff.mp hroot
    refine ⟨[], ?_, by simp [Dns.encodeName], by omega⟩
    rw [List.drop_eq_getElem_cons hoff, hget]
    rfl
  | case5 => simp at h
  | case6 => simp at h
  | case7 => simp at h
  | case8 off name hlt label hlabel hplain hroot hfits text htext hshort ih =>
    obtain ⟨labels, hdrop, hoff', hle⟩ := ih h
    obtain ⟨hoff, hget⟩ := List.getElem?_eq_some_iff.mp hlabel
    have hlength := length_byte_lt (by simpa using hplain : label &&& 0xc0 = 0)
    have hpos : 0 < label.toNat := by
      by_contra hzero
      apply hroot
      apply UInt8.toNat_inj.mp
      simpa using hzero
    have htaken : ((buf.drop (off + 1)).take label.toNat).length = label.toNat := by
      rw [List.length_take, List.length_drop]
      omega
    refine ⟨⟨(buf.drop (off + 1)).take label.toNat, by omega, by omega⟩ :: labels, ?_, ?_, hle⟩
    · rw [Dns.encodeName_cons, List.append_assoc, ← hdrop, List.drop_eq_getElem_cons hoff, hget]
      simp only [Dns.Label.encode, htaken, UInt8.ofNat_toNat, List.cons_append, List.cons.injEq, true_and]
      rw [← List.drop_drop (i := label.toNat) (j := off + 1), List.take_append_drop]
    · rw [Dns.encodeName_cons, List.length_append, hoff']
      simp only [Dns.Label.encode, List.length_cons, htaken]
      omega

/-- The name after further labels. -/
def joined (name : Bytes) (labels : List Dns.Label) : Bytes :=
  labels.foldl (fun name label => appendLabel name (label.text.map tolower)) name

theorem joined_cons (name : Bytes) (label : Dns.Label) (labels : List Dns.Label) :
    joined name (label :: labels) = joined (appendLabel name (label.text.map tolower)) labels := rfl

theorem joined_length_le (name : Bytes) (labels : List Dns.Label) :
    name.length ≤ (joined name labels).length := by
  induction labels generalizing name with
  | nil => exact le_rfl
  | cons label labels ih =>
    rw [joined_cons]
    refine le_trans ?_ (ih _)
    unfold appendLabel
    split_ifs <;> simp

/-- The loop accepts every name in a packet, unless it grows too long. -/
theorem readName_encodeName (before after : Bytes) (labels : List Dns.Label) (name : Bytes)
    (hshort : (joined name labels).length ≤ 255) :
    readName (before ++ Dns.encodeName labels ++ after) before.length name =
      some (some (before.length + (Dns.encodeName labels).length, joined name labels)) := by
  induction labels generalizing before name with
  | nil =>
    have hget : (before ++ Dns.encodeName [] ++ after)[before.length]? = some 0 := by simp [Dns.encodeName]
    obtain ⟨hlt, -⟩ := List.getElem?_eq_some_iff.mp hget
    rw [readName, if_neg (by omega), hget]
    rfl
  | cons label labels ih =>
    have hbuf : before ++ Dns.encodeName (label :: labels) ++ after =
        before ++ label.encode ++ Dns.encodeName labels ++ after := by simp [Dns.encodeName]
    have hnext := ih (before ++ label.encode) (appendLabel name (label.text.map tolower)) hshort
    rw [← hbuf] at hnext
    generalize hpacket : before ++ Dns.encodeName (label :: labels) ++ after = buf at hbuf hnext ⊢
    have hget : buf[before.length]? = some (UInt8.ofNat label.text.length) := by
      simp [hbuf, Dns.Label.encode]
    obtain ⟨hlt, -⟩ := List.getElem?_eq_some_iff.mp hget
    have hlength := label.length_byte
    have hroot : UInt8.ofNat label.text.length ≠ 0 := by
      intro hzero
      rw [hzero] at hlength
      have hnonempty := label.nonempty
      simp at hlength
      omega
    have hoff : (before ++ label.encode).length = before.length + 1 + label.text.length := by
      simp only [Dns.Label.encode, List.length_append, List.length_cons]
      omega
    have hfits : before.length + 1 + label.text.length ≤ buf.length := by
      rw [hbuf]
      simp only [List.length_append] at hoff ⊢
      omega
    have htext : (buf.drop (before.length + 1)).take label.text.length = label.text := by
      have hdrop : buf.drop (before.length + 1) = label.text ++ (Dns.encodeName labels ++ after) := by
        rw [hbuf, List.append_assoc, List.append_assoc, ← List.drop_drop, List.drop_left]
        rfl
      rw [hdrop, List.take_left]
    have hgrown : (appendLabel name (label.text.map tolower)).length ≤ 255 :=
      le_trans (joined_length_le _ labels) hshort
    rw [readName, if_neg (by omega), hget]
    dsimp only
    rw [if_neg (by simpa using length_byte_plain label.short), if_neg hroot, hlength, if_neg (by omega),
      readLabel_eq _ hfits, htext]
    dsimp only
    rw [if_neg (by omega), ← hoff, hnext, Dns.encodeName_cons, List.length_append, List.length_append,
      Nat.add_assoc, joined_cons]

end Reading

/-- A legal query for one name: the bits of its flags that say that it is a
standard query are clear, its name has at most 255 bytes on the wire, and whatever
follows the question follows it. -/
structure Query where
  id : UInt16
  flagsHi : UInt8
  flagsLo : UInt8
  counts : Fin 6 → UInt8
  name : List Dns.Label
  qtype : UInt16
  qclass : UInt16
  trailing : Bytes
  standard : flagsHi &&& 0xf8 = 0
  short : (Dns.encodeName name).length ≤ 255

namespace Query

def question (query : Query) : Dns.Question where
  name := query.name
  qtype := query.qtype
  qclass := query.qclass

def encode (query : Query) : Bytes :=
  Words.u16 query.id ++ [query.flagsHi, query.flagsLo] ++ Words.u16 1 ++ List.ofFn query.counts ++
    query.question.encode ++ query.trailing

/-- The name in dotted form, in lower case. -/
def dotted (query : Query) : Bytes :=
  [0x2e].intercalate (query.name.map fun label => label.text.map tolower)

/-- What the query asks. -/
def asked (query : Query) : Question where
  valid := true
  id := query.id
  qtype := query.qtype
  name := query.dotted
  qend := 12 + query.question.encode.length
  rd := query.flagsHi &&& 0x01

private theorem intercalate_append (dot : Bytes) (first second : Bytes) (more : List Bytes) :
    dot.intercalate ((first ++ second) :: more) = first ++ dot.intercalate (second :: more) := by
  cases more with
  | nil => simp [List.intercalate_singleton]
  | cons third more => simp [List.intercalate_cons_cons]

theorem joined_eq (labels : List Dns.Label) (name : Bytes) (hname : name ≠ []) :
    joined name labels = [0x2e].intercalate (name :: labels.map fun label => label.text.map tolower) := by
  induction labels generalizing name with
  | nil => simp [joined, List.intercalate_singleton]
  | cons label labels ih =>
    have happend : appendLabel name (label.text.map tolower) = (name ++ [0x2e]) ++ label.text.map tolower := by
      simp [appendLabel, hname]
    rw [joined_cons, happend, ih _ (by simp), intercalate_append, List.map_cons, List.intercalate_cons_cons]

theorem joined_nil (query : Query) : joined [] query.name = query.dotted := by
  unfold dotted
  cases query.name with
  | nil => rfl
  | cons label labels =>
    have hne : label.text.map tolower ≠ [] := by
      simpa using List.ne_nil_of_length_pos label.nonempty
    rw [joined_cons]
    exact joined_eq labels (label.text.map tolower) hne

theorem joined_length (labels : List Dns.Label) (name : Bytes) :
    (joined name labels).length < name.length + (Dns.encodeName labels).length := by
  induction labels generalizing name with
  | nil => simp [joined, Dns.encodeName]
  | cons label labels ih =>
    have hnext := ih (appendLabel name (label.text.map tolower))
    have hgrown : (appendLabel name (label.text.map tolower)).length ≤ name.length + 1 + label.text.length := by
      unfold appendLabel
      split_ifs <;> simp
      omega
    rw [joined_cons, Dns.encodeName_cons]
    simp only [Dns.Label.encode, List.length_append, List.length_cons]
    omega

/-- The header and what follows it, as the parser meets them. -/
theorem encode_eq (query : Query) : query.encode =
    [(query.id >>> 8).toUInt8, query.id.toUInt8, query.flagsHi, query.flagsLo, 0, 1, query.counts 0,
        query.counts 1, query.counts 2, query.counts 3, query.counts 4, query.counts 5] ++
      Dns.encodeName query.name ++
      ([(query.qtype >>> 8).toUInt8, query.qtype.toUInt8] ++ Words.u16 query.qclass ++ query.trailing) := by
  simp [encode, question, Dns.Question.encode, Words.u16, List.ofFn_succ]
  rfl

theorem standard_flags (query : Query) : query.flagsHi &&& 0x80 = 0 ∧ query.flagsHi &&& 0x78 = 0 := by
  have hall : ∀ n < 256, UInt8.ofNat n &&& 0xf8 = 0 →
      UInt8.ofNat n &&& 0x80 = 0 ∧ UInt8.ofNat n &&& 0x78 = 0 := by decide +kernel
  have hflags := hall query.flagsHi.toNat query.flagsHi.toNat_lt
  rw [UInt8.ofNat_toNat] at hflags
  exact hflags query.standard

/-- A legal query is parsed to what it asks. -/
theorem parse_encode (query : Query) : parse query.encode = some query.asked := by
  have hshort := query.short
  have hdotted := joined_length query.name []
  obtain ⟨hquery, hopcode⟩ := query.standard_flags
  have hname := readName_encodeName
    [(query.id >>> 8).toUInt8, query.id.toUInt8, query.flagsHi, query.flagsLo, 0, 1, query.counts 0,
      query.counts 1, query.counts 2, query.counts 3, query.counts 4, query.counts 5]
    ([(query.qtype >>> 8).toUInt8, query.qtype.toUInt8] ++ Words.u16 query.qclass ++ query.trailing)
    query.name [] (by simp only [List.length_nil] at hdotted; omega)
  rw [← encode_eq, joined_nil] at hname
  have hlen : query.encode.length = 12 + (Dns.encodeName query.name).length + 4 + query.trailing.length := by
    rw [encode_eq]
    simp only [List.length_append, List.length_cons, List.length_nil, Words.u16]
    omega
  have hflags : query.encode[2]? = some query.flagsHi := by rw [encode_eq]; rfl
  have hqdcount : rd16 query.encode 4 = some 1 := by rw [encode_eq]; rfl
  have hid : rd16 query.encode 0 = some query.id := by
    have hword : rd16 query.encode 0 = some (Words.word (query.id >>> 8).toUInt8 query.id.toUInt8) := by
      rw [encode_eq]
      rfl
    rw [hword, Words.word_bytes]
  have hqtype : rd16 query.encode (12 + (Dns.encodeName query.name).length) = some query.qtype := by
    have hword : rd16 query.encode (12 + (Dns.encodeName query.name).length) =
        some (Words.word (query.qtype >>> 8).toUInt8 query.qtype.toUInt8) := by
      unfold rd16
      have hoff : ∀ i, query.encode[12 + (Dns.encodeName query.name).length + i]? =
          ([(query.qtype >>> 8).toUInt8, query.qtype.toUInt8] ++ Words.u16 query.qclass ++ query.trailing)[i]? := by
        intro i
        rw [encode_eq, List.getElem?_append_right (by simp; omega)]
        congr 1
        simp only [List.length_append, List.length_cons, List.length_nil]
        omega
      rw [← Nat.add_zero (12 + (Dns.encodeName query.name).length), hoff 0, Nat.add_zero, hoff 1]
      rfl
    rw [hword, Words.word_bytes]
  have hqend : 12 + (Dns.encodeName query.name).length + 4 = 12 + query.question.encode.length := by
    simp [question, Dns.Question.encode, Words.u16]
    omega
  unfold parse
  simp only [List.length_cons, List.length_nil] at hname
  rw [if_neg (by omega), hflags]
  simp [hquery, hopcode, hqdcount, hname, hqtype, hid, asked, ← hqend]
  omega

end Query

/-- A question that is accepted: where it stands in the packet. -/
structure Asks (packet : Bytes) (q : Question) (question : Dns.Question) : Prop where
  echo : (packet.drop 12).take (q.qend - 12) = question.encode
  inside : q.qend ≤ packet.length
  behind : 12 ≤ q.qend
  qtype : q.qtype = question.qtype

/-- The four bytes behind the name. -/
private theorem type_and_class {packet : Bytes} {off : Nat} (hfits : off + 4 ≤ packet.length) :
    ∃ qtype qclass, rd16 packet off = some qtype ∧
      (packet.drop off).take 4 = Words.u16 qtype ++ Words.u16 qclass := by
  refine ⟨_, Words.word packet[off + 2] packet[off + 3], rd16_eq (by omega), ?_⟩
  rw [Words.u16_word, Words.u16_word]
  rw [List.drop_eq_getElem_cons (by omega), List.drop_eq_getElem_cons (by omega),
    List.drop_eq_getElem_cons (by omega), List.drop_eq_getElem_cons (by omega)]
  rfl

/-- The parser reads inside the packet only, and what it accepts has a question. -/
theorem parse_spec (packet : Bytes) :
    ∃ q, parse packet = some q ∧ (q.valid = true → ∃ question, Asks packet q question) := by
  have hinvalid : ∃ q : Question, some {} = some q ∧ (q.valid = true → ∃ question, Asks packet q question) :=
    ⟨{}, rfl, by simp⟩
  unfold parse
  by_cases hlen : packet.length < 12
  · rw [if_pos hlen]
    exact hinvalid
  · have hqdcount : rd16 packet 4 = some (Words.word packet[4] packet[5]) := rd16_eq (by omega)
    have hid : rd16 packet 0 = some (Words.word packet[0] packet[1]) := rd16_eq (by omega)
    have hname : (readName packet 12 []).isSome = true := readName_isSome 12 []
    rw [if_neg hlen, List.getElem?_eq_getElem (show 2 < packet.length by omega), hqdcount, hid]
    simp only [Option.bind_eq_bind, Option.bind_some, Option.pure_def]
    split_ifs with hflags hnone
    · exact hinvalid
    · exact hinvalid
    · obtain ⟨result, hresult⟩ := Option.isSome_iff_exists.mp hname
      rw [hresult, Option.bind_some]
      cases result with
      | none => exact hinvalid
      | some accepted =>
        obtain ⟨off, name⟩ := accepted
        obtain ⟨labels, hdrop, hoff, hle⟩ := readName_encodes hresult
        dsimp only
        split_ifs with hshort
        · exact hinvalid
        · obtain ⟨qtype, qclass, hqtype, hbytes⟩ := type_and_class (show off + 4 ≤ packet.length by omega)
          rw [hqtype]
          refine ⟨_, rfl, fun _ => ⟨⟨labels, qtype, qclass⟩, ?_, by dsimp only; omega, by dsimp only; omega, rfl⟩⟩
          have hlength : off + 4 - 12 = (Dns.encodeName labels).length + 4 := by omega
          simp only [Dns.Question.encode]
          rw [hlength, hdrop, List.take_length_add_append, hbytes, List.append_assoc]

/-- The record that points to the table: for the name of the question, for 30
seconds. -/
def addressRecord (ip0 ip1 ip2 ip3 : UInt8) : Dns.Record where
  owner := .pointer 12
  type := TYPE_A
  class_ := 1
  ttl := 30
  rdata := [ip0, ip1, ip2, ip3]
  short := by simp

/-- The message that a response stands for. -/
def responseMessage (q : Question) (question : Dns.Question) (action : Action)
    (ip0 ip1 ip2 ip3 : UInt8) : Dns.Message where
  id := q.id
  flags := Words.word (0x84 ||| (q.rd &&& 0x01)) (if action = .NxDomain then 0x03 else 0x00)
  questions := [question]
  answers := if action = .AnswerA then [addressRecord ip0 ip1 ip2 ip3] else []
  few_questions := by simp
  few_answers := by split_ifs <;> simp

theorem buildResponse_invalid {q : Question} (hvalid : q.valid = false) (packet : Bytes) (action : Action)
    (ip0 ip1 ip2 ip3 : UInt8) : buildResponse packet q action ip0 ip1 ip2 ip3 = [] := by
  simp [buildResponse, hvalid]

theorem buildResponse_eq {packet : Bytes} {q : Question} {question : Dns.Question} (hvalid : q.valid = true)
    (hasks : Asks packet q question) (action : Action) (ip0 ip1 ip2 ip3 : UInt8) :
    buildResponse packet q action ip0 ip1 ip2 ip3 =
      (responseMessage q question action ip0 ip1 ip2 ip3).encode := by
  have hinside := hasks.inside
  have hlow : (q.id &&& 0xff).toUInt8 = q.id.toUInt8 := by
    apply UInt8.toNat_inj.mp
    simp only [UInt16.toNat_toUInt8, UInt16.toNat_and]
    rw [show (0xff : UInt16).toNat = 2 ^ 8 - 1 by decide, Nat.and_two_pow_sub_one_eq_mod, Nat.mod_mod]
  unfold buildResponse
  rw [if_neg (by simp [hvalid]; omega), hasks.echo, hlow]
  unfold Dns.Message.encode Dns.Message.header responseMessage
  rw [Words.u16_word]
  cases action with
  | AnswerA => simp [Words.u16, Dns.Record.encode, addressRecord, Dns.Owner.encode, Dns.u32, TYPE_A]; decide
  | NoData => simp [Words.u16]; decide
  | NxDomain => simp [Words.u16]; decide

theorem responseMessage_resolves (q : Question) (question : Dns.Question) (action : Action)
    (ip0 ip1 ip2 ip3 : UInt8) : (responseMessage q question action ip0 ip1 ip2 ip3).Resolves := by
  intro r hr offset hoffset
  simp only [responseMessage] at hr
  split_ifs at hr
  · obtain rfl := List.mem_singleton.mp hr
    obtain rfl : 12 = offset := Dns.Owner.pointer.inj hoffset
    simp [responseMessage, Dns.Message.nameOffsets]
  · simp at hr

/-- A response to a packet with a valid question is a message with the same id, the
bytes of the question and an answer if the action is to answer; for other packets
there is no response. -/
def Responds (packet : Bytes) (q : Question) (action : Action) (response : Bytes) : Prop :=
  if q.valid then
    ∃ (m : Dns.Message) (question : Dns.Question), m.encode = response ∧ m.Resolves ∧ m.id = q.id ∧
      m.questions = [question] ∧ question.encode = (packet.drop 12).take (q.qend - 12) ∧
      m.answers.length = if action = .AnswerA then 1 else 0
  else response = []

/-- Every packet is parsed inside its bounds and answered by a well-formed message
or not at all, and a legal query is parsed to what it asks. -/
theorem captive_dns_answers :
    (∀ packet, ∃ q, parse packet = some q ∧ ∀ action ip0 ip1 ip2 ip3,
      Responds packet q action (buildResponse packet q action ip0 ip1 ip2 ip3)) ∧
    ∀ query : Query, parse query.encode = some query.asked := by
  refine ⟨?_, Query.parse_encode⟩
  intro packet
  obtain ⟨q, hparse, hvalid⟩ := parse_spec packet
  refine ⟨q, hparse, ?_⟩
  intro action ip0 ip1 ip2 ip3
  unfold Responds
  by_cases hq : q.valid = true
  · obtain ⟨question, hasks⟩ := hvalid hq
    rw [if_pos hq]
    refine ⟨responseMessage q question action ip0 ip1 ip2 ip3, question, ?_, ?_, rfl, rfl, hasks.echo.symm, ?_⟩
    · exact (buildResponse_eq hq hasks action ip0 ip1 ip2 ip3).symm
    · exact responseMessage_resolves q question action ip0 ip1 ip2 ip3
    · simp only [responseMessage]
      split_ifs <;> rfl
  · rw [if_neg hq]
    exact buildResponse_invalid (by simpa using hq) packet action ip0 ip1 ip2 ip3

end DuneWeaver.DnsQuery
