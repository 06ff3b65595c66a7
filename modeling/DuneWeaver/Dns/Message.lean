import DuneWeaver.Words.Network

open Words

namespace Dns

def u32 (n : UInt32) : List UInt8 :=
  [(n >>> 24).toUInt8, (n >>> 16).toUInt8, (n >>> 8).toUInt8, n.toUInt8]

/-- A label of a domain name. -/
structure Label where
  text : List UInt8
  nonempty : 0 < text.length
  short : text.length ≤ 63

def Label.encode (label : Label) : List UInt8 := UInt8.ofNat label.text.length :: label.text

/-- A name, written out: its labels and the root. -/
def encodeName (name : List Label) : List UInt8 := name.flatMap Label.encode ++ [0]

structure Question where
  name : List Label
  qtype : UInt16
  qclass : UInt16

def Question.encode (q : Question) : List UInt8 := encodeName q.name ++ u16 q.qtype ++ u16 q.qclass

/-- The name of a record: written out, or a pointer to where it stands in the
message. -/
inductive Owner where
  | written (name : List Label)
  | pointer (offset : Fin (2 ^ 14))

def Owner.encode : Owner → List UInt8
  | .written name => encodeName name
  | .pointer offset => u16 (0xc000 ||| UInt16.ofNat offset.val)

structure Record where
  owner : Owner
  type : UInt16
  class_ : UInt16
  ttl : UInt32
  rdata : List UInt8
  short : rdata.length < 2 ^ 16

def Record.encode (r : Record) : List UInt8 :=
  r.owner.encode ++ u16 r.type ++ u16 r.class_ ++ u32 r.ttl ++ u16 (UInt16.ofNat r.rdata.length) ++ r.rdata

/-- A message without authority and additional records. -/
structure Message where
  id : UInt16
  flags : UInt16
  questions : List Question
  answers : List Record
  few_questions : questions.length < 2 ^ 16
  few_answers : answers.length < 2 ^ 16

namespace Message

/-- The counts of the header are those of the sections. -/
def header (m : Message) : List UInt8 :=
  u16 m.id ++ u16 m.flags ++ u16 (UInt16.ofNat m.questions.length) ++
    u16 (UInt16.ofNat m.answers.length) ++ u16 0 ++ u16 0

def encode (m : Message) : List UInt8 :=
  m.header ++ m.questions.flatMap Question.encode ++ m.answers.flatMap Record.encode

/-- Where the names of the questions stand. -/
def nameOffsets (m : Message) : List Nat :=
  (List.range m.questions.length).map fun i =>
    12 + ((m.questions.take i).flatMap Question.encode).length

/-- Every pointer points to a name. -/
def Resolves (m : Message) : Prop :=
  ∀ r ∈ m.answers, ∀ offset, r.owner = .pointer offset → offset.val ∈ m.nameOffsets

end Message

theorem encodeName_cons (label : Label) (name : List Label) :
    encodeName (label :: name) = label.encode ++ encodeName name := by
  simp [encodeName]

theorem Label.length_byte (label : Label) :
    (UInt8.ofNat label.text.length).toNat = label.text.length := by
  have hshort := label.short
  simp
  omega

end Dns
