import Dropway.Lib.LittleEndian
import Dropway.Lib.Runes

/-! ZIP archives as readers take them apart: the end record is looked for from the back,
the central directory is read where it says, and each of its records leads to a local
header and the data behind it. -/

namespace Dropway.Lib.Zip
open LittleEndian

def slice (bytes : Bytes) (start length : Nat) : Option Bytes :=
  if start + length ≤ bytes.length then some ((bytes.drop start).take length) else none

structure LocalHeader where
  version : Nat
  flags : Nat
  method : Nat
  time : Nat
  date : Nat
  crc : Nat
  compressed : Nat
  uncompressed : Nat
  name : Bytes
  extra : Bytes
  deriving DecidableEq

structure CentralHeader where
  madeBy : Nat
  version : Nat
  flags : Nat
  method : Nat
  time : Nat
  date : Nat
  crc : Nat
  compressed : Nat
  uncompressed : Nat
  disk : Nat
  internal : Nat
  external : Nat
  offset : Nat
  name : Bytes
  extra : Bytes
  comment : Bytes
  deriving DecidableEq

structure EndRecord where
  disk : Nat
  directoryDisk : Nat
  diskEntries : Nat
  entries : Nat
  size : Nat
  offset : Nat
  comment : Bytes
  deriving DecidableEq

def LocalHeader.length (header : LocalHeader) : Nat := 30 + header.name.length + header.extra.length

def CentralHeader.length (header : CentralHeader) : Nat :=
  46 + header.name.length + header.extra.length + header.comment.length

def EndRecord.length (record : EndRecord) : Nat := 22 + record.comment.length

def readLocal (bytes : Bytes) (start : Nat) : Option LocalHeader := do
  let fixed ← slice bytes start 30
  guard (field fixed 0 4 = 0x04034b50)
  let name ← slice bytes (start + 30) (field fixed 26 2)
  let extra ← slice bytes (start + 30 + field fixed 26 2) (field fixed 28 2)
  return { version := field fixed 4 2, flags := field fixed 6 2, method := field fixed 8 2, time := field fixed 10 2,
           date := field fixed 12 2, crc := field fixed 14 4, compressed := field fixed 18 4,
           uncompressed := field fixed 22 4, name, extra }

def readCentral (bytes : Bytes) (start : Nat) : Option CentralHeader := do
  let fixed ← slice bytes start 46
  guard (field fixed 0 4 = 0x02014b50)
  let name ← slice bytes (start + 46) (field fixed 28 2)
  let extra ← slice bytes (start + 46 + field fixed 28 2) (field fixed 30 2)
  let comment ← slice bytes (start + 46 + field fixed 28 2 + field fixed 30 2) (field fixed 32 2)
  return { madeBy := field fixed 4 2, version := field fixed 6 2, flags := field fixed 8 2, method := field fixed 10 2,
           time := field fixed 12 2, date := field fixed 14 2, crc := field fixed 16 4, compressed := field fixed 20 4,
           uncompressed := field fixed 24 4, disk := field fixed 34 2, internal := field fixed 36 2,
           external := field fixed 38 4, offset := field fixed 42 4, name, extra, comment }

/-- The record ends where the archive does. -/
def readEnd (bytes : Bytes) (start : Nat) : Option EndRecord := do
  let fixed ← slice bytes start 22
  guard (field fixed 0 4 = 0x06054b50)
  guard (start + 22 + field fixed 20 2 = bytes.length)
  let comment ← slice bytes (start + 22) (field fixed 20 2)
  return { disk := field fixed 4 2, directoryDisk := field fixed 6 2, diskEntries := field fixed 8 2,
           entries := field fixed 10 2, size := field fixed 12 4, offset := field fixed 16 4, comment }

/-- The last end record that starts at a position or before it. -/
def findEnd (bytes : Bytes) : Nat → Option (Nat × EndRecord)
  | 0 => (readEnd bytes 0).map fun record => (0, record)
  | start + 1 =>
    match readEnd bytes (start + 1) with
    | some record => some (start + 1, record)
    | none => findEnd bytes start

/-- A file of the archive, and where its central header stands. -/
structure Member where
  position : Nat
  central : CentralHeader
  header : LocalHeader
  data : Bytes
  deriving DecidableEq

/-- The central headers one after the other, and where they end. -/
def readMembers (bytes : Bytes) : Nat → Nat → Option (List Member × Nat)
  | 0, position => some ([], position)
  | count + 1, position => do
    let central ← readCentral bytes position
    let header ← readLocal bytes central.offset
    let data ← slice bytes (central.offset + header.length) central.compressed
    let rest ← readMembers bytes count (position + central.length)
    return (⟨position, central, header, data⟩ :: rest.1, rest.2)

structure Archive where
  members : List Member
  position : Nat
  record : EndRecord
  deriving DecidableEq

def decode (bytes : Bytes) : Option Archive := do
  let last ← findEnd bytes (bytes.length - 22)
  guard (last.2.disk = 0 ∧ last.2.directoryDisk = 0 ∧ last.2.diskEntries = last.2.entries)
  let read ← readMembers bytes last.2.entries last.2.offset
  guard (read.2 = last.2.offset + last.2.size)
  return { members := read.1, position := last.1, record := last.2 }

/-- A name in UTF-8; other code pages are not read. -/
def Member.path (member : Member) : Option Text :=
  if member.central.flags.testBit 11 then some (Utf8.runeText member.central.name) else none

/-- What a stored member holds; compressed and encrypted ones are not read. -/
def Member.contents (member : Member) : Option Bytes :=
  if member.central.method = 0 ∧ ¬ member.central.flags.testBit 0 ∧ member.central.uncompressed = member.data.length then
    some member.data
  else none

/-- The local header says what the central one does. -/
structure Member.Agrees (member : Member) : Prop where
  version : member.header.version = member.central.version
  flags : member.header.flags = member.central.flags
  method : member.header.method = member.central.method
  time : member.header.time = member.central.time
  date : member.header.date = member.central.date
  crc : member.header.crc = member.central.crc
  compressed : member.header.compressed = member.central.compressed
  uncompressed : member.header.uncompressed = member.central.uncompressed
  name : member.header.name = member.central.name

/-- Where the records of the archive stand, as starts and lengths. -/
def Archive.records (archive : Archive) : List (Nat × Nat) :=
  archive.members.map (fun member => (member.central.offset, member.header.length + member.data.length)) ++
    archive.members.map (fun member => (member.position, member.central.length)) ++
      [(archive.position, archive.record.length)]

/-- One record after the other, from a start to a stop. -/
def Covers : List (Nat × Nat) → Nat → Nat → Prop
  | [], start, stop => start = stop
  | record :: rest, start, stop => record.1 = start ∧ Covers rest (start + record.2) stop

theorem covers_append {front back : List (Nat × Nat)} {start middle stop : Nat} (first : Covers front start middle)
    (second : Covers back middle stop) : Covers (front ++ back) start stop := by
  induction front generalizing start with
  | nil =>
    cases first
    exact second
  | cons record rest ih => exact ⟨first.1, ih first.2⟩

/-! ### Reading what is put together -/

theorem slice_of {bytes front part back : Bytes} (split : bytes = front ++ (part ++ back)) {start length : Nat}
    (starts : start = front.length) (long : length = part.length) : slice bytes start length = some part := by
  subst split starts long
  unfold slice
  rw [if_pos, List.drop_left, List.take_left]
  rw [List.length_append, List.length_append]
  omega

theorem readLocal_of {bytes front fixed name extra back : Bytes}
    (split : bytes = front ++ (fixed ++ (name ++ (extra ++ back)))) (size : fixed.length = 30)
    (signature : field fixed 0 4 = 0x04034b50) (nameLength : field fixed 26 2 = name.length)
    (extraLength : field fixed 28 2 = extra.length) :
    readLocal bytes front.length = some
      { version := field fixed 4 2, flags := field fixed 6 2, method := field fixed 8 2, time := field fixed 10 2,
        date := field fixed 12 2, crc := field fixed 14 4, compressed := field fixed 18 4,
        uncompressed := field fixed 22 4, name, extra } := by
  have first : slice bytes front.length 30 = some fixed := slice_of split rfl size.symm
  have second : slice bytes (front.length + 30) name.length = some name := by
    have split' : bytes = (front ++ fixed) ++ (name ++ (extra ++ back)) := by rw [split, List.append_assoc]
    exact slice_of split' (by rw [List.length_append, size]) rfl
  have third : slice bytes (front.length + 30 + name.length) extra.length = some extra := by
    have split' : bytes = (front ++ fixed ++ name) ++ (extra ++ back) := by
      rw [split, List.append_assoc, List.append_assoc]
    exact slice_of split' (by rw [List.length_append, List.length_append, size]) rfl
  have signed : (guard (field fixed 0 4 = 0x04034b50) : Option Unit) = some () := if_pos signature
  unfold readLocal
  rw [first, Option.bind_eq_bind, Option.bind_some, signed, nameLength, extraLength, second, third]
  rfl

theorem readCentral_of {bytes front fixed name extra comment back : Bytes}
    (split : bytes = front ++ (fixed ++ (name ++ (extra ++ (comment ++ back))))) (size : fixed.length = 46)
    (signature : field fixed 0 4 = 0x02014b50) (nameLength : field fixed 28 2 = name.length)
    (extraLength : field fixed 30 2 = extra.length) (commentLength : field fixed 32 2 = comment.length) :
    readCentral bytes front.length = some
      { madeBy := field fixed 4 2, version := field fixed 6 2, flags := field fixed 8 2, method := field fixed 10 2,
        time := field fixed 12 2, date := field fixed 14 2, crc := field fixed 16 4, compressed := field fixed 20 4,
        uncompressed := field fixed 24 4, disk := field fixed 34 2, internal := field fixed 36 2,
        external := field fixed 38 4, offset := field fixed 42 4, name, extra, comment } := by
  have first : slice bytes front.length 46 = some fixed := slice_of split rfl size.symm
  have second : slice bytes (front.length + 46) name.length = some name := by
    have split' : bytes = (front ++ fixed) ++ (name ++ (extra ++ (comment ++ back))) := by rw [split, List.append_assoc]
    exact slice_of split' (by rw [List.length_append, size]) rfl
  have third : slice bytes (front.length + 46 + name.length) extra.length = some extra := by
    have split' : bytes = (front ++ fixed ++ name) ++ (extra ++ (comment ++ back)) := by
      rw [split, List.append_assoc, List.append_assoc]
    exact slice_of split' (by rw [List.length_append, List.length_append, size]) rfl
  have fourth : slice bytes (front.length + 46 + name.length + extra.length) comment.length = some comment := by
    have split' : bytes = (front ++ fixed ++ name ++ extra) ++ (comment ++ back) := by
      rw [split, List.append_assoc, List.append_assoc, List.append_assoc]
    exact slice_of split' (by rw [List.length_append, List.length_append, List.length_append, size]) rfl
  have signed : (guard (field fixed 0 4 = 0x02014b50) : Option Unit) = some () := if_pos signature
  unfold readCentral
  rw [first, Option.bind_eq_bind, Option.bind_some, signed, nameLength, extraLength, commentLength, second, third, fourth]
  rfl

theorem readEnd_of {bytes front fixed comment : Bytes} (split : bytes = front ++ (fixed ++ comment))
    (size : fixed.length = 22) (signature : field fixed 0 4 = 0x06054b50)
    (commentLength : field fixed 20 2 = comment.length) :
    readEnd bytes front.length = some
      { disk := field fixed 4 2, directoryDisk := field fixed 6 2, diskEntries := field fixed 8 2,
        entries := field fixed 10 2, size := field fixed 12 4, offset := field fixed 16 4, comment } := by
  have first : slice bytes front.length 22 = some fixed := slice_of split rfl size.symm
  have second : slice bytes (front.length + 22) comment.length = some comment := by
    have split' : bytes = (front ++ fixed) ++ (comment ++ []) := by rw [split, List.append_nil, List.append_assoc]
    exact slice_of split' (by rw [List.length_append, size]) rfl
  have last : front.length + 22 + comment.length = bytes.length := by
    rw [split, List.length_append, List.length_append, size, Nat.add_assoc]
  have signed : (guard (field fixed 0 4 = 0x06054b50) : Option Unit) = some () := if_pos signature
  have closed : (guard (front.length + 22 + comment.length = bytes.length) : Option Unit) = some () := if_pos last
  unfold readEnd
  rw [first, Option.bind_eq_bind, Option.bind_some, signed, commentLength, closed, second]
  rfl

theorem findEnd_here {bytes : Bytes} {start : Nat} {record : EndRecord} (here : readEnd bytes start = some record) :
    findEnd bytes start = some (start, record) := by
  cases start with
  | zero => rw [findEnd, here, Option.map_some]
  | succ start => rw [findEnd, here]

end Dropway.Lib.Zip
