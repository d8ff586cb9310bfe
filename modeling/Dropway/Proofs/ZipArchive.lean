import Dropway.Dashboard.Zip
import Dropway.Lib.Crc
import Dropway.Lib.Zip

/-! Archives are read back as the entries they are built from, record after record, and
the checksums are those of IEEE 802.3. -/

namespace Dropway.Dashboard
open Lib Lib.LittleEndian Lib.Bitwise

/-- The polynomial of IEEE 802.3, the highest power at the lowest bit. -/
def ieee : BitVec 32 := 0xEDB88320#32

/-- Starting from ones, and complemented in the end. -/
def ieeeCrc (data : Bytes) : Nat := (~~~ Crc.remainder ieee (BitVec.allOnes 32) data).toNat

/-! ### The checksum -/

theorem and_one (c : Int) : Bitwise.and c 1 ≠ 0 ↔ (int32 c).getLsbD 0 = true := by
  have low : int32 c &&& int32 1 = BitVec.setWidth 32 (BitVec.ofBool ((int32 c).getLsbD 0)) :=
    BitVec.and_one_eq_setWidth_ofBool_getLsbD
  unfold Bitwise.and
  rw [low]
  cases (int32 c).getLsbD 0 with
  | false => exact iff_of_false (fun other => other rfl) Bool.false_ne_true
  | true => exact iff_of_true (by decide) rfl

theorem int32_crcStep (c : Int) : int32 (crcStep c) = Crc.shift ieee (int32 c) := by
  unfold crcStep Crc.shift
  by_cases odd : Bitwise.and c 1 ≠ 0
  · rw [if_pos odd, if_pos ((and_one c).mp odd), int32_xor, int32_shiftRight]
    rfl
  · rw [if_neg odd, if_neg fun bit => odd ((and_one c).mpr bit), int32_shiftRight]

theorem int32_crcSteps (n : Nat) (c : Int) :
    int32 ((List.range n).foldl (fun c _ => crcStep c) c) = Crc.shifts ieee n (int32 c) := by
  induction n generalizing c with
  | zero => rfl
  | succ n ih =>
    rw [List.range_succ_eq_map, List.foldl_cons, List.foldl_map, ih, int32_crcStep]
    rfl

theorem crcTable_get {n : Nat} (small : n < 256) :
    crcTable[n]? = some (Crc.shifts ieee 8 (BitVec.ofNat 32 n)).toNat := by
  unfold crcTable
  rw [List.getElem?_map, List.getElem?_range small, Option.map_some, shiftRight, int32_crcSteps, int32_ofNat,
    BitVec.ushiftRight_zero]

theorem int32_crcByte (crc : Int) (byte : UInt8) : int32 (crcByte crc byte) = Crc.feedByte ieee (int32 crc) byte := by
  have index : (Bitwise.and (Bitwise.xor crc byte.toNat) 0xFF).toNat =
      ((int32 crc ^^^ BitVec.ofNat 32 byte.toNat) &&& BitVec.ofNat 32 0xFF).toNat := by
    rw [and_toNat (by decide), int32_xor, int32_ofNat]
    rfl
  have small : ((int32 crc ^^^ BitVec.ofNat 32 byte.toNat) &&& BitVec.ofNat 32 0xFF).toNat < 256 := by
    rw [BitVec.toNat_and]
    exact Nat.lt_of_le_of_lt Nat.and_le_right (by decide)
  rw [crcByte, int32_xor, int32_shiftRight, index, crcTable_get small, Option.getD_some, BitVec.ofNat_toNat,
    BitVec.setWidth_eq, int32_toNat, Crc.feedByte_table ieee (by decide)]

theorem crc32_eq (data : Bytes) : crc32 data = ieeeCrc data := by
  have folded (crc : Int) : int32 (data.foldl crcByte crc) = Crc.remainder ieee (int32 crc) data := by
    unfold Crc.remainder
    induction data generalizing crc with
    | nil => rfl
    | cons byte data ih => rw [List.foldl_cons, List.foldl_cons, ih, int32_crcByte]
  rw [crc32, shiftRight, int32_xor, folded, BitVec.ushiftRight_zero, ieeeCrc]
  have ones : int32 0xFFFFFFFF = BitVec.allOnes 32 := rfl
  rw [ones, BitVec.xor_allOnes]

theorem crc32_lt (data : Bytes) : crc32 data < 256 ^ 4 := by
  rw [crc32_eq]
  exact BitVec.isLt _

/-! ### The layout -/

def ZipEntry.name (entry : ZipEntry) : Bytes := Utf8.encode entry.path

def localRecord (entry : ZipEntry) : Bytes :=
  localHeader (crc32 entry.data) entry.data.length entry.name.length ++ (entry.name ++ entry.data)

def centralRecord (offset : Nat) (entry : ZipEntry) : Bytes :=
  centralHeader (crc32 entry.data) entry.data.length entry.name.length offset ++ entry.name

def localRecords (entries : List ZipEntry) : Bytes := entries.flatMap localRecord

/-- The directory of entries whose records start at an offset. -/
def directory : Nat → List ZipEntry → Bytes
  | _, [] => []
  | offset, entry :: rest => centralRecord offset entry ++ directory (offset + (localRecord entry).length) rest

theorem local_filling (crc size nameLength : Nat) : Filling 30 (localFields crc size nameLength) := by
  have regions : (localFields crc size nameLength).map SetUint.region =
      [(0, 4), (4, 2), (6, 2), (8, 2), (10, 2), (12, 2), (14, 4), (18, 4), (22, 4), (26, 2), (28, 2)] := rfl
  constructor
  · rw [regions]
    decide
  · rw [regions]
    decide

theorem central_regions (crc size nameLength offset : Nat) :
    (centralFields crc size nameLength offset).map SetUint.region =
      [(0, 4), (4, 2), (6, 2), (8, 2), (10, 2), (12, 2), (14, 2), (16, 4), (20, 4), (24, 4), (28, 2), (42, 4)] := rfl

theorem central_filling (crc size nameLength offset : Nat) : Filling 46 (centralFields crc size nameLength offset) := by
  constructor
  · rw [central_regions]
    decide
  · rw [central_regions]
    decide

theorem end_regions (count centralSize offset : Nat) :
    (endFields count centralSize offset).map SetUint.region = [(0, 4), (8, 2), (10, 2), (12, 4), (16, 4)] := rfl

theorem end_filling (count centralSize offset : Nat) : Filling 22 (endFields count centralSize offset) := by
  constructor
  · rw [end_regions]
    decide
  · rw [end_regions]
    decide

@[simp] theorem localHeader_length (crc size nameLength : Nat) : (localHeader crc size nameLength).length = 30 :=
  (local_filling crc size nameLength).length

@[simp] theorem centralHeader_length (crc size nameLength offset : Nat) :
    (centralHeader crc size nameLength offset).length = 46 :=
  (central_filling crc size nameLength offset).length

@[simp] theorem endHeader_length (count centralSize offset : Nat) : (endHeader count centralSize offset).length = 22 :=
  (end_filling count centralSize offset).length

theorem localRecord_length (entry : ZipEntry) :
    (localRecord entry).length = 30 + entry.name.length + entry.data.length := by
  rw [localRecord, List.length_append, List.length_append, localHeader_length, Nat.add_assoc]

theorem centralRecord_length (offset : Nat) (entry : ZipEntry) :
    (centralRecord offset entry).length = 46 + entry.name.length := by
  rw [centralRecord, List.length_append, centralHeader_length]

theorem copied {chunks : List Bytes} (done : Bytes) {buffer : Bytes} (fits : buffer.length = (chunks.map List.length).sum) :
    (chunks.foldl (fun out chunk => (overwrite out.2 chunk out.1, out.2 + chunk.length)) (done ++ buffer, done.length)).1 =
      done ++ chunks.flatten := by
  induction chunks generalizing done buffer with
  | nil =>
    obtain rfl : buffer = [] := List.eq_nil_of_length_eq_zero fits
    rfl
  | cons chunk chunks ih =>
    rw [List.map_cons, List.sum_cons] at fits
    have front : chunk.length = (buffer.take chunk.length).length := by
      rw [List.length_take]
      omega
    have back : (buffer.drop chunk.length).length = (chunks.map List.length).sum := by
      rw [List.length_drop]
      omega
    have placed : overwrite done.length chunk (done ++ buffer) = done ++ chunk ++ buffer.drop chunk.length := by
      rw [← List.take_append_drop chunk.length buffer, overwrite_append front, List.take_append_drop]
    have later := ih (done ++ chunk) back
    rw [List.length_append] at later
    rw [List.foldl_cons, placed, later, List.flatten_cons, List.append_assoc]

theorem copyChunks_eq (chunks : List Bytes) : copyChunks chunks = chunks.flatten :=
  copied [] (List.length_replicate ..)

/-- What the loop over the entries comes to. -/
theorem addEntries (entries : List ZipEntry) (zip : ZipParts) :
    (entries.foldl addEntry zip).chunks.flatten = zip.chunks.flatten ++ localRecords entries ∧
      (entries.foldl addEntry zip).central.flatten = zip.central.flatten ++ directory zip.offset entries ∧
      (entries.foldl addEntry zip).offset = zip.offset + (localRecords entries).length := by
  induction entries generalizing zip with
  | nil => exact ⟨(List.append_nil _).symm, (List.append_nil _).symm, rfl⟩
  | cons entry entries ih =>
    obtain ⟨chunks, central, offset⟩ := ih (addEntry zip entry)
    have first : (addEntry zip entry).chunks.flatten = zip.chunks.flatten ++ localRecord entry := by
      unfold addEntry
      rw [List.flatten_append, List.flatten_cons, List.flatten_cons, List.flatten_singleton]
      rfl
    have second : (addEntry zip entry).central.flatten = zip.central.flatten ++ centralRecord zip.offset entry := by
      unfold addEntry
      rw [List.flatten_append, List.flatten_cons, List.flatten_singleton]
      rfl
    have third : (addEntry zip entry).offset = zip.offset + (localRecord entry).length := by
      rw [localRecord_length]
      rfl
    rw [List.foldl_cons, chunks, central, offset, first, second, third, localRecords, localRecords, List.flatMap_cons,
      directory, List.length_append, List.append_assoc, List.append_assoc, Nat.add_assoc]
    exact ⟨rfl, rfl, rfl⟩

theorem buildZip_eq (entries : List ZipEntry) :
    buildZip entries = localRecords entries ++ (directory 0 entries ++
      endHeader entries.length (directory 0 entries).length (localRecords entries).length) := by
  obtain ⟨chunks, central, offset⟩ := addEntries entries ⟨[], [], 0⟩
  unfold buildZip
  rw [copyChunks_eq, List.flatten_append, List.flatten_append, List.flatten_singleton, ← List.length_flatten, chunks,
    central, offset, List.flatten_nil, List.nil_append, List.nil_append, Nat.zero_add]

/-! ### Reading -/

/-- The header of an entry as a reader has it. -/
def ZipEntry.header (entry : ZipEntry) : Zip.LocalHeader where
  version := 20
  flags := 0x0800
  method := 0
  time := 0
  date := 0
  crc := crc32 entry.data
  compressed := entry.data.length
  uncompressed := entry.data.length
  name := entry.name
  extra := []

def ZipEntry.central (entry : ZipEntry) (offset : Nat) : Zip.CentralHeader where
  madeBy := 20
  version := 20
  flags := 0x0800
  method := 0
  time := 0
  date := 0
  crc := crc32 entry.data
  compressed := entry.data.length
  uncompressed := entry.data.length
  disk := 0
  internal := 0
  external := 0
  offset := offset
  name := entry.name
  extra := []
  comment := []

/-- What the header's fields have room for. -/
structure ZipEntry.Fits (entry : ZipEntry) : Prop where
  name : entry.name.length < 256 ^ 2
  data : entry.data.length < 256 ^ 4

theorem readLocal_record {entry : ZipEntry} (fits : entry.Fits) {bytes front back : Bytes}
    (split : bytes = front ++ (localRecord entry ++ back)) :
    Zip.readLocal bytes front.length = some entry.header := by
  have filling := local_filling (crc32 entry.data) entry.data.length entry.name.length
  have whole : bytes = front ++ (localHeader (crc32 entry.data) entry.data.length entry.name.length ++
      (entry.name ++ ([] ++ (entry.data ++ back)))) := by
    rw [split, localRecord, List.append_assoc, List.append_assoc, List.nil_append]
  have name := filling.field 9 rfl fits.name
  have extra := filling.field 10 rfl (by decide)
  rw [Zip.readLocal_of whole filling.length (filling.field 0 rfl (by decide)) name extra]
  have version := filling.field 1 rfl (by decide)
  have flags := filling.field 2 rfl (by decide)
  have method := filling.field 3 rfl (by decide)
  have time := filling.field 4 rfl (by decide)
  have date := filling.field 5 rfl (by decide)
  have crc := filling.field 6 rfl (crc32_lt entry.data)
  have stored := filling.field 7 rfl fits.data
  have size := filling.field 8 rfl fits.data
  unfold localHeader ZipEntry.header
  rw [version, flags, method, time, date, crc, stored, size]

theorem readCentral_record {entry : ZipEntry} (fits : entry.Fits) {offset : Nat} (reach : offset < 256 ^ 4)
    {bytes front back : Bytes} (split : bytes = front ++ (centralRecord offset entry ++ back)) :
    Zip.readCentral bytes front.length = some (entry.central offset) := by
  have filling := central_filling (crc32 entry.data) entry.data.length entry.name.length offset
  have whole : bytes = front ++ (centralHeader (crc32 entry.data) entry.data.length entry.name.length offset ++
      (entry.name ++ ([] ++ ([] ++ back)))) := by
    rw [split, centralRecord, List.append_assoc, List.nil_append, List.nil_append]
  have zero (position width : Nat) (apart : ∀ region ∈ (centralFields (crc32 entry.data) entry.data.length
      entry.name.length offset).map SetUint.region, Apart region (position, width)) :
      field (centralHeader (crc32 entry.data) entry.data.length entry.name.length offset) position width = 0 :=
    filling.zero apart
  rw [central_regions] at zero
  have name := filling.field 10 rfl fits.name
  rw [Zip.readCentral_of whole filling.length (filling.field 0 rfl (by decide)) name
    (zero 30 2 (by decide)) (zero 32 2 (by decide))]
  have madeBy := filling.field 1 rfl (by decide)
  have version := filling.field 2 rfl (by decide)
  have flags := filling.field 3 rfl (by decide)
  have method := filling.field 4 rfl (by decide)
  have time := filling.field 5 rfl (by decide)
  have date := filling.field 6 rfl (by decide)
  have crc := filling.field 7 rfl (crc32_lt entry.data)
  have stored := filling.field 8 rfl fits.data
  have size := filling.field 9 rfl fits.data
  have place := filling.field 11 rfl reach
  rw [zero 34 2 (by decide), zero 36 2 (by decide), zero 38 4 (by decide)]
  unfold centralHeader ZipEntry.central
  rw [madeBy, version, flags, method, time, date, crc, stored, size, place]

theorem readEnd_record {count size offset : Nat} (few : count < 256 ^ 2) (small : size < 256 ^ 4)
    (reach : offset < 256 ^ 4) {bytes front : Bytes} (split : bytes = front ++ endHeader count size offset) :
    Zip.readEnd bytes front.length = some ⟨0, 0, count, count, size, offset, []⟩ := by
  have filling := end_filling count size offset
  have whole : bytes = front ++ (endHeader count size offset ++ []) := by rw [split, List.append_nil]
  have zero (position width : Nat) (apart : ∀ region ∈ (endFields count size offset).map SetUint.region,
      Apart region (position, width)) : field (endHeader count size offset) position width = 0 :=
    filling.zero apart
  rw [end_regions] at zero
  rw [Zip.readEnd_of whole filling.length (filling.field 0 rfl (by decide)) (zero 20 2 (by decide))]
  have here := filling.field 1 rfl few
  have total := filling.field 2 rfl few
  have directory := filling.field 3 rfl small
  have start := filling.field 4 rfl reach
  rw [zero 4 2 (by decide), zero 6 2 (by decide)]
  unfold endHeader
  rw [here, total, directory, start]

/-! ### The archive -/

/-- The members of entries whose records start at an offset, and whose directory starts at a position. -/
def members : Nat → Nat → List ZipEntry → List Zip.Member
  | _, _, [] => []
  | offset, position, entry :: rest =>
    ⟨position, entry.central offset, entry.header, entry.data⟩ ::
      members (offset + (localRecord entry).length) (position + (centralRecord offset entry).length) rest

theorem localRecords_cons (entry : ZipEntry) (rest : List ZipEntry) :
    localRecords (entry :: rest) = localRecord entry ++ localRecords rest := List.flatMap_cons

/-- Reading the directory on, with what is behind in `before` and `middle`. -/
theorem readMembers_records {entries : List ZipEntry} (names : ∀ entry ∈ entries, entry.name.length < 256 ^ 2)
    {bytes before middle back : Bytes} (reach : before.length + (localRecords entries).length < 256 ^ 4)
    (split : bytes = before ++ (localRecords entries ++ (middle ++ (directory before.length entries ++ back)))) :
    let position := (before ++ (localRecords entries ++ middle)).length
    Zip.readMembers bytes entries.length position =
      some (members before.length position entries, position + (directory before.length entries).length) := by
  induction entries generalizing before middle with
  | nil => rfl
  | cons entry rest ih =>
    intro position
    obtain ⟨name, later⟩ := List.forall_mem_cons.mp names
    have size := localRecord_length entry
    rw [localRecords_cons, List.length_append] at reach
    have fits : entry.Fits := ⟨name, by omega⟩
    have centralSplit : bytes = (before ++ (localRecords (entry :: rest) ++ middle)) ++
        (centralRecord before.length entry ++ (directory (before.length + (localRecord entry).length) rest ++ back)) := by
      rw [split, directory]
      simp only [List.append_assoc]
    have localSplit : bytes = before ++ (localRecord entry ++ (localRecords rest ++
        (middle ++ (directory before.length (entry :: rest) ++ back)))) := by
      rw [split, localRecords_cons]
      simp only [List.append_assoc]
    have dataSplit : bytes = (before ++ (localHeader (crc32 entry.data) entry.data.length entry.name.length ++ entry.name)) ++
        (entry.data ++ (localRecords rest ++ (middle ++ (directory before.length (entry :: rest) ++ back)))) := by
      rw [localSplit, localRecord]
      simp only [List.append_assoc]
    have central : Zip.readCentral bytes position = some (entry.central before.length) :=
      readCentral_record fits (by omega) centralSplit
    have header : Zip.readLocal bytes before.length = some entry.header := readLocal_record fits localSplit
    have data : Zip.slice bytes (before.length + entry.header.length) entry.data.length = some entry.data := by
      apply Zip.slice_of dataSplit _ rfl
      rw [List.length_append, List.length_append, localHeader_length]
      rfl
    have tailSplit : bytes = (before ++ localRecord entry) ++ (localRecords rest ++
        ((middle ++ centralRecord before.length entry) ++
          (directory (before ++ localRecord entry).length rest ++ back))) := by
      rw [split, localRecords_cons, directory, List.length_append]
      simp only [List.append_assoc]
    have next : ((before ++ localRecord entry) ++ (localRecords rest ++ (middle ++ centralRecord before.length entry))).length =
        position + (centralRecord before.length entry).length := by
      change _ = (before ++ (localRecords (entry :: rest) ++ middle)).length + _
      rw [localRecords_cons]
      simp only [List.length_append]
      omega
    have tail := ih later (by rw [List.length_append]; omega) tailSplit
    rw [next, List.length_append] at tail
    have step : position + (entry.central before.length).length = position + (centralRecord before.length entry).length := by
      rw [centralRecord_length]
      rfl
    rw [List.length_cons, Zip.readMembers, central, Option.bind_eq_bind, Option.bind_some, step]
    change (Zip.readLocal bytes before.length).bind _ = _
    rw [header, Option.bind_some]
    change (Zip.slice bytes (before.length + entry.header.length) entry.data.length).bind _ = _
    rw [data, Option.bind_some, tail, directory, members, List.length_append, ← Nat.add_assoc]
    rfl

theorem members_files (entries : List ZipEntry) (offset position : Nat) :
    (members offset position entries).map (fun member => (member.path, member.contents)) =
      entries.map fun entry => (some entry.path, some entry.data) := by
  induction entries generalizing offset position with
  | nil => rfl
  | cons entry rest ih =>
    have utf8 : (0x0800 : Nat).testBit 11 = true := by decide
    have plain : ¬ (0x0800 : Nat).testBit 0 = true := by decide
    have path : Zip.Member.path ⟨position, entry.central offset, entry.header, entry.data⟩ = some entry.path :=
      (if_pos utf8).trans (congrArg some (Utf8.runeText_encode entry.path))
    have contents : Zip.Member.contents ⟨position, entry.central offset, entry.header, entry.data⟩ = some entry.data :=
      if_pos ⟨rfl, plain, rfl⟩
    rw [members, List.map_cons, List.map_cons, ih, contents, path]

theorem members_agree {entries : List ZipEntry} {offset position : Nat} :
    ∀ member ∈ members offset position entries, member.Agrees ∧ member.central.crc = ieeeCrc member.data := by
  induction entries generalizing offset position with
  | nil => exact fun member mem => (by cases mem)
  | cons entry rest ih =>
    intro member mem
    rcases List.mem_cons.mp mem with rfl | later
    · exact ⟨⟨rfl, rfl, rfl, rfl, rfl, rfl, rfl, rfl, rfl⟩, crc32_eq entry.data⟩
    · exact ih member later

theorem members_cover_data (entries : List ZipEntry) (offset position : Nat) :
    Zip.Covers ((members offset position entries).map fun member =>
      (member.central.offset, member.header.length + member.data.length)) offset
      (offset + (localRecords entries).length) := by
  induction entries generalizing offset position with
  | nil => rfl
  | cons entry rest ih =>
    have size : entry.header.length + entry.data.length = (localRecord entry).length := (localRecord_length entry).symm
    have tail := ih (offset + (localRecord entry).length) (position + (centralRecord offset entry).length)
    rw [localRecords_cons, List.length_append, ← Nat.add_assoc]
    refine ⟨rfl, ?_⟩
    change Zip.Covers _ (offset + (entry.header.length + entry.data.length)) _
    rw [size]
    exact tail

theorem members_cover_directory (entries : List ZipEntry) (offset position : Nat) :
    Zip.Covers ((members offset position entries).map fun member => (member.position, member.central.length)) position
      (position + (directory offset entries).length) := by
  induction entries generalizing offset position with
  | nil => rfl
  | cons entry rest ih =>
    have size : (entry.central offset).length = (centralRecord offset entry).length :=
      (centralRecord_length offset entry).symm
    have tail := ih (offset + (localRecord entry).length) (position + (centralRecord offset entry).length)
    rw [directory, List.length_append, ← Nat.add_assoc]
    refine ⟨rfl, ?_⟩
    change Zip.Covers _ (position + (entry.central offset).length) _
    rw [size]
    exact tail

/-- What an archive without extensions has room for. -/
structure Fits (entries : List ZipEntry) : Prop where
  few : entries.length < 256 ^ 2
  names : ∀ entry ∈ entries, entry.name.length < 256 ^ 2
  records : (localRecords entries).length < 256 ^ 4
  directory : (directory 0 entries).length < 256 ^ 4

def archive (entries : List ZipEntry) : Zip.Archive where
  members := members 0 (localRecords entries).length entries
  position := (localRecords entries ++ directory 0 entries).length
  record := ⟨0, 0, entries.length, entries.length, (directory 0 entries).length, (localRecords entries).length, []⟩

theorem decode_buildZip {entries : List ZipEntry} (fits : Fits entries) :
    Zip.decode (buildZip entries) = some (archive entries) := by
  have split : buildZip entries = (localRecords entries ++ directory 0 entries) ++
      endHeader entries.length (directory 0 entries).length (localRecords entries).length := by
    rw [buildZip_eq, List.append_assoc]
  have last : (buildZip entries).length - 22 = (localRecords entries ++ directory 0 entries).length := by
    rw [split, List.length_append, endHeader_length, Nat.add_sub_cancel]
  have found := Zip.findEnd_here (readEnd_record fits.few fits.directory fits.records split)
  have whole : buildZip entries = [] ++ (localRecords entries ++ ([] ++ (directory ([] : Bytes).length entries ++
      endHeader entries.length (directory 0 entries).length (localRecords entries).length))) := buildZip_eq entries
  have read := readMembers_records fits.names (by rw [List.length_nil, Nat.zero_add]; exact fits.records) whole
  rw [List.nil_append, List.append_nil, List.length_nil] at read
  have first : (guard (0 = 0 ∧ 0 = 0 ∧ entries.length = entries.length) : Option Unit) = some () := if_pos ⟨rfl, rfl, rfl⟩
  have second : (guard ((localRecords entries).length + (directory 0 entries).length =
      (localRecords entries).length + (directory 0 entries).length) : Option Unit) = some () := if_pos rfl
  rw [Zip.decode, last, found, Option.bind_eq_bind, Option.bind_some]
  change (guard (0 = 0 ∧ 0 = 0 ∧ entries.length = entries.length) : Option Unit).bind _ = _
  rw [first, Option.bind_some]
  change (Zip.readMembers (buildZip entries) entries.length (localRecords entries).length).bind _ = _
  rw [read, Option.bind_some]
  change (guard ((localRecords entries).length + (directory 0 entries).length =
    (localRecords entries).length + (directory 0 entries).length) : Option Unit).bind _ = _
  rw [second, Option.bind_some]
  rfl

theorem archive_covers (entries : List ZipEntry) : Zip.Covers (archive entries).records 0 (buildZip entries).length := by
  have files := members_cover_data entries 0 (localRecords entries).length
  have listed := members_cover_directory entries 0 (localRecords entries).length
  rw [Nat.zero_add] at files
  have last : Zip.Covers [((archive entries).position, (archive entries).record.length)]
      ((localRecords entries).length + (directory 0 entries).length) (buildZip entries).length := by
    rw [buildZip_eq, List.length_append, List.length_append, endHeader_length, ← Nat.add_assoc]
    exact ⟨List.length_append, rfl⟩
  exact Zip.covers_append (Zip.covers_append files listed) last

/-- All data of the entries. -/
def totalBytes (entries : List ZipEntry) : Nat := (entries.map fun entry => entry.data.length).sum

theorem localRecords_bound {entries : List ZipEntry} (names : ∀ entry ∈ entries, entry.name.length ≤ 512) :
    (localRecords entries).length ≤ entries.length * 542 + totalBytes entries := by
  induction entries with
  | nil => exact Nat.le_refl _
  | cons entry rest ih =>
    obtain ⟨name, later⟩ := List.forall_mem_cons.mp names
    have tail := ih later
    have total : totalBytes (entry :: rest) = entry.data.length + totalBytes rest := List.sum_cons
    rw [localRecords_cons, List.length_append, localRecord_length, List.length_cons, total]
    omega

theorem directory_bound {entries : List ZipEntry} (names : ∀ entry ∈ entries, entry.name.length ≤ 512) (offset : Nat) :
    (directory offset entries).length ≤ entries.length * 558 := by
  induction entries generalizing offset with
  | nil => exact Nat.le_refl _
  | cons entry rest ih =>
    obtain ⟨name, later⟩ := List.forall_mem_cons.mp names
    have tail := ih later (offset + (localRecord entry).length)
    rw [directory, List.length_append, centralRecord_length, List.length_cons]
    omega

theorem skill_fits {entries : List ZipEntry} (few : entries.length ≤ 200) (total : totalBytes entries ≤ 5 * 2 ^ 20)
    (names : ∀ entry ∈ entries, entry.name.length ≤ 512) : Fits entries := by
  have records := localRecords_bound names
  have listed := directory_bound names 0
  refine ⟨by omega, fun entry mem => ?_, by omega, by omega⟩
  have name := names entry mem
  omega

/-- Within the limits of a skill an archive reads back as its entries, header by header
and without a gap, and the checksums are right for any data. -/
theorem archive_reads_back {entries : List ZipEntry} (few : entries.length ≤ 200) (total : totalBytes entries ≤ 5 * 2 ^ 20)
    (names : ∀ entry ∈ entries, entry.name.length ≤ 512) :
    (∃ archive, Zip.decode (buildZip entries) = some archive ∧
      archive.members.map (fun member => (member.path, member.contents)) =
        entries.map (fun entry => (some entry.path, some entry.data)) ∧
      (∀ member ∈ archive.members, member.Agrees ∧ member.central.crc = ieeeCrc member.data) ∧
      Zip.Covers archive.records 0 (buildZip entries).length) ∧
    ∀ data, crc32 data = ieeeCrc data := by
  refine ⟨⟨archive entries, ?_, ?_, members_agree, archive_covers entries⟩, crc32_eq⟩
  · exact decode_buildZip (skill_fits few total names)
  · exact members_files entries 0 _

def twoFiles : List ZipEntry := [⟨"skill/SKILL.md".toList, [104, 105]⟩, ⟨"skill/é".toList, []⟩]

theorem two_files_read_back :
    (∃ archive, Zip.decode (buildZip twoFiles) = some archive ∧
      archive.members.map (fun member => (member.path, member.contents)) =
        twoFiles.map (fun entry => (some entry.path, some entry.data)) ∧
      (∀ member ∈ archive.members, member.Agrees ∧ member.central.crc = ieeeCrc member.data) ∧
      Zip.Covers archive.records 0 (buildZip twoFiles).length) ∧
    ∀ data, crc32 data = ieeeCrc data :=
  archive_reads_back (by decide) (by decide) (by decide)

example : crc32 "123456789".toUTF8.toList = 0xCBF43926 := by decide +kernel

end Dropway.Dashboard
