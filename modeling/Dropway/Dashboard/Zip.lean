import Dropway.Lib.Bitwise
import Dropway.Lib.LittleEndian

/-! The ZIP writer behind the downloads of skills and sites (lib/zip.ts). -/

namespace Dropway.Dashboard
open Lib LittleEndian

def crcStep (c : Int) : Int :=
  if Bitwise.and c 1 ≠ 0 then Bitwise.xor 0xEDB88320 (Bitwise.shiftRight c 1) else Bitwise.shiftRight c 1

def crcTable : List Nat :=
  (List.range 256).map fun (n : Nat) => Bitwise.shiftRight ((List.range 8).foldl (fun c _ => crcStep c) n) 0

def crcByte (crc : Int) (byte : UInt8) : Int :=
  Bitwise.xor (crcTable[(Bitwise.and (Bitwise.xor crc byte.toNat) 0xFF).toNat]?.getD 0) (Bitwise.shiftRight crc 8)

def crc32 (data : Bytes) : Nat := Bitwise.shiftRight (Bitwise.xor (data.foldl crcByte 0xFFFFFFFF) 0xFFFFFFFF) 0

structure ZipEntry where
  path : Text
  data : Bytes
  deriving DecidableEq

def localFields (crc size nameLength : Nat) : List SetUint :=
  [⟨0, 4, 0x04034b50⟩, ⟨4, 2, 20⟩, ⟨6, 2, 0x0800⟩, ⟨8, 2, 0⟩, ⟨10, 2, 0⟩, ⟨12, 2, 0⟩, ⟨14, 4, crc⟩, ⟨18, 4, size⟩,
   ⟨22, 4, size⟩, ⟨26, 2, nameLength⟩, ⟨28, 2, 0⟩]

/-- Extra field, comment, disk and attributes stay zero. -/
def centralFields (crc size nameLength offset : Nat) : List SetUint :=
  [⟨0, 4, 0x02014b50⟩, ⟨4, 2, 20⟩, ⟨6, 2, 20⟩, ⟨8, 2, 0x0800⟩, ⟨10, 2, 0⟩, ⟨12, 2, 0⟩, ⟨14, 2, 0⟩, ⟨16, 4, crc⟩,
   ⟨20, 4, size⟩, ⟨24, 4, size⟩, ⟨28, 2, nameLength⟩, ⟨42, 4, offset⟩]

def endFields (count centralSize offset : Nat) : List SetUint :=
  [⟨0, 4, 0x06054b50⟩, ⟨8, 2, count⟩, ⟨10, 2, count⟩, ⟨12, 4, centralSize⟩, ⟨16, 4, offset⟩]

def localHeader (crc size nameLength : Nat) : Bytes :=
  setUints (List.replicate 30 0) (localFields crc size nameLength)

def centralHeader (crc size nameLength offset : Nat) : Bytes :=
  setUints (List.replicate 46 0) (centralFields crc size nameLength offset)

def endHeader (count centralSize offset : Nat) : Bytes :=
  setUints (List.replicate 22 0) (endFields count centralSize offset)

/-- What the loop over the entries has made so far. -/
structure ZipParts where
  chunks : List Bytes
  central : List Bytes
  offset : Nat

def addEntry (zip : ZipParts) (entry : ZipEntry) : ZipParts :=
  let name := Utf8.encode entry.path
  let crc := crc32 entry.data
  let size := entry.data.length
  { chunks := zip.chunks ++ [localHeader crc size name.length, name, entry.data]
    central := zip.central ++ [centralHeader crc size name.length zip.offset, name]
    offset := zip.offset + (30 + name.length + size) }

/-- The chunks are copied one after the other, each to where the last one ended. -/
def copyChunks (chunks : List Bytes) : Bytes :=
  let total := (chunks.map List.length).sum
  (chunks.foldl (fun out chunk => (overwrite out.2 chunk out.1, out.2 + chunk.length)) (List.replicate total 0, 0)).1

def buildZip (entries : List ZipEntry) : Bytes :=
  let zip := entries.foldl addEntry ⟨[], [], 0⟩
  let centralSize := (zip.central.map List.length).sum
  copyChunks (zip.chunks ++ (zip.central ++ [endHeader entries.length centralSize zip.offset]))

end Dropway.Dashboard
