import Dropway.Lib.Ascii
import Dropway.Lib.Lenient
import Dropway.Lib.Separated

/-! How the text of a file is cut into pieces for the index (chunkText of
internal/ai/memory_index.go). A text is bytes, and the budget counts them. -/

namespace Dropway.Api
open Lib Utf8

def newline : UInt8 := 10

/-- `strings.LastIndex` of one byte. -/
def lastIndexOf (mark : UInt8) : Bytes → Option Nat
  | [] => none
  | byte :: rest =>
    match lastIndexOf mark rest with
    | some i => some (i + 1)
    | none => if byte = mark then some 0 else none

/-- Where a paragraph beyond the budget is cut: at the last newline within it, unless
that one comes too early. -/
def hardCut (size : Nat) (para : Bytes) : Nat :=
  match lastIndexOf newline (para.take size) with
  | some cut => if cut < size / 2 then size else cut
  | none => size

structure ChunkState where
  chunks : List Bytes
  cur : Bytes

def ChunkState.flush (state : ChunkState) : ChunkState where
  chunks := if trimSpace state.cur ≠ [] then state.chunks ++ [trimSpace state.cur] else state.chunks
  cur := []

/-- The loop over a paragraph that alone exceeds the budget, and what is left of it. -/
def hardSplit (size : Nat) : Nat → ChunkState → Bytes → Option (ChunkState × Bytes)
  | 0, _, _ => none
  | fuel + 1, state, para =>
    if size < para.length then
      let cut := hardCut size para
      let flushed := if state.cur ≠ [] then state.flush else state
      hardSplit size fuel ⟨flushed.chunks ++ [trimSpace (para.take cut)], flushed.cur⟩ (trimSpace (para.drop cut))
    else some (state, para)

/-- The separator is not counted. -/
def ChunkState.append (size : Nat) (state : ChunkState) (para : Bytes) : ChunkState :=
  let flushed := if state.cur ≠ [] ∧ size < state.cur.length + para.length then state.flush else state
  let front := if flushed.cur ≠ [] then flushed.cur ++ [newline, newline] else flushed.cur
  ⟨flushed.chunks, front ++ para⟩

/-- One turn of the loop over the paragraphs. -/
def addPara (size : Nat) (state : ChunkState) (piece : Bytes) : Option ChunkState :=
  let para := trimSpace piece
  if para = [] then some state
  else (hardSplit size (para.length + 1) state para).map fun split => split.1.append size split.2

/-- There is no answer where the loops do not end. -/
def chunkText (size : Nat) (text : Bytes) : Option (List Bytes) :=
  let trimmed := trimSpace text
  if trimmed = [] then some []
  else ((splitPairs newline trimmed).foldlM (addPara size) ⟨[], []⟩).map fun state => state.flush.chunks

end Dropway.Api
