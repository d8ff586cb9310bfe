import Dropway.Lib.Utf8
import Mathlib.Data.List.Basic

/-! The cleaning of request paths as the Go server has it
(services/serve/internal/route/route.go). A path is a byte string. -/

namespace Dropway.Serve
open Lib

def fromHex (c : UInt8) : Option UInt8 :=
  if 0x30 ≤ c ∧ c ≤ 0x39 then some (c - 0x30)
  else if 0x61 ≤ c ∧ c ≤ 0x66 then some (c - 0x61 + 10)
  else if 0x41 ≤ c ∧ c ≤ 0x46 then some (c - 0x41 + 10)
  else none

/-- The escapes of a path, each read once. -/
def decodeOnce : Bytes → Option Bytes
  | [] => some []
  | c :: rest =>
    if c ≠ 0x25 then (decodeOnce rest).map (c :: ·)
    else
      match rest with
      | high :: low :: rest => do
        let high ← fromHex high
        let low ← fromHex low
        let decoded ← decodeOnce rest
        return (high <<< 4 ||| low) :: decoded
      | _ => none

theorem decodeOnce_literal {c : UInt8} (literal : c ≠ 0x25) (rest : Bytes) :
    decodeOnce (c :: rest) = (decodeOnce rest).map (c :: ·) := by
  rw [decodeOnce.eq_def]
  simp only [if_pos literal]

theorem decodeOnce_escape (high low : UInt8) (rest : Bytes) :
    decodeOnce (0x25 :: high :: low :: rest) =
      (fromHex high).bind fun high => (fromHex low).bind fun low =>
        (decodeOnce rest).map ((high <<< 4 ||| low) :: ·) := by
  rw [decodeOnce.eq_def]
  simp only [ne_eq, not_true_eq_false, if_false]
  cases fromHex high <;> cases fromHex low <;> cases decodeOnce rest <;> rfl

/-- The path before a query or a fragment. -/
def pathPart (rawPath : Bytes) : Bytes := rawPath.takeWhile fun c => c ≠ 0x3F ∧ c ≠ 0x23

def dotDot : Bytes := [0x2E, 0x2E]

/-- The segments that count, and nothing if one of them climbs. -/
def segmentsOf (rel : Bytes) : Option (List Bytes) :=
  let segments := rel.splitOn 0x2F
  if segments.contains dotDot then none
  else some (segments.filter fun segment => segment ≠ [] ∧ segment ≠ [0x2E])

def cleanPath (rawPath : Bytes) : Option Bytes := do
  let decoded ← decodeOnce (pathPart rawPath)
  if decoded.contains 0 ∨ decoded.contains 0x5C then none
  let endedWithSlash := 1 < decoded.length ∧ decoded.getLast? = some 0x2F
  let out ← segmentsOf (decoded.dropWhile (· = 0x2F))
  let rel := [0x2F].intercalate out
  return if endedWithSlash ∧ rel ≠ [] then rel ++ [0x2F] else rel

def isControl (c : UInt8) : Bool := c ≤ 0x20 || c = 0x7F

/-- A path on the same host, and `/` for anything else. -/
def safeNextPath (next : Bytes) : Bytes :=
  if next = [] then [0x2F]
  else
    match decodeOnce next with
    | none => [0x2F]
    | some candidate =>
      if candidate.head? ≠ some 0x2F then [0x2F]
      else if ([0x2F, 0x2F] : Bytes).isPrefixOf candidate then [0x2F]
      else if candidate.contains 0x5C then [0x2F]
      else if candidate.any isControl then [0x2F]
      else candidate

end Dropway.Serve
