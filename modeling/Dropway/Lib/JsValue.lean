import Dropway.Lib.JsonText
import Dropway.Lib.LowerCase

/-! JSON values as JavaScript holds them, with numbers by their shortest decimal digits
and strings by their code units. -/

namespace Dropway.Lib
open Lib.Units

/-- A double that is a number: `±0.d₁d₂… × 10 ^ point` by the fewest digits that read back as it. -/
inductive JsNumber where
  | zero
  | finite (negative : Bool) (first : Fin 10) (rest : List (Fin 10)) (point : Int)
  | infinite (negative : Bool)
  deriving DecidableEq

namespace JsNumber

def isFinite : JsNumber → Bool
  | infinite _ => false
  | _ => true

def digit (d : Fin 10) : UInt16 := UInt16.ofNat (0x30 + d.val)

def whole (digits : List (Fin 10)) : Nat := digits.foldl (fun n d => 10 * n + d.val) 0

/-- The value of a finite number. -/
def value : JsNumber → Rat
  | zero => 0
  | finite negative first rest point =>
    (if negative then -1 else 1) * whole (first :: rest) * (10 : Rat) ^ (point - (rest.length + 1))
  | infinite _ => 0

def zeros (n : Int) : Units := List.replicate n.toNat (unit '0')

/-- `String(number)` -/
def text : JsNumber → Units
  | zero => [unit '0']
  | infinite negative => (if negative then [unit '-'] else []) ++ ofText "Infinity".toList
  | finite negative first rest point =>
    let digits := (first :: rest).map digit
    let size : Int := digits.length
    let exponent := point - 1
    (if negative then [unit '-'] else []) ++
      if size ≤ point ∧ point ≤ 21 then digits ++ zeros (point - size)
      else if 0 < point ∧ point ≤ 21 then digits.take point.toNat ++ unit '.' :: digits.drop point.toNat
      else if -6 < point ∧ point ≤ 0 then unit '0' :: unit '.' :: (zeros (-point) ++ digits)
      else digit first :: ((if rest = [] then [] else unit '.' :: rest.map digit) ++ unit 'e' ::
        (if exponent < 0 then unit '-' else unit '+') :: (JsonText.decimal exponent.natAbs).map unit)

end JsNumber

/-- Names of members are distinct. -/
inductive JsValue where
  | null
  | bool (value : Bool)
  | num (value : JsNumber)
  | str (value : Units)
  | arr (items : List JsValue)
  | obj (members : List (Units × JsValue))

namespace JsValue

/-- A member of an object; there is none where JavaScript answers `undefined`. -/
def member (members : List (Units × JsValue)) (name : String) : Option JsValue := members.lookup (ofText name.toList)

def string? : Option JsValue → Option Units
  | some (str value) => some value
  | _ => none

def finite? : Option JsValue → Option JsNumber
  | some (num value) => if value.isFinite then some value else none
  | _ => none

end JsValue
end Dropway.Lib
