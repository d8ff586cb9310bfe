import Dropway.Lib.Utf8

/-! JSON values as a program sees them once the text has been parsed. The
members of an object have distinct names and stand in property order. -/

namespace Dropway.Lib

inductive Json where
  | null
  | bool (value : Bool)
  | num (value : Rat)
  | str (value : String)
  | arr (items : List Json)
  | obj (members : List (String × Json))

namespace Json

/-- The value of a member of an object; `none` is `undefined`. -/
def member (members : List (String × Json)) (name : String) : Option Json :=
  (members.find? (·.1 = name)).map (·.2)

end Json
end Dropway.Lib
