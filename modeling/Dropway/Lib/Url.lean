import Dropway.Lib.Utf8

/-! The record that a URL parser gives, its getters and its serialization (the URL
standard). The parser itself is left to those who use it. -/

namespace Dropway.Lib

structure UrlRecord where
  scheme : Text
  username : Text
  password : Text
  host : Option Text
  port : Option Nat
  pathname : Text
  query : Option Text
  fragment : Option Text
  deriving DecidableEq

/-- `none` where parsing fails. -/
abbrev UrlParser := Text → Option UrlRecord

namespace UrlRecord

variable (url : UrlRecord)

def protocol : Text := url.scheme ++ [':']

def hostname : Text := url.host.getD []

def portText : Text := (url.port.map (Nat.toDigits 10)).getD []

/-- A part that is there but empty reads like one that is not there. -/
def marked (mark : Char) : Option Text → Text
  | none => []
  | some [] => []
  | some part => mark :: part

def search : Text := marked '?' url.query

def hash : Text := marked '#' url.fragment

/-! ### Serialization -/

def credentials : Text :=
  if url.username = [] ∧ url.password = [] then []
  else url.username ++ (if url.password = [] then [] else ':' :: url.password) ++ ['@']

/-- Without a host, a path of two slashes would read as one. -/
def authority : Text :=
  match url.host with
  | some host => "//".toList ++ url.credentials ++ host ++ ((url.port.map fun port => ':' :: Nat.toDigits 10 port).getD [])
  | none => if Text.startsWith url.pathname "//".toList then "/.".toList else []

def href : Text :=
  url.protocol ++ url.authority ++ url.pathname ++ ((url.query.map fun query => '?' :: query).getD []) ++
    ((url.fragment.map fun fragment => '#' :: fragment).getD [])

end UrlRecord
end Dropway.Lib
