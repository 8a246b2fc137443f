import DomainLang.Json.Codec
import DomainLang.Number.Shortest

/-!
# Literal values

The constants that criteria compare with. Texts are shown between quotes as they
are, without escapes.
-/

namespace DomainLang

/-- A constant. -/
inductive Literal where
  | integer (value : Int64)
  | floating (value : Double)
  | string (value : String)
  | boolean (value : Bool)
  | null
  deriving DecidableEq, Repr, Inhabited

namespace Literal

/-- The constant as it is written in the language. -/
def text : Literal → String
  | integer value => toString value.toInt
  | floating value => value.text
  | string value => "\"" ++ value ++ "\""
  | boolean true => "true"
  | boolean false => "false"
  | null => "null"

instance : Codec Literal where
  encode
    | integer value => .tagged "Integer" (encode value)
    | floating value => .tagged "Floating" (encode value)
    | string value => .tagged "String" (encode value)
    | boolean value => .tagged "Boolean" (encode value)
    | null => .text "Null"
  decode json :=
    match json.alternative? with
    | some ("Integer", some content) => (decode content).map integer
    | some ("Floating", some content) => (decode content).map floating
    | some ("String", some content) => (decode content).map string
    | some ("Boolean", some content) => (decode content).map boolean
    | some ("Null", none) => some null
    | some ("Null", some .null) => some null
    | _ => none

end Literal
end DomainLang
