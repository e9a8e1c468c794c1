import Matcore.Lib.Except

/-!
# JSON values

The values that a JSON reader hands to its client. Members keep their order, and a name may
occur more than once: the first member counts.
-/

inductive Json where
  | null
  | bool (value : Bool)
  | uint (value : UInt64)
  /-- A negative number, one beyond 64 bits, or one with a fraction or an exponent. -/
  | number (text : String)
  | string (value : String)
  | array (items : List Json)
  | object (members : List (String × Json))

namespace Json

def asString : Json → Option String
  | .string value => some value
  | _ => none

def asUint : Json → Option UInt64
  | .uint value => some value
  | _ => none

def asArray : Json → Option (List Json)
  | .array items => some items
  | _ => none

def isObject : Json → Bool
  | .object _ => true
  | _ => false

/-- The value itself, when it is an object. -/
def asObject (value : Json) : Option Json := if value.isObject then some value else none

def member (value : Json) (name : String) : Option Json :=
  match value with
  | .object members => members.lookup name
  | _ => none

@[simp] theorem asString_string (s : String) : (Json.string s).asString = some s := rfl

@[simp] theorem member_object (members : List (String × Json)) (name : String) :
    (Json.object members).member name = members.lookup name := rfl

end Json
