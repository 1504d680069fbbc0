import Yuzora.Secrets
/-!
# Json — values that are read field by field

A value as it is read: a field that is not there is `null`, and a read of the wrong kind gives nothing.
-/
namespace Yuzora

inductive Json
  | null
  | bool (value : Bool)
  | integer (value : Int)
  | float (text : String)
  | string (value : String)
  | array (items : List Json)
  | object (fields : List (String × Json))

namespace Json

variable (value : Json)

variable (field : String)

/-- `value.get(field)`. -/
def field? : Option Json :=
  match value with
  | object fields => (fields.find? fun f => f.1 = field).map Prod.snd
  | _ => none

/-- `value[field]`. -/
def get : Json := (value.field? field).getD null

def asStr : Json → Option String
  | string value => some value
  | _ => none

def asBool : Json → Option Bool
  | bool value => some value
  | _ => none

def asU64 : Json → Option Nat
  | integer value => if 0 ≤ value ∧ value < 18446744073709551616 then some value.toNat else none
  | _ => none

def asArray : Json → Option (List Json)
  | array items => some items
  | _ => none

def isNull : Json → Bool
  | null => true
  | _ => false

mutual

/-- `==` of two values. -/
def beq : Json → Json → Bool
  | null, null => true
  | bool a, bool b => a = b
  | integer a, integer b => a = b
  | float a, float b => a = b
  | string a, string b => a = b
  | array a, array b => beqItems a b
  | object a, object b => beqFields a b
  | _, _ => false

def beqItems : List Json → List Json → Bool
  | [], [] => true
  | a :: as, b :: bs => beq a b && beqItems as bs
  | _, _ => false

def beqFields : List (String × Json) → List (String × Json) → Bool
  | [], [] => true
  | (f, a) :: as, (g, b) :: bs => f = g && beq a b && beqFields as bs
  | _, _ => false

end

/-- `value[field] = new` on an object. -/
def set (new : Json) : Json :=
  match value with
  | object fields =>
    if fields.any fun f => f.1 = field then object (fields.map fun f => if f.1 = field then (f.1, new) else f)
    else object (fields ++ [(field, new)])
  | _ => value

def ofOption : Option String → Json
  | some text => string text
  | none => null

end Json

end Yuzora
