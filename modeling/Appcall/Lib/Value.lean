/-
JSON values, over any type of numbers.

An object is a list of its fields; the first field of a name is the one that is read.
-/

set_option autoImplicit false

namespace Appcall

inductive Value (ν : Type) where
  | null
  | bool (b : Bool)
  | number (n : ν)
  | string (s : String)
  | array (items : List (Value ν))
  | object (fields : List (String × Value ν))

namespace Value

variable {ν : Type}

/-- The field of an object; other values have none. -/
def get (v : Value ν) (name : String) : Option (Value ν) :=
  match v with
  | .object fields => (fields.find? (fun f => f.1 == name)).map Prod.snd
  | _ => none

def is_null : Value ν → Bool
  | .null => true
  | _ => false

def is_object : Value ν → Bool
  | .object _ => true
  | _ => false

def as_str : Value ν → Option String
  | .string s => some s
  | _ => none

end Value

end Appcall
