import Romi.DoublePrecision

/-!
# JSON values as the hub receives them

Numbers keep the distinction the hub's readers make: an integer, which may or
may not fit a signed 64-bit field, and any other number, which is the double the
decoder made of it.
-/

namespace Romi.JsonValue

open DoublePrecision

/-- One JSON value; an object keeps its members in order. -/
inductive Json
  /-- The literal null. -/
  | null
  /-- A truth value. -/
  | bool (b : Bool)
  /-- A number written without fraction or exponent. -/
  | int (i : Int)
  /-- Any other number, as a double. -/
  | float (q : Rat)
  /-- A string. -/
  | str (s : String)
  /-- An array. -/
  | arr (items : List Json)
  /-- An object. -/
  | obj (members : List (String × Json))

/-- Largest signed 64-bit integer. -/
def i64Max : Int := 9223372036854775807

/-- Smallest signed 64-bit integer. -/
def i64Min : Int := -9223372036854775808

namespace Json

/-- Member of an object; anything else has none. -/
def get (v : Json) (name : String) : Option Json :=
  match v with
  | .obj members => members.lookup name
  | _ => none

/-- `as_i64`: an integer in the signed 64-bit range. -/
def asInt (v : Json) : Option Int :=
  match v with
  | .int i => if i64Min ≤ i ∧ i ≤ i64Max then some i else none
  | _ => none

/-- `as_f64`: any number; an integer is rounded to a double, and a decoded number
is finite. -/
def asFloat (v : Json) : Option Rat :=
  match v with
  | .int i => some (nearest i)
  | .float q => some q
  | _ => none

/-- A double as it is serialized: only numbers have a text. -/
def ofDouble : Double → Json
  | .finite q => .float q
  | _ => .null

/-- What is read back of it; nothing stands for no number. -/
theorem asFloat_ofDouble (v : Double) : (ofDouble v).asFloat.getD 0 = v.value := by
  cases v <;> rfl

/-- `as_str`: a string. -/
def asStr (v : Json) : Option String :=
  match v with
  | .str s => some s
  | _ => none

end Json

end Romi.JsonValue
