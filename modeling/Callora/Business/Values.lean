/-
**Values: JSON, slot values, and the customer record.**

`SlotValue` is what a slot holds, with the form it is read back in (`spoken`) and the form a business
action receives (`toActionJson`). `Customer` is the record the business keeps of the caller.

A number of double precision is the rational number it is; an integer a rule compares with a bound
is rounded to double precision first (`asF64`). A confidence is of single precision (`F32`).
-/
import Callora.Text.Time
import Callora.Text.AddressForm
import Std.Data.ExtTreeMap
import Std.Data.ExtTreeSet

set_option linter.unusedSectionVars false

namespace Callora

open Callora.Text

/-- A map ordered by its string keys. -/
abbrev BTreeMap (α : Type) := Std.ExtTreeMap String α compare

/-- A set of strings. -/
abbrev BTreeSet := Std.ExtTreeSet String compare

/-- An integer rounded to the 53 bits of a double, ties to even. -/
def asF64 (n : Int) : ℚ :=
  let k := n.natAbs.log2 + 1 - 53
  let unit := 2 ^ k
  let q := n.natAbs / unit
  let r := n.natAbs % unit
  let q := if unit < 2 * r ∨ (2 * r = unit ∧ q % 2 = 1) then q + 1 else q
  if n < 0 then -(q * unit : Nat) else (q * unit : Nat)

section Json

/-- A JSON value. Objects keep the order their keys were inserted in; a number that is not an
integer keeps its text. -/
inductive Json where
  | null
  | bool (b : Bool)
  | int (n : Int)
  | float (value : ℚ) (text : String)
  | str (s : String)
  | arr (items : List Json)
  | obj (fields : List (String × Json))

namespace Json

/-- `Value::get` on an object. -/
def get : Json → String → Option Json
  | obj fields, key => (fields.find? fun (k, _) => k == key).map Prod.snd
  | _, _ => none

/-- `Value::as_str`. -/
def asStr : Json → Option String
  | str s => some s
  | _ => none

/-- `Value::as_bool`. -/
def asBool : Json → Option Bool
  | bool b => some b
  | _ => none

/-- `Value::as_i64`. -/
def asI64 : Json → Option Int
  | int n => if -2 ^ 63 ≤ n ∧ n < 2 ^ 63 then some n else none
  | _ => none

/-- `Value::as_f64`. -/
def asF64 : Json → Option ℚ
  | .int n => some (Callora.asF64 n)
  | .float value _ => some value
  | _ => none

/-- `json!` of an optional value. -/
def ofOption {α : Type} (f : α → Json) : Option α → Json
  | some a => f a
  | none => null

/-- The hexadecimal digit of a number below sixteen. -/
def hexDigit (n : Nat) : Char := "0123456789abcdef".toList.getD n '0'

/-- A character as it stands in a JSON string. -/
def escape (c : Char) : List Char :=
  let n := c.toNat
  let slash := Char.ofNat 0x5C
  if n = 0x22 ∨ n = 0x5C then [slash, c]
  else if n = 0x08 then [slash, 'b']
  else if n = 0x09 then [slash, 't']
  else if n = 0x0A then [slash, 'n']
  else if n = 0x0C then [slash, 'f']
  else if n = 0x0D then [slash, 'r']
  else if n < 0x20 then [slash, 'u', '0', '0', hexDigit (n / 16), hexDigit (n % 16)]
  else [c]

/-- The double quote that stands around a string. -/
def quoteMark : String := String.ofList [Char.ofNat 0x22]

/-- A JSON string, quoted. -/
def quote (s : String) : String :=
  quoteMark ++ String.ofList (s.toList.map escape).flatten ++ quoteMark

mutual

/-- `Value::to_string`: the compact text of a value. -/
def toText : Json → String
  | null => "null"
  | bool b => if b then "true" else "false"
  | int n => toString n
  | float _ text => text
  | str s => quote s
  | arr items => "[" ++ join "," (itemTexts items) ++ "]"
  | obj fields => "\x7b" ++ join "," (fieldTexts fields) ++ "\x7d"

/-- The texts of an array's items. -/
def itemTexts : List Json → List String
  | [] => []
  | v :: items => v.toText :: itemTexts items

/-- The texts of an object's fields. -/
def fieldTexts : List (String × Json) → List String
  | [] => []
  | (k, v) :: fields => (quote k ++ ":" ++ v.toText) :: fieldTexts fields

end

end Json

end Json

section Slots

/-- `TimeSpec::to_json`: the machine form sent to actions. -/
def timeToJson : TimeSpec → Json
  | .now => .obj [("kind", .str "now")]
  | .inMinutes minutes => .obj [("kind", .str "in_minutes"), ("minutes", .int minutes)]
  | .at hour minute dayOffset =>
    .obj [("kind", .str "at"), ("hour", .int hour), ("minute", .int minute),
      ("day_offset", .int dayOffset)]

/-- What a slot holds. -/
inductive SlotValue where
  | text (text : String)
  /-- How it is spoken back, the full address when known, and the customer place it came from. -/
  | place (spoken : String) (address : Option String) (customerPlace : Option String)
  | integer (value : Int)
  | boolean (value : Bool)
  | time (time : TimeSpec)
  | enum (value : String)
  deriving DecidableEq

namespace SlotValue

/-- `SlotValue::spoken`: the value as the caller hears it read back. -/
def spoken : SlotValue → String
  | .text t => t
  | .place spoken _ _ => spoken
  | .integer value => toString value
  | .boolean value => if value then "כן" else "לא"
  | .time t => t.spoken
  | .enum value => value

/-- `SlotValue::to_action_json`: the value as a business action receives it. -/
def toActionJson : SlotValue → Json
  | .text t => .str t
  | .place spoken address customerPlace =>
    .obj [("spoken", .str spoken), ("address", .str (address.getD spoken)),
      ("customer_place", Json.ofOption .str customerPlace)]
  | .integer value => .int value
  | .boolean value => .bool value
  | .time t => timeToJson t
  | .enum value => .str value

/-- `SlotValue::as_f64`. -/
def asF64 : SlotValue → Option ℚ
  | integer value => some (Callora.asF64 value)
  | _ => none

/-- `SlotValue::matches_json`: loose equality against a configured value. -/
def matchesJson : SlotValue → Json → Bool
  | .integer value, j => j.asI64 == some value
  | .boolean value, .bool b => value == b
  | .enum value, .str s => value == s
  | .text t, .str s => t == s
  | .place spoken _ _, .str s => spoken == s
  | _, _ => false

end SlotValue

/-- Where a value came from. -/
inductive Provenance where
  | rules
  | llm
  | default
  | customer
  | rule
  | confirmed
  deriving DecidableEq

/-- A value understood for a slot. -/
structure SlotFill where
  slot : String
  value : SlotValue
  confidence : F32
  provenance : Provenance
  deriving DecidableEq

end Slots

section Customers

/-- A saved place: how to say it back, and its address. -/
structure CustomerPlace where
  spoken : String
  address : Option String
  deriving DecidableEq

/-- A customer record, as the business's lookup returns it. -/
structure Customer where
  id : Option String
  name : Option String
  places : BTreeMap CustomerPlace
  /-- Anything else the business returned. -/
  data : List (String × Json)

namespace Customer

/-- The record as it is sent to an action: `data` is flattened into it. -/
def toJson (c : Customer) : Json :=
  .obj ([("id", Json.ofOption .str c.id), ("name", Json.ofOption .str c.name),
    ("places", .obj (c.places.toList.map fun (k, p) =>
      (k, .obj [("spoken", .str p.spoken), ("address", Json.ofOption .str p.address)])))] ++ c.data)

end Customer

end Customers

end Callora
