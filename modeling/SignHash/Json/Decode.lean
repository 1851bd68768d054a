import SignHash.Decimal.Nearest
import SignHash.Json.Value

/-!
# Values of a given form

Each function takes a JSON value as a value of one type, or refuses it. A record is an object that
names its fields, each at most once, or an array that lists them in order; objects may have other
entries, arrays may not have further items. A field that is left out is for the record to judge.
-/

namespace SignHash.Json.Value

/-- A text. -/
def asText? : Value → Option String
  | .string literal => literal
  | _ => none

/-- A truth value. -/
def asBool? : Value → Option Bool
  | .bool b => some b
  | _ => none

/-- A natural number below a bound, written without point, exponent or sign. -/
def asNat? (bound : Nat) : Value → Option Nat
  | .number n =>
    if n.integral && !n.negative && n.coefficient < bound then some n.coefficient else none
  | _ => none

/-- A natural number of sixty-four bits. -/
def asWord? (v : Value) : Option Nat := v.asNat? 0x10000000000000000

/-- A byte. -/
def asByte? (v : Value) : Option UInt8 := (v.asNat? 256).map UInt8.ofNat

/-- The binary64 number nearest to a number; one beyond the finite numbers is refused. -/
def asDouble? : Value → Option Double
  | .number n => Decimal.toDouble? n.negative n.coefficient n.exponent
  | _ => none

/-- A list of values of one form. -/
def asList? {α : Type} (item : Value → Option α) : Value → Option (List α)
  | .array items => items.mapM item
  | _ => none

/-- A value that may be absent, written as `null`. -/
def asOption? {α : Type} (content : Value → Option α) : Value → Option (Option α)
  | .null => some none
  | v => (content v).map some

/-! ## Records -/

/-- The values of the entries with a key. -/
def valuesAt (key : String) (entries : List (Literal × Value)) : List Value :=
  (entries.filter fun e => e.1 == some key).map (·.2)

/-- The value of a field in an object; `none` if it occurs twice. -/
def fieldOfObject? (entries : List (Literal × Value)) (key : String) : Option (Option Value) :=
  match valuesAt key entries with
  | [] => some none
  | [value] => some (some value)
  | _ => none

/-- The values of the named fields of a record, in the order of the names. -/
def asFields? (names : List String) : Value → Option (List (Option Value))
  | .object entries =>
    if entries.all fun e => e.1.isSome then names.mapM (fieldOfObject? entries) else none
  | .array items =>
    if items.length ≤ names.length then
      some (items.map some ++ List.replicate (names.length - items.length) none)
    else none
  | _ => none

/-- A field that has to be there. -/
def required {α : Type} (content : Value → Option α) (field : Option Value) : Option α :=
  field.bind content

/-- A field that has a value of its own when it is left out. -/
def optional {α : Type} (absent : α) (content : Value → Option α) : Option Value → Option α
  | none => some absent
  | some v => content v

end SignHash.Json.Value
