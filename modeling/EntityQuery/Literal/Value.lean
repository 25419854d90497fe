import EntityQuery.Number.Decimal
import EntityQuery.Number.FloatText
import EntityQuery.Calendar.Clock
import EntityQuery.Text.Visible

/-!
# Literal values

`Value` is what a constant in a filter, or an entity key, can be: null, a boolean, a decimal or
binary number, a text, a unique identifier, an instant, a date or a time of day.  A `Literal` is a
value together with a `LiteralType`; the type may say more than the value does (a text that is a
date), and it is the type that decides how the literal is written.

`Value.inspect` and `Literal.inspect` show a constant inside an error message, with everything that
went into it.
-/

set_option autoImplicit false

namespace EntityQuery

/-- A universally unique identifier: a number of 128 bits. -/
structure Uuid where
  number : Fin (Nat.pow 2 128)
deriving DecidableEq

/-- An identifier in five groups of lower case digits. -/
def Uuid.text (u : Uuid) : String :=
  let ds := Text.hexDigits 32 u.number.val
  let group (start len : Nat) : List Char := (ds.drop start).take len
  String.ofList (group 0 8 ++ '-' :: group 8 4 ++ '-' :: group 12 4 ++ '-' :: group 16 4
    ++ '-' :: group 20 12)

/-- A constant. -/
inductive Value
  | null
  | bool (b : Bool)
  | number (n : Decimal)
  | float (x : Binary64)
  | text (s : String)
  | uuid (u : Uuid)
  | timestamp (t : Timestamp)
  | date (d : Date)
  | time (c : Clock)
deriving DecidableEq

/-- The type a literal declares. -/
inductive LiteralType
  | null
  | boolean
  | number
  | string
  | dateTimeOffset
  /-- A calendar day; an instant is cut down to its day. -/
  | date
  | timeOfDay
  /-- A unique identifier; a text is taken as it stands, without quotes. -/
  | guid
deriving DecidableEq, Repr

/-- The name of a type. -/
def LiteralType.name : LiteralType → String
  | .null => "Null"
  | .boolean => "Boolean"
  | .number => "Number"
  | .string => "String"
  | .dateTimeOffset => "DateTimeOffset"
  | .date => "Date"
  | .timeOfDay => "TimeOfDay"
  | .guid => "Guid"

namespace Value

/-- The type a literal has when it declares none. -/
def defaultType : Value → LiteralType
  | null => .null
  | bool _ => .boolean
  | number _ => .number
  | float _ => .number
  | text _ => .string
  | uuid _ => .guid
  | timestamp _ => .dateTimeOffset
  | date _ => .date
  | time _ => .timeOfDay

/-- The parts of a decimal, digits in limbs. -/
def inspectDecimal (n : Decimal) : String :=
  let sign := if n.digits = 0 then "NoSign" else if n.digits < 0 then "Minus" else "Plus"
  let limbs := ", ".intercalate ((Decimal.limbs n.digits.natAbs).map Nat.repr)
  "BigDecimal(sign=" ++ sign ++ ", scale=" ++ toString n.scale ++ ", digits=[" ++ limbs ++ "])"

/-- A value as error messages show it. -/
def inspect : Value → String
  | null => "Null"
  | bool b => "Bool(" ++ (if b then "true" else "false") ++ ")"
  | number n => "Number(" ++ inspectDecimal n ++ ")"
  | float x => "Float(" ++ FloatLayout.inspected.text x ++ ")"
  | text s => "String(" ++ Text.shown s ++ ")"
  | uuid u => "Uuid(" ++ u.text ++ ")"
  | timestamp t => "DateTime(" ++ t.fullText ++ ")"
  | date d => "Date(" ++ d.text ++ ")"
  | time c => "Time(" ++ c.text ++ ")"

end Value

/-- A constant with the type it declares. -/
structure Literal where
  value : Value
  type : LiteralType
deriving DecidableEq

namespace Literal

/-- A literal of the type that its value suggests. -/
def ofValue (v : Value) : Literal := ⟨v, v.defaultType⟩

/-- A literal as error messages show it. -/
def inspect (l : Literal) : String :=
  "Literal \x7b value: " ++ l.value.inspect ++ ", literal_type: " ++ l.type.name ++ " \x7d"

end Literal

end EntityQuery
