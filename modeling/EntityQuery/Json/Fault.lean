import EntityQuery.Json.Value
import EntityQuery.Text.Visible

/-!
# What can be wrong with JSON

Reading a body can fail in two ways: the text is not JSON (`Malformed`), or the value is not of the
shape that was asked for (`Mismatch`).  A `JsonFault` is one of the two, with the place in the text
where it came to light.  A value that was read before has no place any more.
-/

set_option autoImplicit false

namespace EntityQuery

/-- Why a text is not JSON. -/
inductive Malformed
  | endInList
  | endInObject
  | endInString
  | endInValue
  | expectedColon
  | expectedListCommaOrEnd
  | expectedObjectCommaOrEnd
  | expectedIdentifier
  | expectedValue
  | invalidEscape
  | invalidNumber
  | numberOutOfRange
  | invalidCodePoint
  | controlCharacter
  | keyMustBeString
  | loneSurrogate
  | trailingComma
  | trailingCharacters
  | endOfHexEscape
  | nestingLimit
deriving DecidableEq, Repr

/-- Why a value is not of the shape that was asked for. -/
inductive Mismatch
  /-- A value of another kind. -/
  | invalidType (found expected : String)
  /-- A number outside the range. -/
  | invalidValue (found expected : String)
  | invalidLength (length : Nat) (expected : String)
  | missingField (name : String)
  | duplicateField (name : String)
deriving DecidableEq, Repr

namespace Malformed

def message : Malformed → String
  | endInList => "EOF while parsing a list"
  | endInObject => "EOF while parsing an object"
  | endInString => "EOF while parsing a string"
  | endInValue => "EOF while parsing a value"
  | expectedColon => "expected \x60:\x60"
  | expectedListCommaOrEnd => "expected \x60,\x60 or \x60]\x60"
  | expectedObjectCommaOrEnd => "expected \x60,\x60 or \x60\x7d\x60"
  | expectedIdentifier => "expected ident"
  | expectedValue => "expected value"
  | invalidEscape => "invalid escape"
  | invalidNumber => "invalid number"
  | numberOutOfRange => "number out of range"
  | invalidCodePoint => "invalid unicode code point"
  | controlCharacter => "control character (\\u0000-\\u001F) found while parsing a string"
  | keyMustBeString => "key must be a string"
  | loneSurrogate => "lone leading surrogate in hex escape"
  | trailingComma => "trailing comma"
  | trailingCharacters => "trailing characters"
  | endOfHexEscape => "unexpected end of hex escape"
  | nestingLimit => "recursion limit exceeded"

end Malformed

namespace Mismatch

def message : Mismatch → String
  | invalidType found expected => "invalid type: " ++ found ++ ", expected " ++ expected
  | invalidValue found expected => "invalid value: " ++ found ++ ", expected " ++ expected
  | invalidLength length expected =>
    "invalid length " ++ toString length ++ ", expected " ++ expected
  | missingField name => "missing field \x60" ++ name ++ "\x60"
  | duplicateField name => "duplicate field \x60" ++ name ++ "\x60"

end Mismatch

/-- A place in a text: lines count from one, and the column is how many bytes of the line were
read. -/
structure Place where
  line : Nat
  column : Nat
deriving DecidableEq, Repr

/-- What was wrong, and where. -/
structure JsonFault where
  cause : Malformed ⊕ Mismatch
  place : Option Place
deriving DecidableEq

namespace JsonFault

/-- A mismatch of a value that has no place in a text. -/
def ofMismatch (m : Mismatch) : JsonFault := ⟨.inr m, none⟩

/-- The same fault with a place, if it had none. -/
def at? (f : JsonFault) (p : Place) : JsonFault :=
  { f with place := f.place <|> some p }

def message (f : JsonFault) : String :=
  let what := match f.cause with
    | .inl m => m.message
    | .inr m => m.message
  match f.place with
  | none => what
  | some p => what ++ " at line " ++ toString p.line ++ " column " ++ toString p.column

end JsonFault

/-- How a message names a value of an unexpected kind. -/
def Json.described : Json → String
  | .null => "null"
  | .bool b => "boolean \x60" ++ (if b then "true" else "false") ++ "\x60"
  | .number (.integer n) => "integer \x60" ++ toString n ++ "\x60"
  | .number (.float x) => "floating point \x60" ++ FloatLayout.json.text x ++ "\x60"
  | .text s => "string " ++ Text.shown s
  | .array _ => "sequence"
  | .object _ => "map"

end EntityQuery
