import EntityQuery.Number.FloatText
import EntityQuery.Text.Hex

/-!
# JSON values

A number is an integer as long as it fits sixty-four bits, with or without a sign, and otherwise a
double; so a large identifier keeps all its digits.  Members of an object are kept in the order of
their keys, each key once: `insertMember` puts a member in its place, and a later value of a key
replaces an earlier one.

`Json.compact` is the text without any white space.  Only what has to be escaped is: the quote, the backslash and the
controls.
-/

set_option autoImplicit false

namespace EntityQuery

/-- A number as JSON readers keep it. -/
inductive JsonNumber
  | integer (n : Int)
  | float (x : Binary64)
deriving DecidableEq

/-- A JSON value. -/
inductive Json
  | null
  | bool (b : Bool)
  | number (n : JsonNumber)
  | text (s : String)
  | array (items : List Json)
  /-- Members in ascending order of their keys. -/
  | object (members : List (String × Json))
deriving Inhabited

/-- The text of a number. -/
def JsonNumber.text : JsonNumber → String
  | .integer n => toString n
  | .float x => if x.isFinite then FloatLayout.json.text x else "null"

namespace Json

/-- Puts a member into its place, in the place of an earlier one with its key. -/
def insertMember {α : Type} (key : String) (value : α) :
    List (String × α) → List (String × α)
  | [] => [(key, value)]
  | (k, v) :: rest =>
    if key = k then (key, value) :: rest
    else if key < k then (key, value) :: (k, v) :: rest
    else (k, v) :: insertMember key value rest

/-- An object of the given members; of two with one key the later counts. -/
def ofMembers (members : List (String × Json)) : Json :=
  .object (members.foldl (fun ms m => insertMember m.1 m.2 ms) [])

/-- The value of an object's member. -/
def get? (j : Json) (key : String) : Option Json :=
  match j with
  | .object members => members.lookup key
  | _ => none

/-- How one character is written inside a JSON string. -/
def escapeChar (c : Char) : List Char :=
  if c = '"' then ['\\', '"']
  else if c = '\\' then ['\\', '\\']
  else if c = '\n' then ['\\', 'n']
  else if c = '\r' then ['\\', 'r']
  else if c = '\t' then ['\\', 't']
  else if c = '\x08' then ['\\', 'b']
  else if c = '\x0c' then ['\\', 'f']
  else if c.toNat < 0x20 then '\\' :: 'u' :: Text.hexDigits 4 c.toNat
  else [c]

/-- A text as a JSON string. -/
def stringText (s : String) : String :=
  String.ofList ('"' :: s.toList.flatMap escapeChar ++ ['"'])

mutual

/-- The compact text of a value. -/
def compact : Json → String
  | .null => "null"
  | .bool b => if b then "true" else "false"
  | .number n => n.text
  | .text s => stringText s
  | .array items => "[" ++ ",".intercalate (itemTexts items) ++ "]"
  | .object members => "\x7b" ++ ",".intercalate (memberTexts members) ++ "\x7d"

/-- The compact texts of several values. -/
def itemTexts : List Json → List String
  | [] => []
  | j :: rest => j.compact :: itemTexts rest

/-- The compact texts of several members. -/
def memberTexts : List (String × Json) → List String
  | [] => []
  | (k, v) :: rest => (stringText k ++ ":" ++ v.compact) :: memberTexts rest

end

end Json

end EntityQuery
