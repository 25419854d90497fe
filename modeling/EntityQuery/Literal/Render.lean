import EntityQuery.Literal.Value
import EntityQuery.Calendar.Reader
import EntityQuery.Text.Quoted

/-!
# Writing literals

The type of a literal decides how it is written; null is `null` under every type.  Under the date
type a value is cut down to its calendar day, and a text has to name one.  Under the identifier type
a text goes out as it stands.  Every other pairing is written by the value alone.

Only two things cannot be written: a floating point number that is not finite, and a value under the
date type that is no day.
-/

set_option autoImplicit false

namespace EntityQuery

/-- Why a value cannot be written, in words. -/
abbrev Unwritable := String

/-- The text of a value. -/
def Value.render : Value → Except Unwritable String
  | .null => .ok "null"
  | .bool b => .ok (if b then "true" else "false")
  | .number n => .ok n.text
  | .float x =>
    if x.isFinite then .ok (FloatLayout.literal.text x)
    else .error ("non-finite number " ++ FloatLayout.literal.text x)
  | .text s => .ok (Text.Quoted.quote s)
  | .uuid u => .ok u.text
  | .timestamp t => .ok t.text
  | .date d => .ok d.text
  | .time c => .ok c.text

/-- The calendar day of a value. -/
def Value.day : Value → Except Unwritable Date
  | .date d => .ok d
  | .timestamp t => .ok t.date
  | .text s =>
    match Date.ofText? s with
    | some d => .ok d
    | none => .error ("'" ++ s ++ "' is not a date")
  | v => .error (v.inspect ++ " cannot be rendered as a date")

/-- The text of a literal. -/
def Literal.render (l : Literal) : Except Unwritable String :=
  match l.type, l.value with
  | _, .null => .ok "null"
  | .date, v => (v.day).map Date.text
  | .guid, .text s => .ok s
  | _, v => v.render

end EntityQuery
