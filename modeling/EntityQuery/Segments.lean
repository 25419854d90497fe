import EntityQuery.Text.Percent

/-!
# Segments of a request

A query ends up as a few texts, each with its place in the URL: the `Segments`.  The key and `$value`
belong to the path; everything else is a parameter of the query string.

Parameters come in a fixed order, whatever the order of the calls was.  Their values are escaped as
components of a URL: letters, digits and the marks `-_.!~*'()` stay, everything else is written as the
escapes of its bytes, so that no value can end early or be taken for another parameter.
-/

set_option autoImplicit false

namespace EntityQuery

/-- A property to sort by. -/
structure OrderKey where
  field : String
  descending : Bool
deriving DecidableEq

/-- An order key as it is written; ascending order goes without saying. -/
def OrderKey.text (k : OrderKey) : String :=
  if k.descending then k.field ++ " desc" else k.field

/-- The texts of a request, each in its place. -/
structure Segments where
  select : Option (List String)
  orderBy : Option (List OrderKey)
  skip : Option Nat
  top : Option Nat
  filter : Option String
  key : Option String
  count : Bool
  expand : Option (List String)
  value : Bool
deriving DecidableEq

namespace Segments

/-- No segments at all. -/
def empty : Segments := ⟨none, none, none, none, none, none, false, none, false⟩

/-- Characters of a component that stay as they are. -/
def keepsComponent (c : Char) : Bool := c.isAlphanum || "-_.!~*'()".toList.contains c

/-- A text as a component of a URL. -/
def component (s : String) : String := Text.Percent.encode keepsComponent s

/-- The parameters that are present, in order, with their names and plain texts. -/
def parameters (s : Segments) : List (String × String) :=
  (s.filter.map (("$filter", ·))).toList
    ++ (s.orderBy.map fun ks => ("$orderby", ",".intercalate (ks.map OrderKey.text))).toList
    ++ (s.select.map fun fs => ("$select", ",".intercalate fs)).toList
    ++ (s.skip.map fun n => ("$skip", Nat.repr n)).toList
    ++ (s.top.map fun n => ("$top", Nat.repr n)).toList
    ++ (if s.count then [("$count", "true")] else [])
    ++ (s.expand.map fun fs => ("$expand", ",".intercalate fs)).toList

/-- The query string. -/
def queryString (s : Segments) : String :=
  "&".intercalate (s.parameters.map fun p => p.1 ++ "=" ++ component p.2)

/-- The path of a request below an endpoint. -/
def pathText (s : Segments) (endpoint : String) : String :=
  endpoint ++ (match s.key with
    | some k => "(" ++ k ++ ")"
    | none => "")
  ++ if s.value then "/$value" else ""

/-- The URL of a request below an endpoint. -/
def url (s : Segments) (endpoint : String) : String :=
  let query := s.queryString
  if query.isEmpty then s.pathText endpoint else s.pathText endpoint ++ "?" ++ query

end Segments

end EntityQuery
