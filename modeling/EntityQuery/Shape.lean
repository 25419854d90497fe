import EntityQuery.Json.Decoder

/-!
# Shapes of records

A query's results may be taken as they come, or in a declared form: a `Shape` names the properties a
record has and what kind each is.  Properties it does not name are left out, and where one may be
missing and is, it becomes null, so that all records of a shape have the same members.  A list of the
values stands for the record too; a property that is merely nullable must not be missing from it.
-/

set_option autoImplicit false

namespace EntityQuery

/-- What a declared property holds. -/
inductive PropertyKind
  | text
  /-- An integer of `width` bits with a sign. -/
  | integer (width : Nat)
deriving DecidableEq, Repr

/-- Whether a declared property has to be there. -/
inductive Presence
  | required
  /-- It may be null, and an object may leave it out. -/
  | nullable
  /-- It may be null or missing, in a list of values too. -/
  | optional
deriving DecidableEq, Repr

/-- A declared property. -/
structure DeclaredProperty where
  name : String
  kind : PropertyKind
  presence : Presence
deriving DecidableEq, Repr

/-- The form of a record. -/
inductive Shape
  /-- Any JSON value. -/
  | any
  | record (name : String) (properties : List DeclaredProperty)
deriving DecidableEq, Repr

namespace Shape

/-- Takes a property's value. -/
def kindDecoder : PropertyKind → Decoder Json
  | .text => Decoder.text.map .text
  | .integer width =>
    let bound := Int.pow 2 (width - 1)
    (Decoder.integer (-bound) (bound - 1) ("i" ++ toString width)).map fun n => .number (.integer n)

/-- Takes a declared property. -/
def propertyOf (p : DeclaredProperty) : Decoder.Property (List (String × Json)) :=
  let nullable (absence : Decoder.Absence) :=
    Decoder.property p.name absence (Decoder.optional (kindDecoder p.kind))
      fun v ms => Json.insertMember p.name (v.getD .null) ms
  match p.presence with
  | .required => Decoder.property p.name .refused (kindDecoder p.kind) (Json.insertMember p.name)
  | .nullable => nullable .allowedByName
  | .optional => nullable .allowed

/-- A declared form as a record of members, all of them null at first. -/
def recordOf (name : String) (properties : List DeclaredProperty) :
    Decoder.Record (List (String × Json)) where
  name := name
  properties := properties.map propertyOf
  initial := properties.foldl (fun ms p => Json.insertMember p.name .null ms) []

/-- Takes a record of the shape. -/
def decoder : Shape → Decoder Json
  | any => Decoder.any
  | record name properties => (Decoder.record (recordOf name properties)).map .object

/-- Takes a record of the shape from members, in the order in which they were read. -/
def ofMembers (s : Shape) (members : List (String × Json)) : Except JsonFault Json :=
  match s with
  | any => .ok (.ofMembers members)
  | record name properties =>
    let r := recordOf name properties
    (r.takeMembers [] r.initial members).map .object

end Shape

end EntityQuery
