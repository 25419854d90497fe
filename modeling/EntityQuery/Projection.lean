import EntityQuery.Json.Value
import EntityQuery.Field

/-!
# Projections

A `Projection` makes a new record out of a returned one: it reads properties, puts them into objects
and lists, and may go on in one way or another by what it reads.  It runs in two ways.

* `Projection.reads` runs it on nothing.  Every property answers null, and what it asks for becomes
  the list of selected fields, each once, in the order of first use (`Projection.fields`).
* `Projection.apply` runs it on a record.

Both are the same run, `Projection.run`, over different answers, so a projection cannot ask for one
thing and read another.  A choice may read more on a record than it did on nothing.
-/

set_option autoImplicit false

namespace EntityQuery

/-- A way to make a record out of another. -/
inductive Projection
  /-- The property at a path; the whole record at the empty path. -/
  | read (path : List String)
  | object (members : List (String × Projection))
  | array (items : List Projection)
  /-- Reads a property and goes on by its value. -/
  | choose (path : List String) (next : Json → Projection)
  | const (value : Json)

namespace Projection

/-- Whether a value that was read counts as set. -/
def isSet : Json → Bool
  | .null => false
  | .bool false => false
  | _ => true

/-- The second projection if a property is null or false, and otherwise the first. -/
def ifSet (path : List String) (whenSet whenUnset : Projection) : Projection :=
  choose path fun value => if isSet value then whenSet else whenUnset

mutual

/-- Runs a projection over a way to answer reads: the paths it reads, in order, and the result. -/
def run (answer : List String → Json) : Projection → List (List String) × Json
  | read path => ([path], answer path)
  | object members =>
    let r := runMembers answer members
    (r.1, .ofMembers r.2)
  | array items =>
    let r := runItems answer items
    (r.1, .array r.2)
  | choose path next =>
    let r := (next (answer path)).run answer
    (path :: r.1, r.2)
  | const value => ([], value)

/-- Runs the projections of an object's members in order. -/
def runMembers (answer : List String → Json) :
    List (String × Projection) → List (List String) × List (String × Json)
  | [] => ([], [])
  | (key, p) :: rest =>
    let r := p.run answer
    let s := runMembers answer rest
    (r.1 ++ s.1, (key, r.2) :: s.2)

/-- Runs projections in order. -/
def runItems (answer : List String → Json) :
    List Projection → List (List String) × List Json
  | [] => ([], [])
  | p :: rest =>
    let r := p.run answer
    let s := runItems answer rest
    (r.1 ++ s.1, r.2 :: s.2)

end

/-- The property of a record at a path.  Only objects have properties; where one is missing the
answer is null. -/
def lookup : List String → Json → Json
  | [], j => j
  | segment :: rest, j =>
    match j.get? segment with
    | some inner => lookup rest inner
    | none => .null

/-- Each element of a list once, in the order of first use. -/
def firstUses {α : Type} [DecidableEq α] (xs : List α) : List α :=
  xs.foldl (fun seen x => if x ∈ seen then seen else seen ++ [x]) []

/-- The paths a projection reads when every property answers null. -/
def reads (p : Projection) : List (List String) := (p.run fun _ => .null).1

/-- The fields to select for a projection.  Reading the whole record selects nothing. -/
def fields (p : Projection) : List Field :=
  (firstUses (p.reads.filter (!·.isEmpty))).map Field.mk

/-- The record that a projection makes out of another. -/
def apply (p : Projection) (record : Json) : Json := (p.run fun path => lookup path record).2

end Projection

end EntityQuery
