import EntityQuery.Predicate

/-!
# Conditions and their variables

A `Condition` describes a predicate in terms of properties of the entity a query is about, and of
the elements that its quantifiers range over.  `Condition.build` makes the predicate.

**Variables.**  The element of a quantifier is reached through a range variable, `p0`, `p1`, and so
on.  Their numbers are given out by a `Numbering`, which all queries made from one another share, so a
variable is never used for two quantifiers.  A quantifier takes its number before its body is built,
and the number stays taken when the body fails.

**Scopes.**  A body may refer to its own element, to those of the quantifiers around it, and to the
entity.  A scope is the variable that its properties start from; the entity's has none.  Inside a
body the path of the collection is left behind, the variable stands for all of it.

**By name.**  A condition may also be built from names, where a slash divides a name into segments.
A property that stands as an operand is then a node of its own.
-/

set_option autoImplicit false

namespace EntityQuery

/-- Where a path starts: the variable of a quantifier, or the entity. -/
structure Scope where
  /-- The variable, if there is one. -/
  root : Option String
deriving DecidableEq, Repr

namespace Scope

/-- The entity a query is about. -/
def entity : Scope := ⟨none⟩

/-- The element that a variable stands for. -/
def element (name : String) : Scope := ⟨some name⟩

/-- The property at a path inside a scope. -/
def property (s : Scope) (path : List String) : Field := ⟨s.root.toList ++ path⟩

end Scope

/-- A path to a property, from the innermost scope or from one counted from the outside. -/
structure PropertyPath where
  scope : Option Nat
  segments : List String
deriving DecidableEq, Repr

/-- The right side of a comparison. -/
inductive Comparand
  | operand (x : Operand)
  | property (path : PropertyPath)

/-- A description of a predicate. -/
inductive Condition
  | compare (c : Comparison) (left : PropertyPath) (right : Comparand)
  | oneOf (left : PropertyPath) (values : List Value)
  /-- Two conditions, built in this order; the second one stands on the left if `swapped`. -/
  | join (joint : Joint) (swapped : Bool) (first second : Condition)
  | fold (joint : Joint) (conditions : List Condition)
  | negate (inner : Condition)
  | quantify (q : Quantifier) (collection : PropertyPath) (body : Condition)
  /-- An expression from outside. -/
  | given (e : Expression)
  /-- A part that could not be described. -/
  | failed (e : QueryError)

/-- Work that gives out numbers, and keeps them given out when it fails. -/
abbrev Numbering := ExceptT QueryError (StateM Nat)

/-- The variable of a number. -/
def variableName (n : Nat) : String := "p" ++ Nat.repr n

/-- The next variable. -/
def Numbering.next : Numbering String := do
  let n ← getModify (· + 1)
  return variableName n

/-- How properties are named. -/
inductive Naming
  /-- By the segments of their paths, from the scope on. -/
  | paths
  /-- By texts that slashes divide. -/
  | names
deriving DecidableEq, Repr

namespace Condition

/-- The scope a path starts from.  Scopes are listed from the outside. -/
def scopeOf (scopes : List Scope) (p : PropertyPath) : Scope :=
  match p.scope with
  | some i => scopes.getD i .entity
  | none => scopes.getLastD .entity

/-- The field that a path leads to. -/
def fieldOf (naming : Naming) (scopes : List Scope) (p : PropertyPath) : Field :=
  match naming with
  | .paths => (scopeOf scopes p).property p.segments
  | .names => Field.ofText ("/".intercalate p.segments)

/-- A comparand as an operand. -/
def operandOf (naming : Naming) (scopes : List Scope) : Comparand → Operand
  | .operand x => x
  | .property p =>
    match naming with
    | .paths => .field (fieldOf naming scopes p)
    | .names => .expression (.ofField (fieldOf naming scopes p))

mutual

/-- Makes the predicate that a condition describes. -/
def build (naming : Naming) (scopes : List Scope) : Condition → Numbering Predicate
  | compare c left right =>
    return Predicate.compare c (fieldOf naming scopes left) (operandOf naming scopes right)
  | oneOf left values => return Predicate.oneOf (fieldOf naming scopes left) values
  | join joint swapped first second => do
    let p ← first.build naming scopes
    let q ← second.build naming scopes
    return if swapped then Predicate.join joint q p else Predicate.join joint p q
  | fold joint conditions => do
    let ps ← buildAll naming scopes conditions
    Predicate.fold joint ps
  | negate inner => do
    let p ← inner.build naming scopes
    return p.negate
  | quantify q collection body => do
    let name ← Numbering.next
    let p ← body.build naming (scopes ++ [.element name])
    return Predicate.quantify q (fieldOf naming scopes collection) name p
  | given e => Predicate.ofExpression e
  | failed e => throw e

/-- Makes several predicates in order. -/
def buildAll (naming : Naming) (scopes : List Scope) : List Condition → Numbering (List Predicate)
  | [] => return []
  | c :: rest => do
    let p ← c.build naming scopes
    let ps ← buildAll naming scopes rest
    return p :: ps

end

/-- The predicate of a condition on an entity, with the next number that is free. -/
def predicate (naming : Naming) (c : Condition) (next : Nat) : Except QueryError Predicate × Nat :=
  (c.build naming [.entity]).run.run next

end Condition

end EntityQuery
