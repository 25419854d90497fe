import EntityQuery.Filter.Render
import EntityQuery.Segments

/-!
# From a chain to segments

A chain is taken step by step, oldest first, and each step changes the segments in its own way.

* **The last one counts** for `select`, `top`, `skip` and the key.
* **They add up** for sort keys, in the order of the calls.
* **Each once** for expanded properties; and once everything is expanded, naming more of them is not
  even looked at.
* **All of them hold** for filters: a later one is joined to the earlier ones by `and`, and what was
  joined by `or` before is grouped first.

`Segments.Draft` is the state between two steps.  Beyond the segments it remembers whether everything
is expanded, and what joins the words of the filter so far.
-/

set_option autoImplicit false

namespace EntityQuery

/-- Segments that further steps may change. -/
structure Segments.Draft where
  segments : Segments
  expandsAll : Bool
  joint : Option Joint

namespace Segments.Draft

def empty : Draft := ⟨.empty, false, none⟩

/-- The fields of a step, which has to be given fields only. -/
def fieldText (operator : Operator) : Operand → Except QueryError String
  | .field f => f.written
  | x =>
    .error (.invalidExpression
      ("'" ++ operator.name ++ "' expects field references, got " ++ x.inspect))

def isProjection : Operand → Bool
  | .projection _ => true
  | _ => false

/-- The number of entries that a step is given. -/
def countOf (operator : Operator) : List Operand → Except QueryError Nat
  | [.bare (.number n)] =>
    match n.count? with
    | some k => .ok k
    | none => .error (.invalidArgument operator (n.text ++ " is not a non-negative integer"))
  | _ => .error (.unsupportedOperator operator)

/-- The text of an entity key: a literal, a value, or a literal as a node. -/
def keyText : Operand → Except QueryError String
  | .literal l => l.fragment.map Fragment.joined
  | .bare v => v.fragment.map Fragment.joined
  | .expression e =>
    if e.operator = .literal ∧ e.isLinked = false then e.fragment.map Fragment.joined
    else .error (.invalidExpression "an entity key must be a literal value")
  | _ => .error (.invalidExpression "an entity key must be a literal value")

/-- Adds fields to those there are, each once. -/
def addOnce (fields : List String) (f : String) : List String :=
  if fields.contains f then fields else fields ++ [f]

def select (d : Draft) (operands : List Operand) : Except QueryError Draft := do
  let fields ← (operands.filter fun x => !isProjection x).mapM (fieldText .select)
  .ok { d with segments.select := if fields.isEmpty then none else some fields }

def orderBy (d : Draft) (operator : Operator) (descending : Bool) (operands : List Operand) :
    Except QueryError Draft := do
  let fields ← operands.mapM (fieldText operator)
  .ok { d with
    segments.orderBy := some (d.segments.orderBy.getD [] ++ fields.map (⟨·, descending⟩)) }

def expand (d : Draft) (operands : List Operand) : Except QueryError Draft :=
  if d.expandsAll then .ok d
  else do
    let fields ← operands.mapM (fieldText .expand)
    .ok { d with segments.expand := some (fields.foldl addOnce (d.segments.expand.getD [])) }

def key (d : Draft) : List Operand → Except QueryError Draft
  | [x] => (keyText x).map fun k => { d with segments.key := some k }
  | _ => .error (.unsupportedOperator .getByKey)

/-- Joins a predicate to the filter there is. -/
def addFilter (d : Draft) (f : Fragment) : Draft :=
  match d.segments.filter with
  | none => { d with segments.filter := some f.joined, joint := f.joint }
  | some existing =>
    let existing := if d.joint = some .or then "(" ++ existing ++ ")" else existing
    { d with segments.filter := some (existing ++ " and " ++ f.reduce), joint := some .and }

def predicate (d : Draft) : List Operand → Except QueryError Draft
  | [.expression e] =>
    if e.isLinked then .error .linkedPredicate else e.fragment.map d.addFilter
  | _ => .error (.invalidExpression "predicate expects a single predicate expression")

/-- Takes one step of a chain. -/
def step (d : Draft) (e : Expression) : Except QueryError Draft :=
  match e.operator with
  | .select => d.select e.operands
  | .top => (countOf .top e.operands).map fun n => { d with segments.top := some n }
  | .skip => (countOf .skip e.operands).map fun n => { d with segments.skip := some n }
  | .orderBy => d.orderBy .orderBy false e.operands
  | .orderByDescending => d.orderBy .orderByDescending true e.operands
  | .expand => d.expand e.operands
  | .expandAll => .ok { d with segments.expand := some ["*"], expandsAll := true }
  | .getWithCount => .ok { d with segments.count := true }
  | .getByKey => d.key e.operands
  | .value => .ok { d with segments.value := true }
  | .predicate => d.predicate e.operands
  | operator => .error (.unsupportedOperator operator)

end Segments.Draft

/-- The segments of a chain. -/
def Segments.ofChain (head : Option Expression) : Except QueryError Segments :=
  ((Expression.chainOf head).reverse.foldlM Segments.Draft.step .empty).map (·.segments)

end EntityQuery
