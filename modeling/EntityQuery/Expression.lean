import EntityQuery.Error
import EntityQuery.Literal.Value
import EntityQuery.Projection

/-!
# Expressions

An `Expression` is a node: an operator, its operands, and the node before it.  A **query** is the
newest node of a chain; following `previous` leads back to the oldest.  A **predicate** is a tree of
nodes under the operands of a `predicate` step, and its nodes have none before them.

`Expression.chain` lists the nodes of a chain, newest first.  `Expression.validateFields` checks the
paths among the operands of a node, inner nodes included, and `Expression.projection?` finds the
projection that belongs to a chain: the one of its newest `select`, if that has any.
-/

set_option autoImplicit false

namespace EntityQuery

mutual

/-- A node. -/
inductive Expression
  | node (operator : Operator) (operands : List Operand) (previous : Option Expression)

/-- What a node is applied to. -/
inductive Operand
  | literal (l : Literal)
  | field (f : Field)
  | expression (e : Expression)
  /-- A value that declares no type. -/
  | bare (v : Value)
  | list (items : List Operand)
  /-- The range variable of a quantifier. -/
  | variable (name : String)
  | projection (p : Projection)

end

namespace Expression

def operator : Expression → Operator
  | node o _ _ => o

def operands : Expression → List Operand
  | node _ xs _ => xs

def previous : Expression → Option Expression
  | node _ _ p => p

/-- Whether a node follows another. -/
def isLinked (e : Expression) : Bool := e.previous.isSome

/-- A node that stands alone. -/
def alone (operator : Operator) (operands : List Operand) : Expression :=
  node operator operands none

/-- A constant as a node. -/
def ofLiteral (l : Literal) : Expression := alone .literal [.literal l]

/-- A field as a node. -/
def ofField (f : Field) : Expression := alone .fieldReference [.field f]

/-- The nodes of a chain, newest first. -/
def chain : Expression → List Expression
  | node o xs none => [node o xs none]
  | node o xs (some p) => node o xs (some p) :: p.chain

/-- The nodes of a chain that may have none, newest first. -/
def chainOf : Option Expression → List Expression
  | none => []
  | some e => e.chain

/-- The newest node of a chain of steps, each an operator with its operands, oldest first. -/
def ofSteps (steps : List (Operator × List Operand)) : Option Expression :=
  steps.foldl (fun previous s => some (node s.1 s.2 previous)) none

/-- The projection of a `select` step, if it has one. -/
def ownProjection? (operands : List Operand) : Option Projection :=
  operands.findSome? fun
    | .projection p => some p
    | _ => none

/-- The projection that belongs to a chain. -/
def projection? (e : Expression) : Option Projection :=
  (e.chain.find? (·.operator == .select)).bind fun s => ownProjection? s.operands

end Expression

/-! ## Checking paths -/

mutual

/-- Checks every path among the operands of a node, in order and into inner nodes. -/
def Expression.validateFields : Expression → Except QueryError Unit
  | .node _ operands _ => Operand.validateAll operands

/-- Checks every path inside an operand. -/
def Operand.validateFields : Operand → Except QueryError Unit
  | .field f => f.validate
  | .expression e => e.validateFields
  | .list items => Operand.validateAll items
  | _ => .ok ()

/-- Checks every path inside operands, in order. -/
def Operand.validateAll : List Operand → Except QueryError Unit
  | [] => .ok ()
  | x :: rest => do
    x.validateFields
    Operand.validateAll rest

end

/-! ## Showing nodes in messages -/

mutual

/-- A node as error messages show it, with everything in it. -/
def Expression.inspect : Expression → String
  | .node operator operands none =>
    "Expression \x7b operator: " ++ operator.tag ++ ", operands: ["
      ++ ", ".intercalate (Operand.inspectAll operands) ++ "], previous: None \x7d"
  | .node operator operands (some p) =>
    "Expression \x7b operator: " ++ operator.tag ++ ", operands: ["
      ++ ", ".intercalate (Operand.inspectAll operands) ++ "], previous: Some("
      ++ p.inspect ++ ") \x7d"

/-- An operand as error messages show it. -/
def Operand.inspect : Operand → String
  | .literal l => "Literal(" ++ l.inspect ++ ")"
  | .field f => "Field(" ++ f.inspect ++ ")"
  | .expression e => "Expression(" ++ e.inspect ++ ")"
  | .bare v => "Value(" ++ v.inspect ++ ")"
  | .list items => "List([" ++ ", ".intercalate (Operand.inspectAll items) ++ "])"
  | .variable name => "LambdaVariable(" ++ Text.shown name ++ ")"
  | .projection _ => "Projector(Projector(..))"

/-- Operands as error messages show them. -/
def Operand.inspectAll : List Operand → List String
  | [] => []
  | x :: rest => x.inspect :: Operand.inspectAll rest

end

end EntityQuery
