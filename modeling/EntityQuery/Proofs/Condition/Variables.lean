import EntityQuery.Query
import Mathlib.Data.List.Forall2
import Mathlib.Data.List.Nodup

/-!
# Variables and their scopes

Every quantifier of a condition takes the next number when it is evaluated, and with it the range
variable that its element goes by.  Numbers are given out by one numbering for all queries made from
one another, so what matters is not a single condition but all that are built from that numbering, one
after the other, whether or not they can be built in the end.

* `Condition.evaluated` says how many quantifiers are evaluated.  Behind a fault there are none.
* `Expression.variables` and `Expression.fields` look at a tree that was built: which variables its
  quantifiers have, and which fields it refers to, each with the variables of the quantifiers in whose
  bodies it lies.
* `Condition.sources` says for each of those fields what it was taken from: the entity, the element of
  a certain quantifier, or an expression from outside.

`Condition.run_build` is what building one condition does, by induction on it; the numbers that it
starts from and the quantifiers around it are arbitrary there.  `Condition.predicates_variables` is what
follows for any number of them.
-/

set_option autoImplicit false

namespace EntityQuery

/-! ## Trees -/

mutual

/-- The range variables of a tree, in reading order. -/
def Expression.variables : Expression → List String
  | .node _ operands _ => Operand.variablesAll operands

/-- The range variables of an operand. -/
def Operand.variables : Operand → List String
  | .expression e => e.variables
  | .list items => Operand.variablesAll items
  | .variable name => [name]
  | _ => []

/-- The range variables of operands. -/
def Operand.variablesAll : List Operand → List String
  | [] => []
  | x :: rest => x.variables ++ Operand.variablesAll rest

end

/-- A field in a tree, with the variables of the quantifiers in whose bodies it lies, outermost
first. -/
structure Occurrence where
  around : List String
  field : Field

/-- The range variable that an operand is, if it is one. -/
def Operand.bound : Operand → List String
  | .variable name => [name]
  | _ => []

mutual

/-- The fields of a tree that lies inside the bodies of some quantifiers, in reading order. -/
def Expression.fields (around : List String) : Expression → List Occurrence
  | .node _ operands _ => Operand.fieldsAll around operands

/-- The fields of an operand. -/
def Operand.fields (around : List String) : Operand → List Occurrence
  | .field f => [⟨around, f⟩]
  | .expression e => e.fields around
  | .list items => Operand.fieldsAll around items
  | _ => []

/-- The fields of operands.  What stands behind a range variable is the body of its quantifier. -/
def Operand.fieldsAll (around : List String) : List Operand → List Occurrence
  | [] => []
  | x :: rest => x.fields around ++ Operand.fieldsAll (around ++ x.bound) rest

end

section

variable (operator : Operator) (operands : List Operand) (x : Operand) (rest : List Operand)
  (e : Expression) (f : Field) (name : String) (items : List Operand) (around : List String)

@[simp] theorem Expression.variables_alone :
    (alone operator operands).variables = Operand.variablesAll operands := rfl
@[simp] theorem Operand.variables_field : (field f).variables = [] := rfl
@[simp] theorem Operand.variables_expression : (expression e).variables = e.variables := rfl
@[simp] theorem Operand.variables_variable : (Operand.variable name).variables = [name] := rfl
@[simp] theorem Operand.variables_list : (list items).variables = variablesAll items := rfl
@[simp] theorem Operand.variablesAll_nil : variablesAll [] = [] := rfl
@[simp] theorem Operand.variablesAll_cons :
    variablesAll (x :: rest) = x.variables ++ variablesAll rest := rfl

@[simp] theorem Operand.bound_field : (field f).bound = [] := rfl
@[simp] theorem Operand.bound_expression : (expression e).bound = [] := rfl
@[simp] theorem Operand.bound_variable : (Operand.variable name).bound = [name] := rfl

@[simp] theorem Expression.fields_alone :
    (alone operator operands).fields around = Operand.fieldsAll around operands := rfl
@[simp] theorem Operand.fields_field : (field f).fields around = [⟨around, f⟩] := rfl
@[simp] theorem Operand.fields_expression : (expression e).fields around = e.fields around := rfl
@[simp] theorem Operand.fields_variable : (Operand.variable name).fields around = [] := rfl
@[simp] theorem Operand.fields_list : (list items).fields around = fieldsAll around items := rfl
@[simp] theorem Operand.fieldsAll_nil : fieldsAll around [] = [] := rfl
@[simp] theorem Operand.fieldsAll_cons :
    fieldsAll around (x :: rest) = x.fields around ++ fieldsAll (around ++ x.bound) rest := rfl

end

namespace Predicate

/-! Combining predicates puts together their variables and their fields. -/

theorem variables_compare (c : Comparison) (f : Field) (x : Operand) :
    (compare c f x).expression.variables = x.variables := by
  simp [compare, alone]

theorem fields_compare (c : Comparison) (f : Field) (x : Operand) (around : List String) :
    (compare c f x).expression.fields around = ⟨around, f⟩ :: x.fields around := by
  simp [compare, alone]

theorem variables_oneOf (f : Field) (values : List Value) :
    (oneOf f values).expression.variables = [] := by
  have h : Operand.variablesAll (values.map fun v => .literal (.ofValue v)) = [] := by
    induction values with
    | nil => rfl
    | cons v rest ih => exact ih
  simp [oneOf, alone, h]

theorem fields_oneOf (f : Field) (values : List Value) (around : List String) :
    (oneOf f values).expression.fields around = [⟨around, f⟩] := by
  have h : Operand.fieldsAll around (values.map fun v => .literal (.ofValue v)) = [] := by
    induction values with
    | nil => rfl
    | cons v rest ih =>
      show Operand.fieldsAll (around ++ []) _ = []
      rw [List.append_nil, ih]
  simp [oneOf, alone, h]

theorem variables_join (j : Joint) (p q : Predicate) :
    (join j p q).expression.variables = p.expression.variables ++ q.expression.variables := by
  simp [join, alone]

theorem fields_join (j : Joint) (p q : Predicate) (around : List String) :
    (join j p q).expression.fields around =
      p.expression.fields around ++ q.expression.fields around := by
  simp [join, alone]

theorem variables_negate (p : Predicate) :
    p.negate.expression.variables = p.expression.variables := by
  simp [negate, alone]

theorem fields_negate (p : Predicate) (around : List String) :
    p.negate.expression.fields around = p.expression.fields around := by
  simp [negate, alone]

theorem variables_quantify (q : Quantifier) (f : Field) (name : String) (p : Predicate) :
    (quantify q f name p).expression.variables = name :: p.expression.variables := by
  simp [quantify, alone]

theorem fields_quantify (q : Quantifier) (f : Field) (name : String) (p : Predicate)
    (around : List String) :
    (quantify q f name p).expression.fields around =
      ⟨around, f⟩ :: p.expression.fields (around ++ [name]) := by
  simp [quantify, alone]

theorem variables_foldl (j : Joint) (p : Predicate) (ps : List Predicate) :
    (ps.foldl (join j) p).expression.variables =
      (p :: ps).flatMap fun q => q.expression.variables := by
  induction ps generalizing p with
  | nil => simp
  | cons q rest ih => rw [List.foldl_cons, ih]; simp [variables_join]

theorem fields_foldl (j : Joint) (p : Predicate) (ps : List Predicate) (around : List String) :
    (ps.foldl (join j) p).expression.fields around =
      (p :: ps).flatMap fun q => q.expression.fields around := by
  induction ps generalizing p with
  | nil => simp
  | cons q rest ih => rw [List.foldl_cons, ih]; simp [fields_join]

end Predicate

/-! The fields themselves do not depend on where a tree lies. -/

mutual

theorem Expression.map_field_fields (e : Expression) (around : List String) :
    (e.fields around).map Occurrence.field = (e.fields []).map Occurrence.field := by
  match e with
  | .node operator operands previous =>
    exact Operand.map_field_fieldsAll operands around []

theorem Operand.map_field_fields (x : Operand) (around other : List String) :
    (x.fields around).map Occurrence.field = (x.fields other).map Occurrence.field := by
  match x with
  | .expression e =>
    rw [Operand.fields_expression, Operand.fields_expression, e.map_field_fields around,
      e.map_field_fields other]
  | .list items => exact Operand.map_field_fieldsAll items around other
  | .field _ | .literal _ | .bare _ | .variable _ | .projection _ => rfl

theorem Operand.map_field_fieldsAll (xs : List Operand) (around other : List String) :
    (Operand.fieldsAll around xs).map Occurrence.field =
      (Operand.fieldsAll other xs).map Occurrence.field := by
  match xs with
  | [] => rfl
  | x :: rest =>
    rw [Operand.fieldsAll_cons, Operand.fieldsAll_cons, List.map_append, List.map_append,
      x.map_field_fields around other,
      Operand.map_field_fieldsAll rest (around ++ x.bound) (other ++ x.bound)]

end

/-! ## Conditions -/

/-- What a field of a tree was taken from. -/
inductive Source
  | entity (path : List String)
  /-- The element of a quantifier, told by the number that the quantifier has. -/
  | element (number : Nat) (path : List String)
  /-- An expression that was not made here. -/
  | outside (f : Field)

/-- A field is as it should be.  What was taken from an element begins with the variable of that
quantifier, and lies inside its body. -/
def Source.Matches : Source → Occurrence → Prop
  | entity path, o => o.field.path = path
  | element number path, o =>
    variableName number ∈ o.around ∧ o.field.path = variableName number :: path
  | outside f, o => o.field = f

/-- The number of the quantifier whose element a path starts from, inside quantifiers of the numbers
`enclosing`, outermost first.  A path from the entity has none. -/
def PropertyPath.element? (enclosing : List Nat) (p : PropertyPath) : Option Nat :=
  match p.scope with
  | none => enclosing.getLast?
  | some 0 => none
  | some (i + 1) => enclosing[i]?

/-- What a path leads to, inside quantifiers of the numbers `enclosing`. -/
def PropertyPath.source (enclosing : List Nat) (p : PropertyPath) : Source :=
  match p.element? enclosing with
  | some number => .element number p.segments
  | none => .entity p.segments

/-- The variables of numbers from `next` on. -/
def variableNames (next n : Nat) : List String := (List.range' next n).map variableName

theorem repr_injective : Function.Injective Nat.repr := by
  intro m n h
  have hlist := congrArg String.toList h
  rw [Nat.toList_repr, Nat.toList_repr] at hlist
  simpa using congrArg (fun ds => Nat.ofDigitChars 10 ds 0) hlist

theorem variableName_injective : Function.Injective variableName := fun _ _ h =>
  repr_injective ((String.append_right_inj "p").1 h)

theorem nodup_variableNames (next n : Nat) : (variableNames next n).Nodup := by
  have hnumbers : (List.range' next n).Nodup := List.nodup_range'
  exact hnumbers.map variableName_injective

theorem variableNames_add (next m n : Nat) :
    variableNames next (m + n) = variableNames next m ++ variableNames (next + m) n := by
  rw [variableNames, ← List.range'_append_1, List.map_append, ← variableNames, ← variableNames]

theorem variableNames_succ (next n : Nat) :
    variableNames next (n + 1) = variableName next :: variableNames (next + 1) n := by
  rw [variableNames, List.range'_succ, List.map_cons, ← variableNames]

example : variableNames 9 2 = ["p9", "p10"] := by decide

namespace Condition

mutual

/-- Whether a condition cannot be built. -/
def fails : Condition → Bool
  | compare _ _ _ => false
  | oneOf _ _ => false
  | join _ _ first second => first.fails || second.fails
  | fold _ conditions => conditions.isEmpty || failsAny conditions
  | negate inner => inner.fails
  | quantify _ _ body => body.fails
  | given e => e.isLinked || e.operator.isQuery
  | failed _ => true

/-- Whether one of several conditions cannot be built. -/
def failsAny : List Condition → Bool
  | [] => false
  | c :: rest => c.fails || failsAny rest

end

mutual

/-- How many quantifiers are evaluated while a condition is built: all of them, if nothing fails, and
otherwise those in front of the first fault. -/
def evaluated : Condition → Nat
  | compare _ _ _ => 0
  | oneOf _ _ => 0
  | join _ _ first second => first.evaluated + if first.fails then 0 else second.evaluated
  | fold _ conditions => evaluatedAll conditions
  | negate inner => inner.evaluated
  | quantify _ _ body => body.evaluated + 1
  | given _ => 0
  | failed _ => 0

/-- How many quantifiers are evaluated while conditions are built in order. -/
def evaluatedAll : List Condition → Nat
  | [] => 0
  | c :: rest => c.evaluated + if c.fails then 0 else evaluatedAll rest

end

mutual

/-- The range variables in expressions from outside. -/
def outsideVariables : Condition → List String
  | compare _ _ (.operand x) => x.variables
  | compare _ _ (.property _) => []
  | oneOf _ _ => []
  | join _ _ first second => first.outsideVariables ++ second.outsideVariables
  | fold _ conditions => outsideVariablesAll conditions
  | negate inner => inner.outsideVariables
  | quantify _ _ body => body.outsideVariables
  | given e => e.variables
  | failed _ => []

/-- The range variables in expressions from outside, of several conditions. -/
def outsideVariablesAll : List Condition → List String
  | [] => []
  | c :: rest => c.outsideVariables ++ outsideVariablesAll rest

end

mutual

/-- What the fields of a tree are taken from, in reading order.  The condition stands inside
quantifiers of the numbers `enclosing`, and its own quantifiers take numbers from `next` on, in the
order of their evaluation. -/
def sources (enclosing : List Nat) (next : Nat) : Condition → List Source
  | compare _ left (.operand x) =>
    left.source enclosing :: (x.fields []).map fun o => .outside o.field
  | compare _ left (.property right) => [left.source enclosing, right.source enclosing]
  | oneOf left _ => [left.source enclosing]
  | join _ swapped first second =>
    let one := first.sources enclosing next
    let two := second.sources enclosing (next + first.evaluated)
    if swapped then two ++ one else one ++ two
  | fold _ conditions => sourcesAll enclosing next conditions
  | negate inner => inner.sources enclosing next
  | quantify _ collection body =>
    collection.source enclosing :: body.sources (enclosing ++ [next]) (next + 1)
  | given e => (e.fields []).map fun o => .outside o.field
  | failed _ => []

/-- What the fields of several trees are taken from. -/
def sourcesAll (enclosing : List Nat) (next : Nat) : List Condition → List Source
  | [] => []
  | c :: rest => c.sources enclosing next ++ sourcesAll enclosing (next + c.evaluated) rest

end

/-! ## Building -/

/-- What comes of work that gives out numbers from `next` on: it takes `n` of them, and either it
fails, or its result is good. -/
structure Outcome {α : Type} (fails : Bool) (n next : Nat) (good : α → Prop)
    (r : Except QueryError α × Nat) : Prop where
  later : r.2 = next + n
  fails_iff : fails = true ↔ ∃ e, r.1 = .error e
  good : ∀ a, r.1 = .ok a → good a

namespace Outcome

variable {α β : Type} {next : Nat} {good : α → Prop} {good' : β → Prop}

theorem pure {a : α} (h : good a) : Outcome false 0 next good (.ok a, next) :=
  ⟨rfl, by simp, fun b hb => Except.ok.inj hb ▸ h⟩

theorem error (e : QueryError) : Outcome true 0 next good (.error e, next) :=
  ⟨rfl, by simp, nofun⟩

/-- Work on a result begins with the number behind those that were taken for it. -/
theorem bind {x : Numbering α} {f : α → Numbering β} {fails fails' : Bool} {m n : Nat}
    (hx : Outcome fails m next good (x.run.run next))
    (hf : fails = false → ∀ a, good a →
      Outcome fails' n (next + m) good' ((f a).run.run (next + m))) :
    Outcome (fails || fails') (m + if fails then 0 else n) next good'
      ((x >>= f).run.run next) := by
  rw [ExceptT.run_bind, StateT.run_bind]
  generalize x.run.run next = r at hx
  obtain ⟨result, later⟩ := r
  obtain rfl : later = next + m := hx.later
  cases result with
  | error e =>
    obtain rfl : fails = true := hx.fails_iff.2 ⟨e, rfl⟩
    exact ⟨rfl, iff_of_true rfl ⟨e, rfl⟩, nofun⟩
  | ok a =>
    obtain rfl : fails = false := by simpa using hx.fails_iff
    have h := hf rfl a (hx.good a rfl)
    exact ⟨by rw [if_neg Bool.false_ne_true, ← Nat.add_assoc]; exact h.later, h.fails_iff, h.good⟩

/-- Nothing more is taken for what is made of a result. -/
theorem map {x : Numbering α} {g : α → β} {fails : Bool} {n : Nat}
    (hx : Outcome fails n next good (x.run.run next)) (hg : ∀ a, good a → good' (g a)) :
    Outcome fails n next good' ((x >>= fun a => Pure.pure (g a)).run.run next) := by
  have h : Outcome (fails || false) (n + if fails then 0 else 0) next good'
      ((x >>= fun a => Pure.pure (g a)).run.run next) :=
    hx.bind fun _ a ha => pure (hg a ha)
  rw [Bool.or_false, ite_self, Nat.add_zero] at h
  exact h

end Outcome

/-- Taking a number. -/
theorem outcome_next (next : Nat) :
    Outcome false 1 next (· = variableName next) (Numbering.next.run.run next) :=
  ⟨rfl, iff_of_false Bool.false_ne_true nofun, fun _ h => (Except.ok.inj h).symm⟩

/-- The scopes inside quantifiers of some numbers. -/
def scopes (enclosing : List Nat) : List Scope :=
  .entity :: enclosing.map fun n => .element (variableName n)

theorem scopes_append (enclosing : List Nat) (n : Nat) :
    scopes (enclosing ++ [n]) = scopes enclosing ++ [.element (variableName n)] := by
  simp [scopes]

theorem scopeOf_scopes (enclosing : List Nat) (p : PropertyPath) :
    scopeOf (scopes enclosing) p =
      ((p.element? enclosing).map fun n => .element (variableName n)).getD .entity := by
  obtain ⟨scope, segments⟩ := p
  match scope with
  | none => simp [scopeOf, scopes, PropertyPath.element?, List.getLast?_cons]
  | some 0 => simp [scopeOf, scopes, PropertyPath.element?]
  | some (i + 1) => simp [scopeOf, scopes, PropertyPath.element?, List.getD]

theorem mem_of_element? {enclosing : List Nat} {p : PropertyPath} {n : Nat}
    (h : p.element? enclosing = some n) : n ∈ enclosing := by
  obtain ⟨scope, segments⟩ := p
  match scope with
  | none => exact List.mem_of_getLast? h
  | some 0 => cases h
  | some (i + 1) => exact List.mem_of_getElem? h

/-- A path leads to a field that is as it should be. -/
theorem matches_source (enclosing : List Nat) (p : PropertyPath) :
    (p.source enclosing).Matches
      ⟨enclosing.map variableName, fieldOf .paths (scopes enclosing) p⟩ := by
  rw [fieldOf, scopeOf_scopes, PropertyPath.source]
  cases h : p.element? enclosing with
  | none => exact rfl
  | some n => exact ⟨List.mem_map_of_mem (mem_of_element? h), rfl⟩

/-- A tree is as it should be: inside quantifiers of the numbers `enclosing`, its own quantifiers have
the variables from `next` on, each of them one, and its fields are what they were taken from. -/
structure IsBuilt (c : Condition) (enclosing : List Nat) (next : Nat) (p : Predicate) : Prop where
  perm :
    p.expression.variables.Perm (variableNames next c.evaluated ++ c.outsideVariables)
  fields :
    List.Forall₂ Source.Matches (c.sources enclosing next)
      (p.expression.fields (enclosing.map variableName))

/-- Several trees are as they should be. -/
structure AreBuilt (cs : List Condition) (enclosing : List Nat) (next : Nat) (ps : List Predicate) :
    Prop where
  length : ps.length = cs.length
  perm :
    (ps.flatMap fun p => p.expression.variables).Perm
      (variableNames next (evaluatedAll cs) ++ outsideVariablesAll cs)
  fields :
    List.Forall₂ Source.Matches (sourcesAll enclosing next cs)
      (ps.flatMap fun p => p.expression.fields (enclosing.map variableName))

/-- Fields from outside are those of the operand or tree that they are in, wherever it stands. -/
theorem matches_outside {os os' : List Occurrence}
    (h : os.map Occurrence.field = os'.map Occurrence.field) :
    List.Forall₂ Source.Matches (os.map fun o => .outside o.field) os' := by
  have hsources : (os.map fun o => Source.outside o.field) = os'.map fun o => .outside o.field := by
    simpa [Function.comp_def] using congrArg (List.map Source.outside) h
  rw [hsources, List.forall₂_map_left_iff, List.forall₂_same]
  exact fun o _ => rfl

/-- The variables of two trees in a row are those of one stretch of numbers. -/
theorem perm_append {next m n : Nat} {vs ws outside outside' : List String}
    (hv : vs.Perm (variableNames next m ++ outside))
    (hw : ws.Perm (variableNames (next + m) n ++ outside')) :
    (vs ++ ws).Perm (variableNames next (m + n) ++ (outside ++ outside')) := by
  refine (hv.append hw).trans ?_
  rw [variableNames_add, List.append_assoc, List.append_assoc]
  exact List.perm_append_comm_assoc .. |>.append_left _

theorem isBuilt_compare (c : Comparison) (left : PropertyPath) (right : Comparand)
    (enclosing : List Nat) (next : Nat) :
    (compare c left right).IsBuilt enclosing next
      (.compare c (fieldOf .paths (scopes enclosing) left)
        (operandOf .paths (scopes enclosing) right)) := by
  constructor
  · rw [Predicate.variables_compare]
    cases right <;> exact .refl _
  · rw [Predicate.fields_compare]
    cases right with
    | operand x =>
      exact .cons (matches_source enclosing left) (matches_outside (x.map_field_fields ..))
    | property p =>
      exact .cons (matches_source enclosing left) (.cons (matches_source enclosing p) .nil)

theorem isBuilt_oneOf (left : PropertyPath) (values : List Value) (enclosing : List Nat)
    (next : Nat) :
    (oneOf left values).IsBuilt enclosing next
      (.oneOf (fieldOf .paths (scopes enclosing) left) values) := by
  constructor
  · rw [Predicate.variables_oneOf]
    exact .refl _
  · rw [Predicate.fields_oneOf]
    exact .cons (matches_source enclosing left) .nil

variable {enclosing : List Nat} {next : Nat}

theorem IsBuilt.join {first second : Condition} {p q : Predicate} (joint : Joint) (swapped : Bool)
    (hfirst : first.fails = false) (hp : first.IsBuilt enclosing next p)
    (hq : second.IsBuilt enclosing (next + first.evaluated) q) :
    (join joint swapped first second).IsBuilt enclosing next
      (if swapped then .join joint q p else .join joint p q) := by
  have hperm := perm_append hp.perm hq.perm
  have hn : (Condition.join joint swapped first second).evaluated =
      first.evaluated + second.evaluated := by simp [evaluated, hfirst]
  cases swapped with
  | false =>
    constructor
    · rw [if_neg Bool.false_ne_true, Predicate.variables_join, hn]
      exact hperm
    · rw [if_neg Bool.false_ne_true, Predicate.fields_join]
      exact List.rel_append hp.fields hq.fields
  | true =>
    -- The trees change sides, but their numbers were taken in the order of building.
    constructor
    · rw [if_pos rfl, Predicate.variables_join, hn]
      exact List.perm_append_comm.trans hperm
    · rw [if_pos rfl, Predicate.fields_join]
      exact List.rel_append hq.fields hp.fields

theorem IsBuilt.negate {inner : Condition} {p : Predicate} (h : inner.IsBuilt enclosing next p) :
    (negate inner).IsBuilt enclosing next p.negate := by
  constructor
  · rw [Predicate.variables_negate]
    exact h.perm
  · rw [Predicate.fields_negate]
    exact h.fields

theorem IsBuilt.quantify {body : Condition} {p : Predicate} (q : Quantifier)
    (collection : PropertyPath) (h : body.IsBuilt (enclosing ++ [next]) (next + 1) p) :
    (quantify q collection body).IsBuilt enclosing next
      (.quantify q (fieldOf .paths (scopes enclosing) collection) (variableName next) p) := by
  constructor
  · rw [Predicate.variables_quantify, evaluated, variableNames_succ]
    exact h.perm.cons _
  · rw [Predicate.fields_quantify]
    refine .cons (matches_source enclosing collection) ?_
    rw [← List.map_singleton, ← List.map_append]
    exact h.fields

theorem AreBuilt.nil : AreBuilt [] enclosing next [] := ⟨rfl, .nil, .nil⟩

theorem AreBuilt.cons {c : Condition} {cs : List Condition} {p : Predicate} {ps : List Predicate}
    (hc : c.fails = false) (h : c.IsBuilt enclosing next p)
    (hs : AreBuilt cs enclosing (next + c.evaluated) ps) :
    AreBuilt (c :: cs) enclosing next (p :: ps) := by
  have hn : evaluatedAll (c :: cs) = c.evaluated + evaluatedAll cs := by simp [evaluatedAll, hc]
  constructor
  · rw [List.length_cons, List.length_cons, hs.length]
  · rw [List.flatMap_cons, hn]
    exact perm_append h.perm hs.perm
  · rw [List.flatMap_cons]
    exact List.rel_append h.fields hs.fields

/-- Joining trees from the left. -/
theorem outcome_fold (joint : Joint) {conditions : List Condition} {ps : List Predicate}
    (h : AreBuilt conditions enclosing next ps) (later : Nat) :
    Outcome conditions.isEmpty 0 later ((fold joint conditions).IsBuilt enclosing next)
      ((liftM (Predicate.fold joint ps) : Numbering Predicate).run.run later) := by
  cases ps with
  | nil =>
    obtain rfl : conditions = [] := List.length_eq_zero_iff.1 h.length.symm
    exact .error _
  | cons p rest =>
    obtain ⟨c, cs, rfl⟩ := List.exists_cons_of_length_pos (l := conditions) (by simp [← h.length])
    refine .pure ⟨?_, ?_⟩
    · rw [Predicate.variables_foldl]
      exact h.perm
    · rw [Predicate.fields_foldl]
      exact h.fields

/-- Taking an expression from outside. -/
theorem outcome_given (e : Expression) (enclosing : List Nat) (next : Nat) :
    Outcome (given e).fails 0 next ((given e).IsBuilt enclosing next)
      (((given e).build .paths (scopes enclosing)).run.run next) := by
  rw [build, Predicate.ofExpression, fails]
  by_cases hlinked : e.isLinked = true
  · rw [dif_pos hlinked, hlinked]
    exact .error _
  by_cases hquery : e.operator.isQuery = true
  · rw [dif_neg hlinked, dif_pos hquery, hquery, Bool.or_true]
    exact .error _
  · rw [dif_neg hlinked, dif_neg hquery, eq_false_of_ne_true hlinked,
      eq_false_of_ne_true hquery]
    exact .pure ⟨.refl _, matches_outside (e.map_field_fields _).symm⟩

mutual

/-- What building a condition does. -/
theorem run_build (c : Condition) (enclosing : List Nat) (next : Nat) :
    Outcome c.fails c.evaluated next (c.IsBuilt enclosing next)
      ((c.build .paths (scopes enclosing)).run.run next) := by
  match c with
  | compare c left right => exact .pure (isBuilt_compare c left right enclosing next)
  | oneOf left values => exact .pure (isBuilt_oneOf left values enclosing next)
  | join joint swapped first second =>
    exact (first.run_build enclosing next).bind fun hfirst p hp =>
      (second.run_build enclosing (next + first.evaluated)).map fun q hq =>
        hp.join joint swapped hfirst hq
  | fold joint conditions =>
    have h := (run_buildAll conditions enclosing next).bind fun _ ps hps =>
      outcome_fold joint hps (next + evaluatedAll conditions)
    rw [ite_self, Nat.add_zero, Bool.or_comm] at h
    exact h
  | negate inner => exact (inner.run_build enclosing next).map fun p hp => hp.negate
  | quantify q collection body =>
    -- The number is taken before the body is built, so the body takes those behind it.
    have hbody := (body.run_build (enclosing ++ [next]) (next + 1)).map
      fun p hp => hp.quantify q collection
    rw [scopes_append] at hbody
    have h := (outcome_next next).bind fun _ name (hname : name = variableName next) =>
      hname ▸ hbody
    rw [Bool.false_or, if_neg Bool.false_ne_true, Nat.add_comm] at h
    exact h
  | given e => exact outcome_given e enclosing next
  | failed e => exact .error e

theorem run_buildAll (cs : List Condition) (enclosing : List Nat) (next : Nat) :
    Outcome (failsAny cs) (evaluatedAll cs) next (AreBuilt cs enclosing next)
      ((buildAll .paths (scopes enclosing) cs).run.run next) := by
  match cs with
  | [] => exact .pure .nil
  | c :: rest =>
    exact (c.run_build enclosing next).bind fun hc p hp =>
      (run_buildAll rest enclosing (next + c.evaluated)).map fun ps hps => .cons hc hp hps

end

/-! ## One condition after the other -/

/-- The predicates of conditions that are built one after the other.  What a condition took stays taken
when it fails, and does not keep those behind it from being built. -/
def predicates : List Condition → Nat → List (Except QueryError Predicate) × Nat
  | [], next => ([], next)
  | c :: rest, next =>
    let (r, later) := c.predicate .paths next
    let (rs, last) := predicates rest later
    (r :: rs, last)

/-- How many quantifiers are evaluated while conditions are built one after the other. -/
def evaluatedIn : List Condition → Nat
  | [] => 0
  | c :: rest => c.evaluated + evaluatedIn rest

theorem evaluatedIn_append (cs ds : List Condition) :
    evaluatedIn (cs ++ ds) = evaluatedIn cs + evaluatedIn ds := by
  induction cs with
  | nil => exact (Nat.zero_add _).symm
  | cons c rest ih => rw [List.cons_append, evaluatedIn, ih, evaluatedIn, Nat.add_assoc]

theorem outcome_predicate (c : Condition) (next : Nat) :
    Outcome c.fails c.evaluated next (c.IsBuilt [] next) (c.predicate .paths next) :=
  c.run_build [] next

theorem predicates_cons (c : Condition) (rest : List Condition) (next : Nat) :
    predicates (c :: rest) next =
      ((c.predicate .paths next).1 :: (predicates rest (next + c.evaluated)).1,
        (predicates rest (next + c.evaluated)).2) := by
  rw [← (c.outcome_predicate next).later]
  rfl

theorem predicates_append (cs ds : List Condition) (next : Nat) :
    predicates (cs ++ ds) next =
      ((predicates cs next).1 ++ (predicates ds (next + evaluatedIn cs)).1,
        (predicates ds (next + evaluatedIn cs)).2) := by
  induction cs generalizing next with
  | nil => rfl
  | cons c rest ih =>
    rw [List.cons_append, predicates_cons, predicates_cons, ih, evaluatedIn, Nat.add_assoc]
    rfl

theorem length_predicates (cs : List Condition) (next : Nat) :
    (predicates cs next).1.length = cs.length := by
  induction cs generalizing next with
  | nil => rfl
  | cons c rest ih => rw [predicates_cons, List.length_cons, List.length_cons, ih]

end Condition

/-- A filter takes what building its condition takes, and nothing more. -/
theorem Query.run_filter (q : Query) (naming : Naming) (c : Condition) (next : Nat) :
    (q.filter naming c).run.run next =
      ((c.predicate naming next).1.bind q.filterPredicate, (c.predicate naming next).2) := by
  rw [Query.filter, ExceptT.run_bind, StateT.run_bind, Condition.predicate]
  generalize (c.build naming [.entity]).run.run next = r
  obtain ⟨result, later⟩ := r
  cases result <;> rfl

namespace Condition

/-- **Variables are unique and stay in their scopes.**  Conditions are built one after the other, from a
numbering that has given out `next` numbers.  The quantifiers evaluated for them have the variables of
as many numbers from `next` on, no two of which are equal, and the number behind those is the next that
is given out.

Every condition has a stretch of these variables for itself.  In its tree, if it has one, each of them
is the variable of one quantifier, and every field is what it was taken from: if that is the element of
a quantifier, then the field begins with its variable and lies inside its body.

A filter with a condition does what building the condition does, whatever query it is called on. -/
theorem predicates_variables (cs : List Condition) (next : Nat) :
    (predicates cs next).2 = next + evaluatedIn cs ∧
    (Numbering.next.run.run (predicates cs next).2).1 = .ok (variableName (next + evaluatedIn cs)) ∧
    (variableNames next (evaluatedIn cs)).Nodup ∧
    (∀ before c after, cs = before ++ c :: after →
      variableNames next (evaluatedIn cs) =
        variableNames next (evaluatedIn before) ++
          variableNames (next + evaluatedIn before) c.evaluated ++
          variableNames (next + evaluatedIn before + c.evaluated) (evaluatedIn after) ∧
      ∃ r, (predicates cs next).1[before.length]? = some r ∧
        (c.fails = true ↔ ∃ e, r = .error e) ∧
        ∀ p, r = .ok p →
          p.expression.variables.Perm
            (variableNames (next + evaluatedIn before) c.evaluated ++ c.outsideVariables) ∧
          List.Forall₂ Source.Matches (c.sources [] (next + evaluatedIn before))
            (p.expression.fields [])) ∧
    ∀ (q : Query) (c : Condition) (k : Nat),
      (q.filter .paths c).run.run k =
        ((c.predicate .paths k).1.bind q.filterPredicate, (c.predicate .paths k).2) := by
  have hlater : (predicates cs next).2 = next + evaluatedIn cs := by
    have h := predicates_append cs [] next
    rw [List.append_nil] at h
    exact congrArg Prod.snd h
  refine ⟨hlater, by rw [hlater]; rfl, nodup_variableNames .., ?_,
    fun q c k => q.run_filter .paths c k⟩
  rintro before c after rfl
  constructor
  · rw [evaluatedIn_append, evaluatedIn, ← Nat.add_assoc, variableNames_add, variableNames_add,
      Nat.add_assoc]
  · have h := c.outcome_predicate (next + evaluatedIn before)
    refine ⟨_, ?_, h.fails_iff, fun p hp => ⟨(h.good p hp).perm, (h.good p hp).fields⟩⟩
    rw [predicates_append, predicates_cons, ← length_predicates before next]
    exact List.getElem?_append_right (Nat.le_refl _) |>.trans (by simp)

end Condition

end EntityQuery
