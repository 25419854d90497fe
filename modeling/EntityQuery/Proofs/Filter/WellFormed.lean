import Mathlib.Data.List.Basic
import EntityQuery.Proofs.Chain.Slots

/-!
# Which filters are accepted

Nothing keeps an operator from standing over operands that it is not made for, so an expression may
make no sense as a filter.  What is looked at, when it is written, is spread over the whole way down to
the constants.  Taken together it comes to one thing, that the expression is **well formed**
(`Expression.IsWellFormed`): every node has the operands that its operator takes, and every operand is
acceptable by itself.

`Fragment.isDone_compose` is what one node needs, given what becomes of its operands, and
`Expression.isDone_fragment` what follows for whole trees, by induction on them.

An accepted filter is made of predicates all the way down: neither a step of a chain nor a node that
follows another one is among its nodes (`Expression.nodes`).
-/

set_option autoImplicit false

namespace EntityQuery

/-! ## Operators and their operands -/

namespace Operator

/-- The number of operands that an operator takes in a predicate, if it has a place there. -/
def arity? : Operator → Option Nat
  | literal | fieldReference | not => some 1
  | and | or => some 2
  | equals | notEquals | greaterThan | greaterThanOrEqualTo | lessThan | lessThanOrEqualTo => some 2
  | contains | startsWith | endsWith | oneOf => some 2
  | any | all => some 3
  | select | top | skip | orderBy | orderByDescending | predicate | expand | expandAll | getByKey
  | getWithCount | value => none

/-- Whether an operator is made for these operands.  The second operand of a quantifier is its range
variable. -/
def Takes (operator : Operator) (operands : List Operand) : Prop :=
  operator.arity? = some operands.length ∧
    (operator = any ∨ operator = all → ∃ name, operands[1]? = some (.variable name))

/-- The operators with a place in a predicate are those that make no step. -/
theorem isQuery_eq_false_iff (operator : Operator) :
    operator.isQuery = false ↔ operator.arity? ≠ none := by
  cases operator <;> simp [isQuery, arity?]

theorem Takes.isQuery {operator : Operator} {operands : List Operand}
    (h : operator.Takes operands) : operator.isQuery = false := by
  rw [isQuery_eq_false_iff, h.1]
  exact Option.some_ne_none _

/-- Only the number of operands counts, unless there is a range variable. -/
theorem takes_iff_length {operator : Operator} {n : Nat} (h : operator.arity? = some n) (hn : n ≠ 3)
    {operands : List Operand} : operator.Takes operands ↔ operands.length = n := by
  rw [Takes, h, Option.some.injEq, eq_comm]
  refine and_iff_left ?_
  rintro (rfl | rfl) <;> exact absurd (Option.some.inj h).symm hn

theorem takes_iff_of_quantifier {operator : Operator} (h : operator = any ∨ operator = all)
    {operands : List Operand} :
    operator.Takes operands ↔
      operands.length = 3 ∧ ∃ name, operands[1]? = some (.variable name) := by
  have harity : operator.arity? = some 3 := by rcases h with rfl | rfl <;> rfl
  rw [Takes, harity, Option.some.injEq, eq_comm, imp_iff_right h]

end Operator

/-! ## Well formed trees -/

mutual

/-- Every node of a tree has the operands that its operator takes, and all of them are acceptable. -/
def Expression.IsWellFormed : Expression → Prop
  | .node operator operands _ => operator.Takes operands ∧ Operand.AreAcceptable operands

/-- An operand that may stand in a filter. -/
def Operand.IsAcceptable : Operand → Prop
  | .literal l => ∃ text, l.render = .ok text
  | .field f => f.path ≠ [] ∧ ∀ segment ∈ f.path, Text.isBlank segment = false
  | .expression e => e.isLinked = false ∧ e.IsWellFormed
  | .bare v => ∃ text, v.render = .ok text
  | .list items => Operand.AreAcceptable items
  | .variable _ => True
  | .projection _ => False

/-- Operands that may stand in a filter, all of them. -/
def Operand.AreAcceptable : List Operand → Prop
  | [] => True
  | x :: rest => x.IsAcceptable ∧ Operand.AreAcceptable rest

end

theorem Operand.length_fragments (xs : List Operand) :
    (Operand.fragments xs).length = xs.length := by
  induction xs with
  | nil => rfl
  | cons x rest ih => rw [Operand.fragments, List.length_cons, List.length_cons, ih]

mutual

/-- The nodes of a tree: its root, and those among the operands at any depth. -/
def Expression.nodes : Expression → List Expression
  | .node operator operands previous =>
    .node operator operands previous :: Operand.nodesAll operands

/-- The nodes inside an operand. -/
def Operand.nodes : Operand → List Expression
  | .expression e => e.nodes
  | .list items => Operand.nodesAll items
  | _ => []

/-- The nodes inside operands. -/
def Operand.nodesAll : List Operand → List Expression
  | [] => []
  | x :: rest => x.nodes ++ Operand.nodesAll rest

end

/-! ## One node -/

/-- Something was written. -/
def Written.IsDone (w : Written) : Prop := ∃ f, w = .ok f

namespace Written

@[simp] theorem isDone_ok (f : Fragment) : IsDone (.ok f) := ⟨f, rfl⟩

@[simp] theorem not_isDone_error (e : QueryError) : ¬ IsDone (.error e) := nofun

theorem isDone_map {w : Written} {f : Fragment → Fragment} : IsDone (w.map f) ↔ w.IsDone := by
  cases w with
  | error e => exact iff_of_false (not_isDone_error e) (not_isDone_error e)
  | ok g => exact iff_of_true (isDone_ok _) (isDone_ok _)

/-- Two pieces are needed for one that is made of both. -/
theorem isDone_both {l r : Written} {f : Fragment → Fragment → Fragment} :
    IsDone (do let a ← l; let b ← r; .ok (f a b)) ↔ l.IsDone ∧ r.IsDone := by
  constructor
  · rintro ⟨g, h⟩
    obtain ⟨a, ha, h⟩ := bind_eq_ok.1 h
    obtain ⟨b, hb, _⟩ := bind_eq_ok.1 h
    exact ⟨⟨a, ha⟩, ⟨b, hb⟩⟩
  · rintro ⟨⟨a, rfl⟩, ⟨b, rfl⟩⟩
    exact isDone_ok _

end Written

namespace Fragment

variable {pieces : List Written}

/-- A list is written if its items are. -/
theorem isDone_listing : (listing pieces).IsDone ↔ ∀ w ∈ pieces, w.IsDone := by
  rw [listing]
  induction pieces with
  | nil => exact iff_of_true (Written.isDone_ok _) (List.forall_mem_nil _)
  | cons w rest ih =>
    rw [List.mapM_cons, List.forall_mem_cons, ← ih]
    cases w with
    | error e =>
      refine iff_of_false (Written.not_isDone_error e) ?_
      exact fun h => Written.not_isDone_error e h.1
    | ok f =>
      refine Iff.trans ?_ (and_iff_right (Written.isDone_ok f)).symm
      cases rest.mapM id with
      | error e => exact iff_of_false (Written.not_isDone_error e) (Written.not_isDone_error e)
      | ok fs => exact iff_of_true (Written.isDone_ok _) (Written.isDone_ok _)

/-- The range variable of a quantifier is written in any case. -/
theorem isDone_composeQuantifier {operator : Operator} {word : String} {xs : List Operand} :
    (composeQuantifier operator word xs (Operand.fragments xs)).IsDone ↔
      (xs.length = 3 ∧ ∃ name, xs[1]? = some (.variable name)) ∧
        ∀ w ∈ Operand.fragments xs, w.IsDone := by
  by_cases hshape : ∃ x name y, xs = [x, .variable name, y]
  · obtain ⟨x, name, y, rfl⟩ := hshape
    have hpieces : Operand.fragments [x, .variable name, y] =
        [x.fragment, .ok (.atom name), y.fragment] := rfl
    rw [hpieces, composeQuantifier, Written.isDone_both]
    simp
  · refine iff_of_false ?_ ?_
    · rw [composeQuantifier.eq_def]
      split
      · exact absurd ⟨_, _, _, rfl⟩ hshape
      · exact Written.not_isDone_error _
      · exact Written.not_isDone_error _
    · rintro ⟨⟨hlength, name, hname⟩, -⟩
      obtain ⟨x, y, z, rfl⟩ := List.length_eq_three.1 hlength
      obtain rfl : y = .variable name := Option.some.inj hname
      exact hshape ⟨x, name, z, rfl⟩

theorem isDone_composeBinary {operator : Operator} (h : (binary? operator).isSome = true) :
    (composeBinary operator pieces).IsDone ↔ pieces.length = 2 ∧ ∀ w ∈ pieces, w.IsDone := by
  obtain ⟨write, hwrite⟩ := Option.isSome_iff_exists.1 h
  rw [composeBinary.eq_def, hwrite]
  rcases pieces with _ | ⟨l, _ | ⟨r, _ | ⟨piece, rest⟩⟩⟩
  · simp
  · simp
  · simpa using Written.isDone_both
  · simp

theorem isDone_composeJoint {operator : Operator} {j : Joint} :
    (composeJoint operator j pieces).IsDone ↔ pieces.length = 2 ∧ ∀ w ∈ pieces, w.IsDone := by
  rcases pieces with _ | ⟨l, _ | ⟨r, _ | ⟨piece, rest⟩⟩⟩
  · simp [composeJoint]
  · simp [composeJoint]
  · simpa [composeJoint] using Written.isDone_both
  · simp [composeJoint]

/-- The operators of one operand have no function of their own that writes them. -/
theorem isDone_composeSingle {operator : Operator} {xs : List Operand}
    (h : operator.arity? = some 1) :
    (compose operator xs pieces).IsDone ↔ pieces.length = 1 ∧ ∀ w ∈ pieces, w.IsDone := by
  have hoperator : operator = .literal ∨ operator = .fieldReference ∨ operator = .not := by
    revert h
    cases operator <;> simp [Operator.arity?]
  rcases pieces with _ | ⟨w, _ | ⟨piece, rest⟩⟩
  · rcases hoperator with rfl | rfl | rfl <;>
      exact iff_of_false (Written.not_isDone_error _) (by simp)
  · rcases hoperator with rfl | rfl | rfl <;> simp [compose, Written.isDone_map]
  · rcases hoperator with rfl | rfl | rfl <;>
      exact iff_of_false (Written.not_isDone_error _) (by simp)

/-- **When a node is written.**  Its operator has to be made for its operands, and all of these have
to be written. -/
theorem isDone_compose (operator : Operator) (xs : List Operand) :
    (compose operator xs (Operand.fragments xs)).IsDone ↔
      operator.Takes xs ∧ ∀ w ∈ Operand.fragments xs, w.IsDone := by
  have hlength : (Operand.fragments xs).length = xs.length := Operand.length_fragments xs
  cases operator with
  | literal | fieldReference | not =>
    refine (isDone_composeSingle rfl).trans ?_
    rw [hlength, Operator.takes_iff_length rfl (by decide)]
  | and | or =>
    refine isDone_composeJoint.trans ?_
    rw [hlength, Operator.takes_iff_length rfl (by decide)]
  | any =>
    refine isDone_composeQuantifier.trans ?_
    rw [Operator.takes_iff_of_quantifier (.inl rfl)]
  | all =>
    refine isDone_composeQuantifier.trans ?_
    rw [Operator.takes_iff_of_quantifier (.inr rfl)]
  | equals | notEquals | greaterThan | greaterThanOrEqualTo | lessThan | lessThanOrEqualTo | contains
  | startsWith | endsWith | oneOf =>
    refine (isDone_composeBinary rfl).trans ?_
    rw [hlength, Operator.takes_iff_length rfl (by decide)]
  | _ => exact iff_of_false (Written.not_isDone_error _) fun h => Option.some_ne_none _ h.1.1.symm

end Fragment

/-! ## Leaves -/

theorem Literal.isDone_fragment (l : Literal) :
    Written.IsDone l.fragment ↔ ∃ text, l.render = .ok text := by
  rw [Literal.fragment]
  cases l.render <;> simp

theorem Value.isDone_fragment (v : Value) :
    Written.IsDone v.fragment ↔ ∃ text, v.render = .ok text := by
  rw [Value.fragment]
  cases v.render <;> simp

theorem Field.validate_eq_ok {f : Field} : f.validate = .ok () ↔ f.isValid = true := by
  rw [Field.validate]
  split
  · next h => exact iff_of_true rfl h
  · next h => exact iff_of_false nofun h

theorem Field.validate_eq_error {f : Field} {e : QueryError} :
    f.validate = .error e ↔ f.isValid = false ∧ e = .invalidFieldPath f.text := by
  rw [Field.validate]
  split
  · next h => exact iff_of_false nofun fun hf => by rw [h] at hf; cases hf.1
  · next h =>
    constructor
    · intro he
      exact ⟨by simpa using h, (Except.error.inj he).symm⟩
    · rintro ⟨-, rfl⟩
      rfl

theorem Field.validate_eq_ok_iff {f : Field} :
    f.validate = .ok () ↔ f.path ≠ [] ∧ ∀ segment ∈ f.path, Text.isBlank segment = false := by
  rw [Field.validate_eq_ok]
  simp [Field.isValid]

/-! ## Trees -/

mutual

/-- **What is written is well formed, and the other way round.** -/
theorem Expression.isDone_fragment (e : Expression) : e.fragment.IsDone ↔ e.IsWellFormed := by
  match e with
  | .node operator operands previous =>
    rw [Expression.fragment, Expression.IsWellFormed, Fragment.isDone_compose,
      Operand.isDone_fragments operands]

theorem Operand.isDone_fragment (x : Operand) : x.fragment.IsDone ↔ x.IsAcceptable := by
  match x with
  | .literal l =>
    rw [Operand.fragment, Operand.IsAcceptable]
    exact l.isDone_fragment
  | .field f =>
    rw [Operand.fragment, Operand.IsAcceptable, ← Field.validate_eq_ok_iff, Field.written]
    cases f.validate with
    | error e => exact iff_of_false (Written.not_isDone_error e) nofun
    | ok u => exact iff_of_true (Written.isDone_ok _) rfl
  | .expression e =>
    rw [Operand.fragment, Operand.IsAcceptable]
    by_cases hlinked : e.isLinked = true
    · rw [if_pos hlinked, hlinked]
      exact iff_of_false (Written.not_isDone_error _) fun h => Bool.noConfusion h.1
    · rw [if_neg hlinked, Expression.isDone_fragment e]
      exact (and_iff_right (Bool.not_eq_true _ ▸ hlinked)).symm
  | .bare v =>
    rw [Operand.fragment, Operand.IsAcceptable]
    exact v.isDone_fragment
  | .list items =>
    rw [Operand.fragment, Operand.IsAcceptable, Fragment.isDone_listing,
      Operand.isDone_fragments items]
  | .variable name =>
    rw [Operand.fragment, Operand.IsAcceptable]
    exact iff_of_true (Written.isDone_ok _) trivial
  | .projection p =>
    rw [Operand.fragment, Operand.IsAcceptable]
    exact iff_of_false (Written.not_isDone_error _) not_false

theorem Operand.isDone_fragments (xs : List Operand) :
    (∀ w ∈ Operand.fragments xs, w.IsDone) ↔ Operand.AreAcceptable xs := by
  match xs with
  | [] =>
    rw [Operand.fragments, Operand.AreAcceptable]
    exact iff_of_true (List.forall_mem_nil _) trivial
  | x :: rest =>
    rw [Operand.fragments, Operand.AreAcceptable, List.forall_mem_cons,
      Operand.isDone_fragment x, Operand.isDone_fragments rest]

end

/-- A node that makes no step of a chain and follows no other node. -/
def Expression.IsUnchained (e : Expression) : Prop :=
  e.isLinked = false ∧ e.operator.isQuery = false

mutual

/-- Well formed trees are unchained all the way down. -/
theorem Expression.isUnchained_of_mem_nodes (e : Expression) (hlinked : e.isLinked = false)
    (h : e.IsWellFormed) {n : Expression} (hn : n ∈ e.nodes) : n.IsUnchained := by
  match e with
  | .node operator operands previous =>
    rw [Expression.IsWellFormed] at h
    rw [Expression.nodes, List.mem_cons] at hn
    rcases hn with rfl | hn
    · exact ⟨hlinked, h.1.isQuery⟩
    · exact Operand.isUnchained_of_mem_nodesAll operands h.2 hn

theorem Operand.isUnchained_of_mem_nodes (x : Operand) (h : x.IsAcceptable) {n : Expression}
    (hn : n ∈ x.nodes) : n.IsUnchained := by
  match x with
  | .expression e =>
    rw [Operand.IsAcceptable] at h
    rw [Operand.nodes] at hn
    exact Expression.isUnchained_of_mem_nodes e h.1 h.2 hn
  | .list items =>
    rw [Operand.IsAcceptable] at h
    rw [Operand.nodes] at hn
    exact Operand.isUnchained_of_mem_nodesAll items h hn
  | .literal _ | .field _ | .bare _ | .variable _ | .projection _ =>
    rw [Operand.nodes] at hn
    all_goals cases hn

theorem Operand.isUnchained_of_mem_nodesAll (xs : List Operand) (h : Operand.AreAcceptable xs)
    {n : Expression} (hn : n ∈ Operand.nodesAll xs) : n.IsUnchained := by
  match xs with
  | [] =>
    rw [Operand.nodesAll] at hn
    cases hn
  | x :: rest =>
    rw [Operand.AreAcceptable] at h
    rw [Operand.nodesAll, List.mem_append] at hn
    rcases hn with hn | hn
    · exact Operand.isUnchained_of_mem_nodes x h.1 hn
    · exact Operand.isUnchained_of_mem_nodesAll rest h.2 hn

end

/-! ## Chains of one filter -/

/-- The filter of a request with one condition. -/
def Expression.filterText (e : Expression) : Except QueryError (Option String) :=
  (Segments.ofChain (some (.alone .predicate [.expression e]))).map Segments.filter

namespace Segments

theorem ofChain_alone_predicate (e : Expression) :
    ofChain (some (.alone .predicate [.expression e])) =
      (Draft.empty.predicate [.expression e]).map (·.segments) := by
  have hsteps : Expression.steps (some (.alone .predicate [.expression e])) =
      [(.predicate, [.expression e])] := rfl
  have hrun : run [(.predicate, [.expression e])] = Draft.empty.predicate [.expression e] := by
    rw [run, List.foldlM_cons]
    exact bind_pure _
  rw [ofChain_eq_run, hsteps, hrun]

/-- The filter is the text of the condition, unless the condition follows another node. -/
theorem filterText_of_unlinked {e : Expression} (h : e.isLinked = false) :
    e.filterText = e.fragment.map fun f => some f.joined := by
  rw [Expression.filterText, ofChain_alone_predicate, Draft.predicate, h,
    if_neg Bool.false_ne_true]
  cases e.fragment <;> rfl

/-- A chain of one filter is accepted if the filter is written. -/
theorem exists_ofChain_predicate (e : Expression) :
    (∃ s, ofChain (some (.alone .predicate [.expression e])) = .ok s) ↔
      e.isLinked = false ∧ e.fragment.IsDone := by
  rw [ofChain_alone_predicate, Draft.predicate]
  have hrefused (reason : QueryError) :
      ¬ ∃ s, Except.map (·.segments) (.error reason : Except QueryError Draft) = .ok s := by
    rintro ⟨s, hs⟩
    cases hs
  by_cases hlinked : e.isLinked = true
  · rw [if_pos hlinked, hlinked]
    exact iff_of_false (hrefused _) fun h => Bool.noConfusion h.1
  · rw [if_neg hlinked]
    refine Iff.trans ?_ (and_iff_right (Bool.not_eq_true _ ▸ hlinked)).symm
    cases e.fragment with
    | error reason => exact iff_of_false (hrefused reason) (Written.not_isDone_error reason)
    | ok f => exact iff_of_true ⟨_, rfl⟩ (Written.isDone_ok f)

/-- **Exactly the well formed filters are accepted.**  A chain of one filter has segments if and only if
the filter follows no other node and is well formed.  Then all of its nodes are predicates that follow
no other node, however deep they lie. -/
theorem ofChain_predicate_iff (e : Expression) :
    ((∃ s, ofChain (some (.alone .predicate [.expression e])) = .ok s) ↔
      e.isLinked = false ∧ e.IsWellFormed) ∧
    ((∃ s, ofChain (some (.alone .predicate [.expression e])) = .ok s) →
      ∀ n ∈ e.nodes, n.isLinked = false ∧ n.operator.isQuery = false) := by
  have hiff : (∃ s, ofChain (some (.alone .predicate [.expression e])) = .ok s) ↔
      e.isLinked = false ∧ e.IsWellFormed := by
    rw [exists_ofChain_predicate, e.isDone_fragment]
  refine ⟨hiff, ?_⟩
  intro haccepted n hn
  obtain ⟨hlinked, hwell⟩ := hiff.1 haccepted
  exact e.isUnchained_of_mem_nodes hlinked hwell hn

/-- A quantifier over `tags`, in whose body the range variable stands beside a list. -/
def taggedFilter (inner : Expression) : Expression :=
  .alone .not
    [.expression (.alone .any
      [.field ⟨["owner", "tags"]⟩, .variable "p0",
        .expression (.alone .or
          [.expression (.alone .oneOf
            [.variable "p0", .list [.bare .null, .literal (.ofValue (.bool true))]]),
          .expression inner])])]

/-- Accepted with a constant deep inside, and refused with a node there that follows another one. -/
theorem ofChain_predicate_iff_tagged :
    (∃ s, ofChain (some (.alone .predicate
      [.expression (taggedFilter (.ofLiteral (.ofValue .null)))])) = .ok s) ∧
    (∀ n ∈ (taggedFilter (.ofLiteral (.ofValue .null))).nodes,
      n.isLinked = false ∧ n.operator.isQuery = false) ∧
    ¬ ∃ s, ofChain (some (.alone .predicate [.expression
      (taggedFilter (.node .literal [.bare .null] (some (.alone .value []))))])) = .ok s := by
  have hwell : (taggedFilter (.ofLiteral (.ofValue .null))).IsWellFormed := by
    simp [taggedFilter, Expression.ofLiteral, Expression.alone, Expression.IsWellFormed,
      Operand.AreAcceptable, Operand.IsAcceptable, Expression.isLinked, Expression.previous,
      Operator.Takes, Operator.arity?, Literal.ofValue, Literal.render, Value.render]
    exact ⟨by decide, "true", rfl⟩
  have haccepted := (ofChain_predicate_iff _).1.2 ⟨rfl, hwell⟩
  refine ⟨haccepted, (ofChain_predicate_iff _).2 haccepted, ?_⟩
  intro h
  have hinner := (ofChain_predicate_iff _).2 h
    (.node .literal [.bare .null] (some (.alone .value [])))
    (by simp [taggedFilter, Expression.alone, Expression.nodes, Operand.nodes, Operand.nodesAll])
  cases hinner.1

end Segments

end EntityQuery
