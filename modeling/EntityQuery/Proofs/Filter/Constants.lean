import EntityQuery.Proofs.Filter.Writing

/-!
# Constants of a predicate

`Predicate.IsComposed` says that a predicate was put together by the builders, of any fields, variables
and constants.  Such a predicate has the operands that its nodes are made for, so there are two things
only that can keep it from being written: a path that names nothing, and a constant that has no text.

Paths are checked when the predicate goes into a query.  What is left are the constants, and of several
that have no text the first in reading order is the reason (`Predicate.IsComposed.map_fragment`).
-/

set_option autoImplicit false

namespace EntityQuery

/-! ## Several literals -/

namespace Literal

/-- Whether a literal can be written, or why not. -/
def check (l : Literal) : Except QueryError Unit := l.fragment.map fun _ => ()

theorem check_eq_ok {l : Literal} : l.check = .ok () ↔ ∃ text, l.render = .ok text := by
  rw [check, fragment]
  cases l.render <;> simp [Except.map]

theorem check_eq_error {l : Literal} {e : QueryError} :
    l.check = .error e ↔ ∃ reason, l.render = .error reason ∧ e = .unsupportedValue reason := by
  rw [check, fragment]
  cases l.render <;> simp [Except.map, eq_comm]

/-- Whether several literals can be written.  The first that cannot says why. -/
def checkAll : List Literal → Except QueryError Unit
  | [] => .ok ()
  | l :: rest => l.check >>= fun _ => checkAll rest

theorem checkAll_eq_checkEach (ls : List Literal) : checkAll ls = checkEach check ls := by
  induction ls with
  | nil => rfl
  | cons l rest ih => rw [checkAll, checkEach, ih]

theorem checkAll_singleton (l : Literal) : checkAll [l] = l.check := by
  rw [checkAll, checkAll]
  cases l.check <;> rfl

theorem checkAll_append (ls ms : List Literal) :
    checkAll (ls ++ ms) = checkAll ls >>= fun _ => checkAll ms := by
  simp only [checkAll_eq_checkEach, checkEach_append]

theorem checkAll_eq_ok {ls : List Literal} :
    checkAll ls = .ok () ↔ ∀ l ∈ ls, ∃ text, l.render = .ok text := by
  simp only [checkAll_eq_checkEach, checkEach_eq_ok, check_eq_ok]

theorem checkAll_eq_error {ls : List Literal} {e : QueryError} :
    checkAll ls = .error e ↔ ∃ before l after reason, ls = before ++ l :: after ∧
      (∀ m ∈ before, ∃ text, m.render = .ok text) ∧ l.render = .error reason ∧
        e = .unsupportedValue reason := by
  simp only [checkAll_eq_checkEach, checkEach_eq_error, check_eq_ok, check_eq_error,
    exists_and_left]

end Literal

/-! ## Constants of a tree -/

mutual

/-- The constants of a tree, in reading order. -/
def Expression.constants : Expression → List Literal
  | .node _ operands _ => Operand.constantsAll operands

/-- The constants of an operand. -/
def Operand.constants : Operand → List Literal
  | .literal l => [l]
  | .bare v => [.ofValue v]
  | .expression e => e.constants
  | .list items => Operand.constantsAll items
  | _ => []

/-- The constants of operands. -/
def Operand.constantsAll : List Operand → List Literal
  | [] => []
  | x :: rest => x.constants ++ Operand.constantsAll rest

end

theorem Operand.constantsAll_literals (values : List Value) :
    Operand.constantsAll (values.map fun v => .literal (.ofValue v)) =
      values.map Literal.ofValue := by
  induction values with
  | nil => rfl
  | cons v rest ih =>
    rw [List.map_cons, Operand.constantsAll, Operand.constants, ih]
    rfl

/-! ## What builders put together -/

/-- An operand that stands for a constant.  The constant may be a node of its own. -/
inductive Operand.IsConstant : Operand → Prop
  | literal (l : Literal) : IsConstant (.literal l)
  | bare (v : Value) : IsConstant (.bare v)
  | node (l : Literal) : IsConstant (.expression (.ofLiteral l))

/-- The right side of a comparison: a constant or a field. -/
inductive Operand.IsComparand : Operand → Prop
  | constant {x : Operand} (h : x.IsConstant) : IsComparand x
  | field (f : Field) : IsComparand (.field f)
  | fieldNode (f : Field) : IsComparand (.expression (.ofField f))

/-- A predicate as the builders put it together. -/
inductive Predicate.IsComposed : Predicate → Prop
  | compare (c : Comparison) (f : Field) {x : Operand} (hx : x.IsComparand) :
      IsComposed (.compare c f x)
  | oneOf (f : Field) (values : List Value) : IsComposed (.oneOf f values)
  | join (j : Joint) {p q : Predicate} (hp : IsComposed p) (hq : IsComposed q) :
      IsComposed (.join j p q)
  | negate {p : Predicate} (hp : IsComposed p) : IsComposed p.negate
  | quantify (q : Quantifier) (f : Field) (name : String) {p : Predicate} (hp : IsComposed p) :
      IsComposed (.quantify q f name p)

theorem Predicate.IsComposed.foldl {j : Joint} {p : Predicate} {ps : List Predicate}
    (hp : p.IsComposed) (hps : ∀ q ∈ ps, q.IsComposed) : (ps.foldl (Predicate.join j) p).IsComposed := by
  induction ps generalizing p with
  | nil => exact hp
  | cons q rest ih =>
    rw [List.forall_mem_cons] at hps
    exact ih (.join j hp hps.1) hps.2

/-! ## Writing them

A node is written if its operands are, the left one first. -/

namespace Fragment

theorem map_compose_comparison (c : Comparison) (operands : List Operand) (l r : Written) :
    (compose c.operator operands [l, r]).map (fun _ => ()) =
      l.map (fun _ => ()) >>= fun _ => r.map fun _ => () := by
  cases c <;> cases l <;> cases r <;> rfl

theorem map_compose_oneOf (operands : List Operand) (l r : Written) :
    (compose .oneOf operands [l, r]).map (fun _ => ()) =
      l.map (fun _ => ()) >>= fun _ => r.map fun _ => () := by
  cases l <;> cases r <;> rfl

theorem map_compose_not (operands : List Operand) (w : Written) :
    (compose .not operands [w]).map (fun _ => ()) = w.map fun _ => () := by
  cases w <;> rfl

theorem map_compose_quantifier (q : Quantifier) (x y : Operand) (name : String) (l v r : Written) :
    (compose q.operator [x, .variable name, y] [l, v, r]).map (fun _ => ()) =
      l.map (fun _ => ()) >>= fun _ => r.map fun _ => () := by
  cases q <;> cases l <;> cases r <;> rfl

theorem map_listing_cons (w : Written) (ws : List Written) :
    (listing (w :: ws)).map (fun _ => ()) =
      w.map (fun _ => ()) >>= fun _ => (listing ws).map fun _ => () := by
  rw [listing, listing, List.mapM_cons]
  cases w with
  | error e => rfl
  | ok f => cases ws.mapM id <;> rfl

end Fragment

/-- A value is written as the literal of its type is. -/
theorem Value.fragment_eq (v : Value) : v.fragment = (Literal.ofValue v).fragment := by
  rw [Value.fragment, Literal.fragment, Literal.render_ofValue]

theorem Field.map_fragment {f : Field} (h : f.validate = .ok ()) :
    (Operand.field f).fragment.map (fun _ => ()) = .ok () := by
  rw [Operand.fragment, Field.written, h]
  rfl

namespace Operand

variable {x : Operand}

/-- A constant is written if it has a text. -/
theorem IsConstant.map_fragment (h : x.IsConstant) :
    x.fragment.map (fun _ => ()) = Literal.checkAll x.constants := by
  cases h with
  | literal l =>
    rw [Operand.fragment, Operand.constants, Literal.checkAll_singleton]
    rfl
  | bare v =>
    rw [Operand.fragment, Operand.constants, Literal.checkAll_singleton, Value.fragment_eq]
    rfl
  | node l =>
    have hconstants : (Operand.expression (.ofLiteral l)).constants = [l] := rfl
    rw [Operand.fragment_ofLiteral, hconstants, Literal.checkAll_singleton]
    rfl

theorem IsComparand.map_fragment (h : x.IsComparand) (hvalid : x.validateFields = .ok ()) :
    x.fragment.map (fun _ => ()) = Literal.checkAll x.constants := by
  cases h with
  | constant h => exact h.map_fragment
  | field f => exact Field.map_fragment hvalid
  | fieldNode f =>
    have hf := (check_bind_eq_ok.1
      (show (f.validate >>= fun _ => .ok ()) = .ok () from hvalid)).1
    rw [Operand.fragment_ofField]
    exact Field.map_fragment hf

/-- Values are written one by one. -/
theorem map_listing_literals (values : List Value) :
    (Fragment.listing (Operand.fragments (values.map fun v => .literal (.ofValue v)))).map
      (fun _ => ()) = Literal.checkAll (values.map Literal.ofValue) := by
  induction values with
  | nil => rfl
  | cons v rest ih =>
    rw [List.map_cons, Operand.fragments, Fragment.map_listing_cons, ih, Operand.fragment]
    rfl

end Operand

/-! ## Checking their paths -/

theorem Operand.validateAll_eq_ok {xs : List Operand} :
    Operand.validateAll xs = .ok () ↔ ∀ x ∈ xs, x.validateFields = .ok () := by
  induction xs with
  | nil => exact iff_of_true rfl nofun
  | cons x rest ih =>
    rw [Operand.validateAll, check_bind_eq_ok, List.forall_mem_cons, ih]

namespace Predicate

/-- The paths of a predicate of one node are those of its operands. -/
theorem validateFields_alone {operator : Operator} {operands : List Operand}
    {h : operator.isQuery = false} :
    (alone operator operands h).expression.validateFields = .ok () ↔
      ∀ x ∈ operands, x.validateFields = .ok () := Operand.validateAll_eq_ok

section Node

variable (f : Field) (p q : Predicate)

/-! The constants of a node are those of its operands, and it is written if these are.  Of the field
that a node is about only the path matters. -/

theorem constants_compare (c : Comparison) (x : Operand) :
    (compare c f x).expression.constants = x.constants := List.append_nil _

theorem map_fragment_compare {f : Field} (hf : f.validate = .ok ()) (c : Comparison) (x : Operand) :
    (compare c f x).expression.fragment.map (fun _ => ()) = x.fragment.map fun _ => () := by
  refine (congrArg _ (fragment_alone ..)).trans ?_
  rw [Operand.fragments, Operand.fragments, Operand.fragments, Fragment.map_compose_comparison,
    Field.map_fragment hf]
  rfl

theorem constants_oneOf (values : List Value) :
    (oneOf f values).expression.constants = values.map Literal.ofValue :=
  (List.append_nil _).trans (Operand.constantsAll_literals values)

theorem map_fragment_oneOf {f : Field} (hf : f.validate = .ok ()) (values : List Value) :
    (oneOf f values).expression.fragment.map (fun _ => ()) =
      Literal.checkAll (values.map Literal.ofValue) := by
  refine (congrArg _ (fragment_alone ..)).trans ?_
  rw [Operand.fragments, Operand.fragments, Operand.fragments, Fragment.map_compose_oneOf,
    Field.map_fragment hf, Operand.fragment, ← Operand.map_listing_literals]
  rfl

theorem constants_join (j : Joint) :
    (join j p q).expression.constants = p.expression.constants ++ q.expression.constants :=
  congrArg (p.expression.constants ++ ·) (List.append_nil _)

theorem map_fragment_join (j : Joint) :
    (join j p q).expression.fragment.map (fun _ => ()) =
      p.expression.fragment.map (fun _ => ()) >>= fun _ => q.expression.fragment.map fun _ => () := by
  rw [fragment_join]
  cases p.expression.fragment <;> cases q.expression.fragment <;> rfl

theorem constants_negate : p.negate.expression.constants = p.expression.constants :=
  List.append_nil _

theorem map_fragment_negate :
    p.negate.expression.fragment.map (fun _ => ()) = p.expression.fragment.map fun _ => () := by
  refine (congrArg _ (fragment_alone ..)).trans ?_
  rw [Operand.fragments, Operand.fragments, Fragment.map_compose_not, fragment_operand]

theorem constants_quantify (r : Quantifier) (name : String) :
    (quantify r f name p).expression.constants = p.expression.constants := List.append_nil _

theorem map_fragment_quantify {f : Field} (hf : f.validate = .ok ()) (r : Quantifier)
    (name : String) :
    (quantify r f name p).expression.fragment.map (fun _ => ()) =
      p.expression.fragment.map fun _ => () := by
  refine (congrArg _ (fragment_alone ..)).trans ?_
  rw [Operand.fragments, Operand.fragments, Operand.fragments, Operand.fragments,
    Fragment.map_compose_quantifier, Field.map_fragment hf, fragment_operand]
  rfl

end Node

/-- **What keeps a predicate from being written.**  If its paths are in order, then it is the first of
its constants that has no text. -/
theorem IsComposed.map_fragment {p : Predicate} (h : p.IsComposed)
    (hvalid : p.expression.validateFields = .ok ()) :
    p.expression.fragment.map (fun _ => ()) = Literal.checkAll p.expression.constants := by
  induction h with
  | @compare c f x hx =>
    have hoperands := validateFields_alone.1 hvalid
    have hf : f.validate = .ok () := hoperands (.field f) (by simp)
    rw [map_fragment_compare hf, constants_compare, hx.map_fragment (hoperands x (by simp))]
  | oneOf f values =>
    have hf : f.validate = .ok () := validateFields_alone.1 hvalid (.field f) (by simp)
    rw [map_fragment_oneOf hf, constants_oneOf]
  | @join j p q _ _ ihp ihq =>
    have hoperands := validateFields_alone.1 hvalid
    rw [map_fragment_join, constants_join, Literal.checkAll_append,
      ihp (hoperands (.expression p.expression) (by simp)),
      ihq (hoperands (.expression q.expression) (by simp))]
  | @negate p _ ih =>
    have hp := validateFields_alone.1 hvalid (.expression p.expression) (by simp)
    rw [map_fragment_negate, constants_negate, ih hp]
  | @quantify q f name p _ ih =>
    have hoperands := validateFields_alone.1 hvalid
    have hf : f.validate = .ok () := hoperands (.field f) (by simp)
    rw [map_fragment_quantify p hf, constants_quantify,
      ih (hoperands (.expression p.expression) (by simp))]

end Predicate

end EntityQuery
