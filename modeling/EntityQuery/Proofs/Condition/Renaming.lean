import EntityQuery.Proofs.Condition.Naming

/-!
# Other numbers for variables

What a condition is built into depends on the numbers that were given out before, but only through the
names of its variables.  To say so, trees are renamed: `Expression.rename σ` puts the variable of `σ n`
where that of `n` stood, as a range variable or as the first segment of a path.

A name of the entity may look like a variable and would be renamed as well.  Conditions in which this
cannot happen are foreign to variables (`Condition.IsForeign`): no path on the entity starts with one,
and nothing that comes from outside has any.

`Condition.IsForeign.parallel_build` follows two runs of the same building, each of them from its own
numbers on and in its own scopes.  They take as many numbers, fail together, and build the same tree up
to renaming.
-/

set_option autoImplicit false

namespace EntityQuery

/-! ## Variables by number -/

/-- The number of a variable, if the name is that of one. -/
def variableNumber? (name : String) : Option Nat :=
  let n := Nat.ofDigitChars 10 (name.toList.drop 1) 0
  if variableName n = name then some n else none

theorem variableNumber?_variableName (n : Nat) : variableNumber? (variableName n) = some n := by
  have hdigits : (variableName n).toList.drop 1 = Nat.toDigits 10 n := by
    rw [variableName, String.toList_append, Nat.toList_repr]
    rfl
  have hnumber : Nat.ofDigitChars 10 ((variableName n).toList.drop 1) 0 = n := by
    rw [hdigits]
    simp
  rw [variableNumber?, hnumber]
  exact if_pos rfl

theorem variableNumber?_eq_some {name : String} {n : Nat} :
    variableNumber? name = some n ↔ name = variableName n := by
  constructor
  · intro h
    rw [variableNumber?, Option.ite_none_right_eq_some, Option.some_inj] at h
    obtain ⟨hname, rfl⟩ := h
    exact hname.symm
  · rintro rfl
    exact variableNumber?_variableName n

/-- A name after variables have changed their numbers; other names stay. -/
def renameName (σ : Nat → Nat) (name : String) : String :=
  match variableNumber? name with
  | some n => variableName (σ n)
  | none => name

theorem renameName_variableName (σ : Nat → Nat) (n : Nat) :
    renameName σ (variableName n) = variableName (σ n) := by
  rw [renameName, variableNumber?_variableName]

theorem renameName_of_none {name : String} (h : variableNumber? name = none) (σ : Nat → Nat) :
    renameName σ name = name := by
  rw [renameName, h]

/-- Numbers from `next` on become those from `next'` on, as many as `n` of them. -/
def Shifts (σ : Nat → Nat) (next next' n : Nat) : Prop := ∀ i < n, σ (next + i) = next' + i

namespace Shifts

variable {σ : Nat → Nat} {next next' m n : Nat}

theorem mono (h : Shifts σ next next' n) (hm : m ≤ n) : Shifts σ next next' m :=
  fun i hi => h i (Nat.lt_of_lt_of_le hi hm)

theorem left (h : Shifts σ next next' (m + n)) : Shifts σ next next' m := h.mono (Nat.le_add_right m n)

theorem right (h : Shifts σ next next' (m + n)) : Shifts σ (next + m) (next' + m) n := by
  intro i hi
  rw [Nat.add_assoc, Nat.add_assoc]
  exact h (m + i) (Nat.add_lt_add_left hi m)

end Shifts

/-! ## Renaming -/

/-- A path after variables have changed their numbers. -/
def Field.rename (σ : Nat → Nat) (f : Field) : Field := ⟨f.path.modifyHead (renameName σ)⟩

def Scope.rename (σ : Nat → Nat) (s : Scope) : Scope := ⟨s.root.map (renameName σ)⟩

mutual

/-- A tree after variables have changed their numbers. -/
def Expression.rename (σ : Nat → Nat) : Expression → Expression
  | .node operator operands previous => .node operator (Operand.renameAll σ operands) previous

/-- An operand after variables have changed their numbers. -/
def Operand.rename (σ : Nat → Nat) : Operand → Operand
  | .field f => .field (f.rename σ)
  | .expression e => .expression (e.rename σ)
  | .list items => .list (Operand.renameAll σ items)
  | .variable name => .variable (renameName σ name)
  | .literal l => .literal l
  | .bare v => .bare v
  | .projection p => .projection p

/-- Operands after variables have changed their numbers. -/
def Operand.renameAll (σ : Nat → Nat) : List Operand → List Operand
  | [] => []
  | x :: rest => x.rename σ :: Operand.renameAll σ rest

end

/-! Nothing changes if every number stays as it is. -/

theorem renameName_id (name : String) : renameName id name = name := by
  rw [renameName]
  split
  · next n h => exact (variableNumber?_eq_some.1 h).symm
  · rfl

theorem Field.rename_id (f : Field) : f.rename id = f := by
  obtain ⟨path⟩ := f
  cases path with
  | nil => rfl
  | cons segment rest => rw [rename, List.modifyHead_cons, renameName_id]

mutual

theorem Expression.rename_id (e : Expression) : e.rename id = e := by
  match e with
  | .node operator operands previous => rw [Expression.rename, Operand.renameAll_id operands]

theorem Operand.rename_id (x : Operand) : x.rename id = x := by
  match x with
  | .field f => rw [Operand.rename, f.rename_id]
  | .expression e => rw [Operand.rename, e.rename_id]
  | .list items => rw [Operand.rename, Operand.renameAll_id items]
  | .variable name => rw [Operand.rename, renameName_id]
  | .literal _ | .bare _ | .projection _ => rfl

theorem Operand.renameAll_id (xs : List Operand) : Operand.renameAll id xs = xs := by
  match xs with
  | [] => rfl
  | x :: rest => rw [Operand.renameAll, x.rename_id, Operand.renameAll_id rest]

end

@[simp] theorem Expression.isLinked_rename (σ : Nat → Nat) (e : Expression) :
    (e.rename σ).isLinked = e.isLinked := by
  cases e
  rfl

@[simp] theorem Expression.operator_rename (σ : Nat → Nat) (e : Expression) :
    (e.rename σ).operator = e.operator := by
  cases e
  rfl

namespace Predicate

/-- A predicate after variables have changed their numbers. -/
def rename (σ : Nat → Nat) (p : Predicate) : Predicate where
  expression := p.expression.rename σ
  isLinked_expression := by rw [Expression.isLinked_rename, p.isLinked_expression]
  isQuery_operator := by rw [Expression.operator_rename, p.isQuery_operator]

theorem expression_injective : Function.Injective expression := by
  rintro ⟨e, he, he'⟩ ⟨e', hf, hf'⟩ h
  obtain rfl : e = e' := h
  rfl

theorem rename_id (p : Predicate) : p.rename id = p := expression_injective p.expression.rename_id

variable (σ : Nat → Nat)

/-! Predicates that are put together are renamed part by part. -/

theorem rename_compare (c : Comparison) (f : Field) (x : Operand) :
    (compare c f x).rename σ = compare c (f.rename σ) (x.rename σ) := rfl

theorem rename_oneOf (f : Field) (values : List Value) :
    (oneOf f values).rename σ = oneOf (f.rename σ) values := by
  have hvalues : Operand.renameAll σ (values.map fun v => .literal (.ofValue v)) =
      values.map fun v => .literal (.ofValue v) := by
    induction values with
    | nil => rfl
    | cons v rest ih =>
      rw [List.map_cons, Operand.renameAll, ih]
      rfl
  apply expression_injective
  show Expression.alone .oneOf [.field (f.rename σ),
    .list (Operand.renameAll σ (values.map fun v => .literal (.ofValue v)))] = _
  rw [hvalues]
  rfl

theorem rename_join (j : Joint) (p q : Predicate) :
    (join j p q).rename σ = join j (p.rename σ) (q.rename σ) := rfl

theorem rename_negate (p : Predicate) : p.negate.rename σ = (p.rename σ).negate := rfl

theorem rename_quantify (q : Quantifier) (f : Field) (name : String) (p : Predicate) :
    (quantify q f name p).rename σ =
      quantify q (f.rename σ) (renameName σ name) (p.rename σ) := rfl

theorem rename_foldl (j : Joint) (p : Predicate) (ps : List Predicate) :
    (ps.foldl (join j) p).rename σ = (ps.map (rename σ)).foldl (join j) (p.rename σ) := by
  induction ps generalizing p with
  | nil => rfl
  | cons q rest ih => rw [List.foldl_cons, ih, rename_join, List.map_cons, List.foldl_cons]

end Predicate

/-! ## What is foreign to variables -/

/-- A path that does not start with a variable. -/
def Field.IsForeign (f : Field) : Prop := f.path.head?.bind variableNumber? = none

instance (f : Field) : Decidable f.IsForeign :=
  inferInstanceAs (Decidable (f.path.head?.bind variableNumber? = none))

theorem Field.rename_of_isForeign {f : Field} (h : f.IsForeign) (σ : Nat → Nat) :
    f.rename σ = f := by
  obtain ⟨path⟩ := f
  cases path with
  | nil => rfl
  | cons segment rest =>
    have hsegment : variableNumber? segment = none := h
    rw [rename, List.modifyHead_cons, renameName_of_none hsegment]

/-- An operand in which there are no variables. -/
structure Operand.IsForeign (x : Operand) : Prop where
  bound : ∀ name ∈ x.variables, variableNumber? name = none
  fields : ∀ o ∈ x.fields [], o.field.IsForeign

mutual

theorem Expression.rename_of_foreign (e : Expression) (σ : Nat → Nat) {around : List String}
    (hvariables : ∀ name ∈ e.variables, variableNumber? name = none)
    (hfields : ∀ o ∈ e.fields around, o.field.IsForeign) : e.rename σ = e := by
  match e with
  | .node operator operands previous =>
    rw [Expression.rename, Operand.renameAll_of_foreign operands σ hvariables hfields]

theorem Operand.rename_of_foreign (x : Operand) (σ : Nat → Nat) {around : List String}
    (hvariables : ∀ name ∈ x.variables, variableNumber? name = none)
    (hfields : ∀ o ∈ x.fields around, o.field.IsForeign) : x.rename σ = x := by
  match x with
  | .field f => rw [Operand.rename, f.rename_of_isForeign (hfields _ List.mem_cons_self)]
  | .expression e => rw [Operand.rename, e.rename_of_foreign σ hvariables hfields]
  | .list items => rw [Operand.rename, Operand.renameAll_of_foreign items σ hvariables hfields]
  | .variable name =>
    rw [Operand.rename, renameName_of_none (hvariables _ List.mem_cons_self)]
  | .literal _ | .bare _ | .projection _ => rfl

theorem Operand.renameAll_of_foreign (xs : List Operand) (σ : Nat → Nat) {around : List String}
    (hvariables : ∀ name ∈ Operand.variablesAll xs, variableNumber? name = none)
    (hfields : ∀ o ∈ Operand.fieldsAll around xs, o.field.IsForeign) :
    Operand.renameAll σ xs = xs := by
  match xs with
  | [] => rfl
  | x :: rest =>
    rw [Operand.variablesAll, List.forall_mem_append] at hvariables
    rw [Operand.fieldsAll, List.forall_mem_append] at hfields
    rw [Operand.renameAll, x.rename_of_foreign σ hvariables.1 hfields.1,
      Operand.renameAll_of_foreign rest σ hvariables.2 hfields.2]

end

theorem Operand.IsForeign.rename_eq {x : Operand} (h : x.IsForeign) (σ : Nat → Nat) :
    x.rename σ = x :=
  x.rename_of_foreign σ h.bound h.fields

theorem Predicate.rename_of_isForeign {p : Predicate} (h : (Operand.expression p.expression).IsForeign)
    (σ : Nat → Nat) : p.rename σ = p :=
  expression_injective (Operand.expression.inj (h.rename_eq σ))

/-- A path that does not start with a variable when it starts from the entity. -/
def PropertyPath.IsForeign (naming : Naming) (p : PropertyPath) : Prop :=
  (Condition.fieldOf naming [.entity] p).IsForeign

instance (naming : Naming) (p : PropertyPath) : Decidable (p.IsForeign naming) :=
  inferInstanceAs (Decidable (Condition.fieldOf naming [.entity] p).IsForeign)

namespace Condition

/-- A condition whose only variables are those that its own quantifiers are given. -/
inductive IsForeign (naming : Naming) : Condition → Prop
  | compare (c : Comparison) {left : PropertyPath} (hleft : left.IsForeign naming) {x : Operand}
      (hx : x.IsForeign) : IsForeign naming (.compare c left (.operand x))
  | compareProperty (c : Comparison) {left right : PropertyPath} (hleft : left.IsForeign naming)
      (hright : right.IsForeign naming) : IsForeign naming (.compare c left (.property right))
  | oneOf {left : PropertyPath} (hleft : left.IsForeign naming) (values : List Value) :
      IsForeign naming (.oneOf left values)
  | join (joint : Joint) (swapped : Bool) {first second : Condition}
      (hfirst : IsForeign naming first) (hsecond : IsForeign naming second) :
      IsForeign naming (.join joint swapped first second)
  | fold (joint : Joint) {conditions : List Condition} (h : ∀ c ∈ conditions, IsForeign naming c) :
      IsForeign naming (.fold joint conditions)
  | negate {inner : Condition} (h : IsForeign naming inner) : IsForeign naming (.negate inner)
  | quantify (q : Quantifier) {collection : PropertyPath} (hcollection : collection.IsForeign naming)
      {body : Condition} (h : IsForeign naming body) : IsForeign naming (.quantify q collection body)
  | given {e : Expression} (h : (Operand.expression e).IsForeign) : IsForeign naming (.given e)
  | failed (e : QueryError) : IsForeign naming (.failed e)

/-! ## Building in other scopes -/

variable {naming : Naming} {σ : Nat → Nat}

theorem scopeOf_map (σ : Nat → Nat) (scopes : List Scope) (p : PropertyPath) :
    scopeOf (scopes.map (.rename σ)) p = (scopeOf scopes p).rename σ := by
  obtain ⟨scope, segments⟩ := p
  cases scope with
  | none =>
    show (scopes.map (.rename σ)).getLastD .entity = (scopes.getLastD .entity).rename σ
    rw [List.getLastD_eq_getLast?, List.getLastD_eq_getLast?, List.getLast?_map]
    cases scopes.getLast? <;> rfl
  | some i =>
    show (scopes.map (.rename σ)).getD i .entity = (scopes.getD i .entity).rename σ
    rw [List.getD_eq_getElem?_getD, List.getD_eq_getElem?_getD, List.getElem?_map]
    cases scopes[i]? <;> rfl

/-- A path leads to the same field up to renaming. -/
theorem fieldOf_map {p : PropertyPath} (h : p.IsForeign naming) (scopes : List Scope) :
    fieldOf naming (scopes.map (.rename σ)) p = (fieldOf naming scopes p).rename σ := by
  cases naming with
  | names => exact (Field.rename_of_isForeign h σ).symm
  | paths =>
    rw [fieldOf, fieldOf, scopeOf_map]
    generalize scopeOf scopes p = s
    obtain ⟨_ | name⟩ := s
    · -- The path starts from the entity, where nothing is renamed.
      rw [PropertyPath.IsForeign, fieldOf_paths] at h
      exact (Field.rename_of_isForeign h σ).symm
    · rfl

theorem operandOf_map {p : PropertyPath} (h : p.IsForeign naming) (scopes : List Scope) :
    operandOf naming (scopes.map (.rename σ)) (.property p) =
      (operandOf naming scopes (.property p)).rename σ := by
  cases naming with
  | paths => exact congrArg Operand.field (fieldOf_map h scopes)
  | names => exact congrArg (fun f => Operand.expression (.ofField f)) (fieldOf_map h scopes)

/-- Two runs of one piece of work, which begin with the numbers `next` and `next'`.  They take `n`
numbers each, and either they fail with the same error, or the results are the same up to renaming. -/
structure Parallel {α : Type} (rename : α → α) (good : α → Prop) (fails : Bool) (n next next' : Nat)
    (r r' : Except QueryError α × Nat) : Prop where
  outcome : Outcome fails n next good r
  eq : r' = (r.1.map rename, next' + n)

namespace Parallel

variable {α β : Type} {rename : α → α} {rename' : β → β} {good : α → Prop} {good' : β → Prop}
  {next next' : Nat}

theorem pure {a a' : α} (ha : good a) (h : a' = rename a) :
    Parallel rename good false 0 next next' (.ok a, next) (.ok a', next') :=
  ⟨.pure ha, by rw [h]; rfl⟩

theorem error (e : QueryError) :
    Parallel rename good true 0 next next' (.error e, next) (.error e, next') :=
  ⟨.error e, rfl⟩

theorem bind {x x' : Numbering α} {f f' : α → Numbering β} {fails fails' : Bool} {m n : Nat}
    (hx : Parallel rename good fails m next next' (x.run.run next) (x'.run.run next'))
    (hf : fails = false → ∀ a, good a → Parallel rename' good' fails' n (next + m) (next' + m)
      ((f a).run.run (next + m)) ((f' (rename a)).run.run (next' + m))) :
    Parallel rename' good' (fails || fails') (m + if fails then 0 else n) next next'
      ((x >>= f).run.run next) ((x' >>= f').run.run next') := by
  refine ⟨hx.outcome.bind fun hfails a ha => (hf hfails a ha).outcome, ?_⟩
  have hlater := hx.outcome.later
  have hfails := hx.outcome.fails_iff
  have hgood := hx.outcome.good
  rw [ExceptT.run_bind, StateT.run_bind, ExceptT.run_bind, StateT.run_bind, hx.eq]
  generalize x.run.run next = r at hlater hfails hgood
  obtain ⟨result, later⟩ := r
  obtain rfl : later = next + m := hlater
  cases result with
  | error e =>
    obtain rfl : fails = true := hfails.2 ⟨e, rfl⟩
    rfl
  | ok a =>
    obtain rfl : fails = false := by simpa using hfails
    rw [if_neg Bool.false_ne_true, ← Nat.add_assoc]
    exact (hf rfl a (hgood a rfl)).eq

/-- Nothing more is taken for what is made of a result. -/
theorem map {x x' : Numbering α} {g g' : α → β} {fails : Bool} {n : Nat}
    (hx : Parallel rename good fails n next next' (x.run.run next) (x'.run.run next'))
    (hgood : ∀ a, good a → good' (g a)) (hg : ∀ a, g' (rename a) = rename' (g a)) :
    Parallel rename' good' fails n next next' ((x >>= fun a => Pure.pure (g a)).run.run next)
      ((x' >>= fun a => Pure.pure (g' a)).run.run next') := by
  have h : Parallel rename' good' (fails || false) (n + if fails then 0 else 0) next next'
      ((x >>= fun a => Pure.pure (g a)).run.run next)
      ((x' >>= fun a => Pure.pure (g' a)).run.run next') :=
    hx.bind fun _ a ha => pure (hgood a ha) (hg a)
  rw [Bool.or_false, ite_self, Nat.add_zero] at h
  exact h

end Parallel

/-- Taking a number. -/
theorem parallel_next {next next' : Nat} (h : σ next = next') :
    Parallel (renameName σ) (· = variableName next) false 1 next next'
      (Numbering.next.run.run next) (Numbering.next.run.run next') := by
  refine ⟨outcome_next next, ?_⟩
  show (Except.ok (variableName next'), next' + 1) =
    (.ok (renameName σ (variableName next)), next' + 1)
  rw [renameName_variableName, h]

theorem parallel_fold (joint : Joint) {ps : List Predicate} {n : Nat} (hn : ps.length = n)
    (next next' : Nat) :
    Parallel (Predicate.rename σ) (fun _ => True) (n == 0) 0 next next'
      ((liftM (Predicate.fold joint ps) : Numbering Predicate).run.run next)
      ((liftM (Predicate.fold joint (ps.map (.rename σ))) : Numbering Predicate).run.run next') := by
  subst hn
  cases ps with
  | nil => exact .error _
  | cons p rest => exact .pure trivial (Predicate.rename_foldl σ joint p rest).symm

theorem parallel_given {e : Expression} (h : (Operand.expression e).IsForeign) (next next' : Nat)
    (scopes scopes' : List Scope) :
    Parallel (Predicate.rename σ) (fun _ => True) (given e).fails 0 next next'
      (((given e).build naming scopes).run.run next)
      (((given e).build naming scopes').run.run next') := by
  rw [build, build, Predicate.ofExpression, fails]
  by_cases hlinked : e.isLinked = true
  · rw [dif_pos hlinked, hlinked]
    exact .error _
  by_cases hquery : e.operator.isQuery = true
  · rw [dif_neg hlinked, dif_pos hquery, hquery, Bool.or_true]
    exact .error _
  · rw [dif_neg hlinked, dif_neg hquery, eq_false_of_ne_true hlinked, eq_false_of_ne_true hquery]
    exact .pure trivial (Predicate.rename_of_isForeign h σ).symm

/-- Two runs of building conditions in a row, if there are two for each of them. -/
theorem parallel_buildAll {conditions : List Condition} (scopes : List Scope)
    (h : ∀ c ∈ conditions, ∀ next next', Shifts σ next next' c.evaluated →
      Parallel (Predicate.rename σ) (fun _ => True) c.fails c.evaluated next next'
        ((c.build naming scopes).run.run next)
        ((c.build naming (scopes.map (.rename σ))).run.run next'))
    (next next' : Nat) (hσ : Shifts σ next next' (evaluatedAll conditions)) :
    Parallel (List.map (Predicate.rename σ)) (fun ps => ps.length = conditions.length)
      (failsAny conditions) (evaluatedAll conditions) next next'
      ((buildAll naming scopes conditions).run.run next)
      ((buildAll naming (scopes.map (.rename σ)) conditions).run.run next') := by
  induction conditions generalizing next next' with
  | nil => exact .pure rfl rfl
  | cons c rest ih =>
    rw [List.forall_mem_cons] at h
    rw [evaluatedAll] at hσ
    refine (h.1 next next' hσ.left).bind fun hc p _ => ?_
    rw [hc, if_neg Bool.false_ne_true] at hσ
    refine (ih h.2 _ _ hσ.right).map (fun ps hps => ?_) fun ps => rfl
    exact congrArg Nat.succ hps

/-- **Building does not depend on the numbers.**  In scopes that are the same up to renaming a condition
is built into trees that are the same up to renaming, with as many numbers, or cannot be built for the
same reason. -/
theorem IsForeign.parallel_build {c : Condition} (h : c.IsForeign naming) (scopes : List Scope)
    (next next' : Nat) (hσ : Shifts σ next next' c.evaluated) :
    Parallel (Predicate.rename σ) (fun _ => True) c.fails c.evaluated next next'
      ((c.build naming scopes).run.run next)
      ((c.build naming (scopes.map (.rename σ))).run.run next') := by
  induction h generalizing scopes next next' with
  | compare c hleft hx =>
    refine .pure trivial ?_
    rw [Predicate.rename_compare, fieldOf_map hleft, operandOf, operandOf, hx.rename_eq]
  | compareProperty c hleft hright =>
    refine .pure trivial ?_
    rw [Predicate.rename_compare, fieldOf_map hleft, operandOf_map hright]
  | oneOf hleft values =>
    refine .pure trivial ?_
    rw [Predicate.rename_oneOf, fieldOf_map hleft]
  | @join joint swapped first second _ _ ihfirst ihsecond =>
    rw [evaluated] at hσ
    refine (ihfirst scopes next next' hσ.left).bind fun hfirst p _ => ?_
    rw [hfirst, if_neg Bool.false_ne_true] at hσ
    refine (ihsecond scopes _ _ hσ.right).map (fun _ _ => trivial) fun q => ?_
    cases swapped <;> rfl
  | @fold joint conditions _ ih =>
    have hfails : (Condition.fold joint conditions).fails =
        (failsAny conditions || conditions.length == 0) := by
      rw [fails, Bool.or_comm]
      cases conditions <;> rfl
    have hevaluated : (Condition.fold joint conditions).evaluated =
        evaluatedAll conditions + if failsAny conditions then 0 else 0 := by
      rw [evaluated, ite_self, Nat.add_zero]
    rw [hfails, hevaluated, build, build]
    exact (parallel_buildAll scopes (fun c hc => ih c hc scopes) next next' hσ).bind
      fun _ ps hps => parallel_fold joint hps _ _
  | negate _ ih =>
    refine (ih scopes next next' hσ).map (fun _ _ => trivial) fun p => ?_
    rw [Predicate.rename_negate]
  | @quantify q collection hcollection body _ ih =>
    -- Both runs take a number first, and the variable of one becomes that of the other.
    rw [evaluated, Nat.add_comm] at hσ
    have hnext : σ next = next' := hσ 0 (Nat.lt_of_lt_of_le Nat.zero_lt_one (Nat.le_add_right 1 _))
    have hevaluated : (Condition.quantify q collection body).evaluated =
        1 + if false then 0 else body.evaluated := by
      rw [evaluated, if_neg Bool.false_ne_true, Nat.add_comm]
    have hfails : (Condition.quantify q collection body).fails = (false || body.fails) := by
      rw [fails, Bool.false_or]
    rw [hfails, hevaluated, build, build]
    refine (parallel_next hnext).bind fun _ name _ => ?_
    have hscopes : scopes.map (Scope.rename σ) ++ [Scope.element (renameName σ name)] =
        (scopes ++ [Scope.element name]).map (Scope.rename σ) := by
      rw [List.map_append]
      rfl
    rw [hscopes]
    refine (ih (scopes ++ [Scope.element name]) (next + 1) (next' + 1) hσ.right).map ?_ ?_
    · exact fun _ _ => trivial
    · intro p
      rw [Predicate.rename_quantify, fieldOf_map hcollection]
  | given h => exact parallel_given h next next' _ _
  | failed e => exact .error e

/-- **A condition does not care which numbers are free.**  From whatever number on it is built, it takes
as many numbers, and either fails with the same error or has the same tree, with the variables of the
numbers that it took. -/
theorem IsForeign.predicate_eq {c : Condition} (h : c.IsForeign naming) {next next' : Nat}
    (hσ : Shifts σ next next' c.evaluated) :
    (c.predicate naming next).2 = next + c.evaluated ∧
    c.predicate naming next' =
      ((c.predicate naming next).1.map (.rename σ), next' + c.evaluated) := by
  have hbuild := h.parallel_build [.entity] next next' hσ
  exact ⟨hbuild.outcome.later, hbuild.eq⟩

end Condition

end EntityQuery
