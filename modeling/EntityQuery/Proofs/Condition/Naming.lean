import EntityQuery.Proofs.Condition.Variables
import EntityQuery.Proofs.Chain.Slots

/-!
# Paths and names

A property may be given by the segments of its path or by a name, in which slashes divide them.  A
condition built from names is not the one built from paths: a property on the right side of a
comparison is a node of its own there.  But the two agree in everything that a query looks at, which is
what their paths are found to be when they are checked and what is written of them in the end
(`Operand.Agree`).

`Operand.agree_node` says this for one node whose operands agree, `Condition.IsNamable.build_agree` for
whole conditions, and `Query.filter_names` draws the consequence for filters.

Two kinds of conditions have to be left out.  Names start from the entity, so nothing can be said by
name about the element of a quantifier; and a segment with a slash in it would be two in a name.  A
path without segments is none of these: as a name it is one blank segment, and neither is a path.
-/

set_option autoImplicit false

namespace EntityQuery

/-! ## Names -/

namespace Field

theorem splitSlashes_cons (c : Char) (rest : List Char) :
    splitSlashes (c :: rest) =
      if c = '/' then [] :: splitSlashes rest
      else match splitSlashes rest with
        | [] => [[c]]
        | first :: more => (c :: first) :: more := rfl

theorem splitSlashes_of_notMem {cs : List Char} (h : '/' ∉ cs) : splitSlashes cs = [cs] := by
  induction cs with
  | nil => rfl
  | cons c rest ih =>
    rw [List.mem_cons, not_or] at h
    rw [splitSlashes_cons, if_neg (Ne.symm h.1), ih h.2]

theorem splitSlashes_append {cs : List Char} (h : '/' ∉ cs) (rest : List Char) :
    splitSlashes (cs ++ '/' :: rest) = cs :: splitSlashes rest := by
  induction cs with
  | nil => rw [List.nil_append, splitSlashes_cons, if_pos rfl]
  | cons c cs ih =>
    rw [List.mem_cons, not_or] at h
    rw [List.cons_append, splitSlashes_cons, if_neg (Ne.symm h.1), ih h.2]

/-- **A name leads where its path does**, if the path has segments and no slashes in them. -/
theorem ofText_intercalate {path : List String} (hne : path ≠ [])
    (h : ∀ segment ∈ path, '/' ∉ segment.toList) : ofText ("/".intercalate path) = ⟨path⟩ := by
  suffices hsplit : (splitSlashes ("/".intercalate path).toList).map String.ofList = path by
    rw [ofText, hsplit]
  induction path with
  | nil => exact absurd rfl hne
  | cons segment rest ih =>
    rw [List.forall_mem_cons] at h
    cases rest with
    | nil =>
      rw [String.intercalate_singleton, splitSlashes_of_notMem h.1, List.map_singleton,
        String.ofList_toList]
    | cons next rest =>
      have hslash : ("/".intercalate (segment :: next :: rest)).toList =
          segment.toList ++ '/' :: ("/".intercalate (next :: rest)).toList := by
        rw [String.intercalate_cons_of_ne_nil (List.cons_ne_nil _ _), String.toList_append,
          String.toList_append, List.append_assoc]
        rfl
      rw [hslash, splitSlashes_append h.1, List.map_cons, String.ofList_toList,
        ih (List.cons_ne_nil _ _) h.2]

theorem splitSlashes_ne_nil (cs : List Char) : splitSlashes cs ≠ [] := by
  cases cs with
  | nil => exact List.cons_ne_nil _ _
  | cons c rest =>
    rw [splitSlashes_cons]
    split
    · exact List.cons_ne_nil _ _
    · split <;> exact List.cons_ne_nil _ _

theorem intercalate_splitSlashes (cs : List Char) : ['/'].intercalate (splitSlashes cs) = cs := by
  induction cs with
  | nil => rfl
  | cons c rest ih =>
    obtain ⟨first, more, hrest⟩ := List.exists_cons_of_ne_nil (splitSlashes_ne_nil rest)
    rw [hrest] at ih
    rw [splitSlashes_cons, hrest]
    by_cases hc : c = '/'
    · rw [if_pos hc, List.intercalate_cons_cons, ih, hc]
      rfl
    · rw [if_neg hc, ← ih]
      -- The character goes to the front of the first part, whether or not there are more.
      cases more with
      | nil =>
        show ['/'].intercalate [c :: first] = c :: ['/'].intercalate [first]
        rw [List.intercalate_singleton, List.intercalate_singleton]
      | cons second more =>
        show ['/'].intercalate ((c :: first) :: second :: more) =
          c :: ['/'].intercalate (first :: second :: more)
        rw [List.intercalate_cons_cons, List.intercalate_cons_cons]
        rfl

/-- Cutting a text at its slashes loses nothing. -/
theorem text_ofText (s : String) : (ofText s).text = s := by
  have hmap : (ofText s).path.map String.toList = splitSlashes s.toList := by
    simp [ofText, Function.comp_def]
  rw [← String.toList_inj, text, String.toList_intercalate, hmap]
  exact intercalate_splitSlashes s.toList

end Field

/-! ## What a query looks at -/

/-- Two operands with the same first blank path, if they have any, that are written in the same way. -/
structure Operand.Agree (x y : Operand) : Prop where
  validateFields : x.validateFields = y.validateFields
  fragment : x.fragment = y.fragment

namespace Operand

theorem Agree.refl (x : Operand) : x.Agree x := ⟨rfl, rfl⟩

theorem Agree.trans {x y z : Operand} (h : x.Agree y) (k : y.Agree z) : x.Agree z :=
  ⟨h.validateFields.trans k.validateFields, h.fragment.trans k.fragment⟩

theorem Agree.symm {x y : Operand} (h : x.Agree y) : y.Agree x :=
  ⟨h.validateFields.symm, h.fragment.symm⟩

/-- Agreement side by side. -/
theorem agree_all {xs ys : List Operand} (h : List.Forall₂ Agree xs ys) :
    validateAll xs = validateAll ys ∧ fragments xs = fragments ys := by
  induction h with
  | nil => exact ⟨rfl, rfl⟩
  | cons hx _ ih =>
    rw [validateAll, validateAll, fragments, fragments, hx.validateFields, hx.fragment, ih.1, ih.2]
    exact ⟨rfl, rfl⟩

/-- Fields agree if they fail with the same text, or are the same. -/
theorem agree_field {f g : Field} (hvalidate : f.validate = g.validate) (htext : f.text = g.text) :
    (Operand.field f).Agree (.field g) := by
  refine ⟨hvalidate, ?_⟩
  rw [fragment, fragment, Field.written, Field.written, hvalidate, htext]

/-- A field agrees with itself as a node. -/
theorem agree_ofField (f : Field) : (Operand.expression (.ofField f)).Agree (.field f) := by
  refine ⟨?_, fragment_ofField f⟩
  have hcheck : (Operand.expression (.ofField f)).validateFields =
      (f.validate >>= fun _ => .ok ()) := rfl
  rw [hcheck, validateFields]
  cases f.validate <;> rfl

/-- **Nodes agree if their operands do.**  What a quantifier does with its variable is not looked at
here. -/
theorem agree_node {operator : Operator} (hoperator : operator ≠ .any ∧ operator ≠ .all)
    {xs ys : List Operand} (h : List.Forall₂ Agree xs ys) :
    (Operand.expression (.alone operator xs)).Agree (.expression (.alone operator ys)) := by
  obtain ⟨hvalidate, hfragments⟩ := agree_all h
  have hcompose (pieces : List Written) :
      Fragment.compose operator xs pieces = Fragment.compose operator ys pieces := by
    cases operator with
    | any => exact absurd rfl hoperator.1
    | all => exact absurd rfl hoperator.2
    | _ => rfl
  constructor
  · exact hvalidate
  · have hunlinked (zs : List Operand) : (Expression.alone operator zs).isLinked ≠ true := nofun
    rw [fragment, fragment, if_neg (hunlinked xs), if_neg (hunlinked ys), Expression.fragment_alone,
      Expression.fragment_alone, hfragments, hcompose]

end Operand

namespace Predicate

/-- Two predicates that agree as operands. -/
def Agree (p q : Predicate) : Prop :=
  (Operand.expression p.expression).Agree (.expression q.expression)

theorem agree_compare (c : Comparison) {f g : Field} {x y : Operand}
    (hf : (Operand.field f).Agree (.field g)) (hx : x.Agree y) :
    (compare c f x).Agree (compare c g y) := by
  refine Operand.agree_node ?_ (.cons hf (.cons hx .nil))
  cases c <;> decide

theorem agree_oneOf {f g : Field} (hf : (Operand.field f).Agree (.field g)) (values : List Value) :
    (oneOf f values).Agree (oneOf g values) :=
  Operand.agree_node (by decide) (.cons hf (.cons (.refl _) .nil))

theorem agree_join (j : Joint) {p p' q q' : Predicate} (hp : p.Agree p') (hq : q.Agree q') :
    (join j p q).Agree (join j p' q') := by
  refine Operand.agree_node ?_ (.cons hp (.cons hq .nil))
  cases j <;> decide

/-- How three predicates are bracketed does not matter. -/
theorem agree_join_join (j : Joint) (p q r : Predicate) :
    (join j (join j p q) r).Agree (join j p (join j q r)) := by
  constructor
  · have hcheck (s t : Predicate) : (Operand.expression (join j s t).expression).validateFields =
        s.expression.validateFields >>= fun _ => t.expression.validateFields := by
      show (s.expression.validateFields >>= fun _ =>
        t.expression.validateFields >>= fun _ => .ok ()) = _
      cases s.expression.validateFields <;> cases t.expression.validateFields <;> rfl
    have hinner (s t : Predicate) : (join j s t).expression.validateFields =
        s.expression.validateFields >>= fun _ => t.expression.validateFields := hcheck s t
    rw [hcheck, hcheck, hinner, hinner]
    cases p.expression.validateFields <;> rfl
  · rw [fragment_operand, fragment_operand, fragment_join, fragment_join, fragment_join, fragment_join]
    cases p.expression.fragment with
    | error e => rfl
    | ok f =>
      cases q.expression.fragment with
      | error e => rfl
      | ok g =>
        cases r.expression.fragment with
        | error e => rfl
        | ok h => exact congrArg Except.ok (Fragment.join_join j f g h)

theorem agree_negate {p q : Predicate} (h : p.Agree q) : p.negate.Agree q.negate :=
  Operand.agree_node (by decide) (.cons h .nil)

theorem agree_foldl (j : Joint) {p q : Predicate} {ps qs : List Predicate} (h : p.Agree q)
    (hs : List.Forall₂ Agree ps qs) : (ps.foldl (join j) p).Agree (qs.foldl (join j) q) := by
  induction hs generalizing p q with
  | nil => exact h
  | cons hone _ ih => exact ih (agree_join j h hone)

end Predicate

/-! ## Work that agrees -/

/-- Two results that agree: good ones in the given sense, or the same error. -/
inductive AgreeOn {α β : Type} (rel : α → β → Prop) : Except QueryError α → Except QueryError β → Prop
  | ok {a : α} {b : β} (h : rel a b) : AgreeOn rel (.ok a) (.ok b)
  | error (e : QueryError) : AgreeOn rel (.error e) (.error e)

/-- Work that takes the same numbers, whatever it begins with, and has results that agree. -/
def Numbering.Agree {α β : Type} (rel : α → β → Prop) (x : Numbering α) (y : Numbering β) : Prop :=
  ∀ next, AgreeOn rel (x.run.run next).1 (y.run.run next).1 ∧
    (x.run.run next).2 = (y.run.run next).2

namespace Numbering.Agree

variable {α β α' β' : Type} {rel : α → β → Prop} {rel' : α' → β' → Prop}

theorem pure {a : α} {b : β} (h : rel a b) : Agree rel (Pure.pure a) (Pure.pure b) :=
  fun _ => ⟨.ok h, rfl⟩

/-- Work that takes no number. -/
theorem lift {x : Except QueryError α} {y : Except QueryError β} (h : AgreeOn rel x y) :
    Agree rel (liftM x : Numbering α) (liftM y : Numbering β) := fun _ => ⟨h, rfl⟩

/-- Work on results that agree. -/
theorem bind {x : Numbering α} {y : Numbering β} {f : α → Numbering α'} {g : β → Numbering β'}
    (h : Agree rel x y) (hfg : ∀ a b, rel a b → Agree rel' (f a) (g b)) :
    Agree rel' (x >>= f) (y >>= g) := by
  intro next
  obtain ⟨hresult, hlater⟩ := h next
  rw [ExceptT.run_bind, StateT.run_bind, ExceptT.run_bind, StateT.run_bind]
  generalize x.run.run next = r at hresult hlater ⊢
  generalize y.run.run next = s at hresult hlater ⊢
  obtain ⟨result, later⟩ := r
  obtain ⟨result', later'⟩ := s
  obtain rfl : later = later' := hlater
  cases hresult with
  | ok hab => exact hfg _ _ hab later
  | error e => exact ⟨.error e, rfl⟩

end Numbering.Agree

/-! ## Conditions by name -/

/-- A path that may be told by its name. -/
def PropertyPath.IsNamable (p : PropertyPath) : Prop := ∀ segment ∈ p.segments, '/' ∉ segment.toList

instance (p : PropertyPath) : Decidable p.IsNamable :=
  inferInstanceAs (Decidable (∀ segment ∈ p.segments, '/' ∉ segment.toList))

namespace Condition

/-- A condition without quantifiers, on paths that may be told by their names. -/
inductive IsNamable : Condition → Prop
  | compare (c : Comparison) {left : PropertyPath} (hleft : left.IsNamable) (x : Operand) :
      IsNamable (.compare c left (.operand x))
  | compareProperty (c : Comparison) {left right : PropertyPath} (hleft : left.IsNamable)
      (hright : right.IsNamable) : IsNamable (.compare c left (.property right))
  | oneOf {left : PropertyPath} (hleft : left.IsNamable) (values : List Value) :
      IsNamable (.oneOf left values)
  | join (joint : Joint) (swapped : Bool) {first second : Condition} (hfirst : IsNamable first)
      (hsecond : IsNamable second) : IsNamable (.join joint swapped first second)
  | fold (joint : Joint) {conditions : List Condition} (h : ∀ c ∈ conditions, IsNamable c) :
      IsNamable (.fold joint conditions)
  | negate {inner : Condition} (h : IsNamable inner) : IsNamable (.negate inner)
  | given (e : Expression) : IsNamable (.given e)
  | failed (e : QueryError) : IsNamable (.failed e)

/-- Outside of quantifiers a path starts from the entity. -/
theorem scopeOf_entity (p : PropertyPath) : scopeOf [.entity] p = .entity := by
  rw [scopeOf]
  split
  · next i _ => cases i <;> rfl
  · rfl

theorem fieldOf_paths (p : PropertyPath) : fieldOf .paths [.entity] p = ⟨p.segments⟩ := by
  rw [fieldOf, scopeOf_entity]
  rfl

/-- The fields of a path and of its name agree. -/
theorem agree_fieldOf {p : PropertyPath} (h : p.IsNamable) :
    (Operand.field (fieldOf .names [.entity] p)).Agree (.field (fieldOf .paths [.entity] p)) := by
  rw [fieldOf_paths]
  by_cases hne : p.segments = []
  · -- The name of no segments has one, which is blank; both are refused as the path `''`.
    rw [fieldOf, hne]
    exact Operand.agree_field rfl rfl
  · rw [fieldOf, Field.ofText_intercalate hne h]
    exact .refl _

theorem agree_operandOf {p : PropertyPath} (h : p.IsNamable) :
    (operandOf .names [.entity] (.property p)).Agree
      (operandOf .paths [.entity] (.property p)) := by
  have hnode := Operand.agree_ofField (fieldOf .names [.entity] p)
  have hfield := agree_fieldOf h
  exact ⟨hnode.validateFields.trans hfield.validateFields, hnode.fragment.trans hfield.fragment⟩

/-- Conditions that agree one by one. -/
theorem agree_buildAll {conditions : List Condition}
    (h : ∀ c ∈ conditions, Numbering.Agree Predicate.Agree (c.build .names [.entity])
      (c.build .paths [.entity])) :
    Numbering.Agree (List.Forall₂ Predicate.Agree) (buildAll .names [.entity] conditions)
      (buildAll .paths [.entity] conditions) := by
  induction conditions with
  | nil =>
    rw [buildAll, buildAll]
    exact .pure .nil
  | cons c rest ih =>
    rw [List.forall_mem_cons] at h
    rw [buildAll, buildAll]
    refine h.1.bind fun p q hpq => ?_
    refine (ih h.2).bind fun ps qs hall => ?_
    exact .pure (.cons hpq hall)

theorem agree_fold (joint : Joint) {ps qs : List Predicate}
    (h : List.Forall₂ Predicate.Agree ps qs) :
    AgreeOn Predicate.Agree (Predicate.fold joint ps) (Predicate.fold joint qs) := by
  cases h with
  | nil => exact .error _
  | cons hpq hrest => exact .ok (Predicate.agree_foldl joint hpq hrest)

/-- **What is built from names agrees with what is built from paths.** -/
theorem IsNamable.agree_build {c : Condition} (h : c.IsNamable) :
    Numbering.Agree Predicate.Agree (c.build .names [.entity]) (c.build .paths [.entity]) := by
  induction h with
  | compare c hleft x =>
    rw [build, build]
    exact .pure (Predicate.agree_compare c (agree_fieldOf hleft) (.refl x))
  | compareProperty c hleft hright =>
    rw [build, build]
    exact .pure (Predicate.agree_compare c (agree_fieldOf hleft) (agree_operandOf hright))
  | oneOf hleft values =>
    rw [build, build]
    exact .pure (Predicate.agree_oneOf (agree_fieldOf hleft) values)
  | join joint swapped _ _ ihfirst ihsecond =>
    rw [build, build]
    refine ihfirst.bind fun p p' hp => ?_
    refine ihsecond.bind fun q q' hq => ?_
    cases swapped with
    | false => exact .pure (Predicate.agree_join joint hp hq)
    | true => exact .pure (Predicate.agree_join joint hq hp)
  | fold joint _ ih =>
    rw [build, build]
    refine (agree_buildAll ih).bind fun ps qs hall => ?_
    exact .lift (agree_fold joint hall)
  | negate _ ih =>
    rw [build, build]
    refine ih.bind fun p q hpq => ?_
    exact .pure (Predicate.agree_negate hpq)
  | given e =>
    rw [build, build]
    refine .lift ?_
    cases Predicate.ofExpression e with
    | ok p => exact .ok (Operand.Agree.refl _)
    | error e => exact .error e
  | failed e =>
    rw [build, build]
    exact .lift (.error e)

end Condition

/-! ## Filters by name -/

namespace Query

/-- Filters with predicates that agree lead to the same URL or fail in the same way. -/
theorem url_push_predicate (q : Query) {p p' : Predicate} (h : p.Agree p') :
    (q.push .predicate [.expression p.expression]).url =
      (q.push .predicate [.expression p'.expression]).url := by
  have hfragment : p.expression.fragment = p'.expression.fragment := by
    have hoperand := h.fragment
    rw [Predicate.fragment_operand, Predicate.fragment_operand] at hoperand
    exact hoperand
  have hstep (d : Segments.Draft) : d.predicate [.expression p.expression] =
      d.predicate [.expression p'.expression] := by
    rw [Segments.Draft.predicate, Segments.Draft.predicate, p.isLinked_expression,
      p'.isLinked_expression, hfragment]
  have hrun (steps : List Step) :
      Segments.run (steps ++ [(Operator.predicate, [Operand.expression p.expression])]) =
        Segments.run (steps ++ [(Operator.predicate, [Operand.expression p'.expression])]) := by
    rw [Segments.run_append_singleton, Segments.run_append_singleton]
    exact congrArg (Segments.run steps >>= ·) (funext hstep)
  rw [url, url, Service.url, Service.url, Segments.ofChain_eq_run, Segments.ofChain_eq_run, push,
    push, Expression.steps_node, Expression.steps_node, hrun]

theorem agree_filterPredicate (q : Query) {p p' : Predicate} (h : p.Agree p') :
    AgreeOn (fun q₁ q₂ => q₁.url = q₂.url) (q.filterPredicate p) (q.filterPredicate p') := by
  have hvalidate : p.expression.validateFields = p'.expression.validateFields := by
    have hoperand := h.validateFields
    rw [Operand.validateFields, Operand.validateFields] at hoperand
    exact hoperand
  rw [filterPredicate, filterPredicate, hvalidate]
  cases p'.expression.validateFields with
  | ok u => exact .ok (q.url_push_predicate h)
  | error e => exact .error e

/-- **A filter by name is as good as one by path.**  A condition without quantifiers, on paths without
slashes in their segments, may be told in both ways.  Then a filter with it takes the same numbers, and
either fails in both ways with the same error, or leads to queries that have the same URL or the same
reason for having none. -/
theorem filter_names (q : Query) {c : Condition} (h : c.IsNamable) (next : Nat) :
    ((q.filter .names c).run.run next).2 = ((q.filter .paths c).run.run next).2 ∧
    ((∃ e, ((q.filter .names c).run.run next).1 = .error e ∧
        ((q.filter .paths c).run.run next).1 = .error e) ∨
      ∃ q₁ q₂, ((q.filter .names c).run.run next).1 = .ok q₁ ∧
        ((q.filter .paths c).run.run next).1 = .ok q₂ ∧ q₁.url = q₂.url) := by
  have hagree : Numbering.Agree (fun q₁ q₂ => q₁.url = q₂.url) (q.filter .names c)
      (q.filter .paths c) :=
    h.agree_build.bind fun p p' hp => .lift (q.agree_filterPredicate hp)
  obtain ⟨hresult, hlater⟩ := hagree next
  refine ⟨hlater, ?_⟩
  generalize ((q.filter .names c).run.run next).1 = r at hresult ⊢
  generalize ((q.filter .paths c).run.run next).1 = s at hresult ⊢
  cases hresult with
  | @ok q₁ q₂ hurl => exact .inr ⟨q₁, q₂, rfl, rfl, hurl⟩
  | error e => exact .inl ⟨e, rfl, rfl⟩

/-- Not older than at some path. -/
def notOlderThan (path : List String) : Condition :=
  .negate (.compare .greaterThan ⟨none, ["age"]⟩ (.property ⟨none, path⟩))

/-- The trees are not the same, but the URLs are. -/
theorem filter_names_notOlderThan :
    ((notOlderThan ["mother", "age"]).predicate .names 0).1 ≠
      ((notOlderThan ["mother", "age"]).predicate .paths 0).1 ∧
    ∃ q₁ q₂, (((on ⟨"/users", false, none⟩ .any).filter .names
        (notOlderThan ["mother", "age"])).run.run 0).1 = .ok q₁ ∧
      (((on ⟨"/users", false, none⟩ .any).filter .paths
        (notOlderThan ["mother", "age"])).run.run 0).1 = .ok q₂ ∧
      q₁.url = q₂.url ∧ q₁.url = .ok "/users?$filter=not%20age%20gt%20mother%2Fage" := by
  have hnamable : (notOlderThan ["mother", "age"]).IsNamable :=
    .negate (.compareProperty _ (by decide) (by decide))
  refine ⟨nofun, ?_⟩
  obtain ⟨e, he, -⟩ | ⟨q₁, q₂, hnames, hpaths, hurl⟩ :=
    (filter_names (on ⟨"/users", false, none⟩ .any) hnamable 0).2
  · cases he
  · refine ⟨q₁, q₂, hnames, hpaths, hurl, ?_⟩
    obtain rfl := Except.ok.inj hnames
    rfl

end Query

end EntityQuery
