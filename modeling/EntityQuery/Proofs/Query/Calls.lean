import EntityQuery.Query
import EntityQuery.Proofs.Chain.Conjunction
import EntityQuery.Proofs.Filter.Constants
import EntityQuery.Proofs.Projection.Selection

/-!
# Queries made by calls

A query is made by one call after the other, and every call checks what it is given: that there are
fields, and that all paths name something.  What it does not check is whether constants can be written,
and whether the operands of a step are those that the step is made for.  The second need not be checked,
as no call makes anything else.

So a query made by calls has a URL unless one of its constants has no text
(`Query.url_of_calls`).  A step is clear if it is refused for its constants only, the first of them that
has no text (`Segments.IsClear`); every call makes a clear step (`Query.Call.gives_apply`), and a chain
of clear steps fails at the first constant that has no text (`Segments.map_run_of_isClear`).  Constants
count even in steps that a later one overrides.
-/

set_option autoImplicit false

namespace EntityQuery

/-! ## Work that gives out numbers -/

/-- Whatever number it begins with, some work has a good result if it has one. -/
def Numbering.Gives {α : Type} (x : Numbering α) (good : α → Prop) : Prop :=
  ∀ next a, (x.run.run next).1 = .ok a → good a

namespace Numbering.Gives

variable {α β : Type} {good : α → Prop} {good' : β → Prop}

theorem pure {a : α} (h : good a) : Gives (Pure.pure a) good :=
  fun _ _ hb => Except.ok.inj hb ▸ h

/-- Work that takes no number. -/
theorem lift {x : Except QueryError α} (h : ∀ a, x = .ok a → good a) :
    Gives (liftM x : Numbering α) good := fun _ => h

theorem bind {x : Numbering α} {f : α → Numbering β} (hx : x.Gives good)
    (hf : ∀ a, good a → (f a).Gives good') : (x >>= f).Gives good' := by
  intro next b h
  rw [ExceptT.run_bind, StateT.run_bind] at h
  cases hrun : x.run.run next with
  | mk result later =>
    rw [hrun] at h
    cases result with
    | error e => cases h
    | ok a => exact hf a (hx next a (congrArg Prod.fst hrun)) later b h

/-- One after the other. -/
theorem foldlM {f : α → β → Numbering α} {xs : List β} {a : α}
    (hf : ∀ b, good b → ∀ x ∈ xs, (f b x).Gives good) (ha : good a) :
    Gives (xs.foldlM f a) good := by
  induction xs generalizing a with
  | nil => exact pure ha
  | cons x rest ih =>
    rw [List.foldlM_cons]
    exact (hf a ha x List.mem_cons_self).bind fun b hb =>
      ih (fun b hb y hy => hf b hb y (List.mem_cons_of_mem _ hy)) hb

end Numbering.Gives

/-! ## Conditions without foreign parts -/

/-- A condition in which the right sides of comparisons are constants or fields, and whatever was made
outside was made by the builders. -/
inductive Condition.IsPlain : Condition → Prop
  | compare (c : Comparison) (left : PropertyPath) {x : Operand} (hx : x.IsComparand) :
      IsPlain (.compare c left (.operand x))
  | compareProperty (c : Comparison) (left right : PropertyPath) :
      IsPlain (.compare c left (.property right))
  | oneOf (left : PropertyPath) (values : List Value) : IsPlain (.oneOf left values)
  | join (joint : Joint) (swapped : Bool) {first second : Condition} (hfirst : IsPlain first)
      (hsecond : IsPlain second) : IsPlain (.join joint swapped first second)
  | fold (joint : Joint) {conditions : List Condition} (h : ∀ c ∈ conditions, IsPlain c) :
      IsPlain (.fold joint conditions)
  | negate {inner : Condition} (h : IsPlain inner) : IsPlain (.negate inner)
  | quantify (q : Quantifier) (collection : PropertyPath) {body : Condition} (h : IsPlain body) :
      IsPlain (.quantify q collection body)
  | given {p : Predicate} (h : p.IsComposed) : IsPlain (.given p.expression)
  | failed (e : QueryError) : IsPlain (.failed e)

namespace Condition

theorem gives_buildAll {naming : Naming} {scopes : List Scope} {good : Predicate → Prop}
    {cs : List Condition} (h : ∀ c ∈ cs, (c.build naming scopes).Gives good) :
    (buildAll naming scopes cs).Gives fun ps => ∀ p ∈ ps, good p := by
  induction cs with
  | nil => exact .pure nofun
  | cons c rest ih =>
    rw [List.forall_mem_cons] at h
    exact h.1.bind fun p hp => (ih h.2).bind fun ps hps => .pure (List.forall_mem_cons.2 ⟨hp, hps⟩)

/-- What a plain condition is built into is composed of what the builders make. -/
theorem IsPlain.gives_build {c : Condition} (h : c.IsPlain) (naming : Naming) (scopes : List Scope) :
    (c.build naming scopes).Gives Predicate.IsComposed := by
  induction h generalizing scopes with
  | compare c left hx => exact .pure (.compare c _ hx)
  | compareProperty c left right =>
    refine .pure (.compare c _ ?_)
    cases naming with
    | paths => exact .field _
    | names => exact .fieldNode _
  | oneOf left values => exact .pure (.oneOf _ values)
  | join joint swapped _ _ ihfirst ihsecond =>
    refine (ihfirst scopes).bind fun p hp => (ihsecond scopes).bind fun q hq => .pure ?_
    cases swapped with
    | false => exact .join joint hp hq
    | true => exact .join joint hq hp
  | fold joint _ ih =>
    refine (gives_buildAll fun c hc => ih c hc scopes).bind fun ps hps => .lift fun p hp => ?_
    cases ps with
    | nil => cases hp
    | cons q rest =>
      rw [List.forall_mem_cons] at hps
      exact Except.ok.inj hp ▸ hps.1.foldl hps.2
  | negate _ ih => exact (ih scopes).bind fun p hp => .pure hp.negate
  | quantify q collection _ ih =>
    -- Any name will do for the variable, so nothing is asked of the number.
    have hnext : Numbering.next.Gives fun _ => True := fun _ _ _ => trivial
    exact hnext.bind fun name _ =>
      (ih (scopes ++ [Scope.element name])).bind fun p hp => .pure (.quantify q _ name hp)
  | @given p hp =>
    refine .lift fun q hq => ?_
    rw [Predicate.ofExpression_expression] at hq
    exact Except.ok.inj hq ▸ hp
  | failed e => exact fun _ _ h => nomatch h

end Condition

/-! ## Clear steps -/

/-- The constants that a step writes: those of a filter or of a key. -/
def Step.constants : Step → List Literal
  | (.predicate, operands) => Operand.constantsAll operands
  | (.getByKey, operands) => Operand.constantsAll operands
  | _ => []

namespace Segments

/-- If a step is refused, then for the first of its constants that has no text. -/
def IsClear (s : Step) : Prop :=
  ∀ older, verdictAfter older s = Literal.checkAll s.constants

theorem isClear_of_verdict {s : Step} (h : verdict s = Literal.checkAll s.constants) : IsClear s := by
  intro older
  rw [verdictAfter]
  split
  · next hexc =>
    -- An `expand` that is not looked at writes no constant either.
    obtain ⟨operator, operands⟩ := s
    simp only [excuses, Bool.and_eq_true, beq_iff_eq] at hexc
    obtain ⟨rfl, _⟩ := hexc
    rfl
  · exact h

/-- **Chains of clear steps.**  Such a chain is refused for the first of all its constants that has no
text. -/
theorem map_run_of_isClear {steps : List Step} (h : ∀ s ∈ steps, IsClear s) :
    (run steps).map (fun _ => ()) = Literal.checkAll (steps.flatMap Step.constants) := by
  induction steps using List.reverseRecOn with
  | nil => rfl
  | append_singleton steps s ih =>
    rw [map_run_append_singleton, ih fun t ht => h t (List.mem_append_left _ ht),
      h s (by simp) steps, List.flatMap_append, Literal.checkAll_append, List.flatMap_singleton]

theorem mapM_fieldText {operator : Operator} {fields : List Field}
    (h : ∀ f ∈ fields, f.validate = .ok ()) :
    (fields.map Operand.field).mapM (Draft.fieldText operator) = .ok (fields.map Field.text) := by
  induction fields with
  | nil => rfl
  | cons f rest ih =>
    rw [List.forall_mem_cons] at h
    rw [List.map_cons, List.mapM_cons, ih h.2, Draft.fieldText, Field.written, h.1]
    rfl

theorem filter_fields (fields : List Field) :
    (fields.map Operand.field).filter (fun x => !Draft.isProjection x) = fields.map .field := by
  rw [List.filter_eq_self]
  rintro x hx
  obtain ⟨f, _, rfl⟩ := List.mem_map.1 hx
  rfl

/-- A step on fields is clear if they name something. -/
theorem isClear_fields {operator : Operator} {fields : List Field}
    (hoperator : operator ∈ [.select, .orderBy, .orderByDescending, .expand])
    (h : ∀ f ∈ fields, f.validate = .ok ()) : IsClear (operator, fields.map .field) := by
  have hbind (f : List String → Draft) :
      ((fields.map Operand.field).mapM (Draft.fieldText operator) >>= fun texts => .ok (f texts)).map
        (fun _ => ()) = .ok () := by
    rw [mapM_fieldText h]
    rfl
  refine isClear_of_verdict ((verdict_eq _).trans ?_)
  simp only [List.mem_cons, List.not_mem_nil, or_false] at hoperator
  rcases hoperator with rfl | rfl | rfl | rfl
  · change (Draft.empty.select (fields.map .field)).map (fun _ => ()) = .ok ()
    rw [Draft.select, filter_fields]
    exact hbind _
  · exact hbind _
  · exact hbind _
  · exact hbind _

/-- A projection does not disturb the fields it is selected with. -/
theorem isClear_selectWith {fields : List Field} (h : ∀ f ∈ fields, f.validate = .ok ())
    (p : Projection) : IsClear (.select, fields.map .field ++ [.projection p]) := by
  refine isClear_of_verdict ((verdict_eq _).trans ?_)
  change (Draft.empty.select (fields.map .field ++ [Operand.projection p])).map (fun _ => ()) = .ok ()
  rw [Draft.select, List.filter_append, filter_fields,
    show [Operand.projection p].filter (fun x => !Draft.isProjection x) = [] from rfl,
    List.append_nil, mapM_fieldText h]
  rfl

/-- Any number of 64 bits is a count. -/
theorem count?_ofInt (n : UInt64) : (Decimal.ofInt n.toNat).count? = some n.toNat := by
  have hlimit : n.toNat < Decimal.countLimit := n.toNat_lt
  have hlength : 0 < (Nat.repr n.toNat).length := by
    rw [← String.length_toList, Nat.toList_repr]
    exact Nat.length_toDigits_pos
  by_cases hzero : n.toNat = 0
  · simp [Decimal.count?, Decimal.ofInt, hzero]
  · simp [Decimal.count?, Decimal.ofInt, hzero, hlimit, Nat.ne_of_gt hlength]

theorem isClear_count {operator : Operator} (h : operator ∈ [.top, .skip]) (n : UInt64) :
    IsClear (operator, [Query.countOperand n.toNat]) := by
  have hcount : Draft.countOf operator [Query.countOperand n.toNat] = .ok n.toNat := by
    rw [Query.countOperand, Draft.countOf, count?_ofInt]
  have hmap (f : Nat → Draft) :
      ((Draft.countOf operator [Query.countOperand n.toNat]).map f).map (fun _ => ()) = .ok () := by
    rw [hcount]
    rfl
  refine isClear_of_verdict ((verdict_eq _).trans ?_)
  simp only [List.mem_cons, List.not_mem_nil, or_false] at h
  rcases h with rfl | rfl
  · exact hmap _
  · exact hmap _

theorem isClear_predicate {p : Predicate} (h : p.IsComposed)
    (hvalid : p.expression.validateFields = .ok ()) : IsClear p.step := by
  intro older
  have hconstants : p.step.constants = p.expression.constants ++ [] := rfl
  rw [verdictAfter_step, h.map_fragment hvalid, hconstants, List.append_nil]

/-- The text of a constant as a key is its text anywhere. -/
theorem keyText_of_isConstant {x : Operand} (h : x.IsConstant) :
    Draft.keyText x = x.fragment.map Fragment.joined := by
  cases h with
  | literal l => rw [Draft.keyText, Operand.fragment]
  | bare v => rw [Draft.keyText, Operand.fragment]
  | node l => rfl

theorem isClear_getByKey {x : Operand} (h : x.IsConstant) : IsClear (.getByKey, [x]) := by
  refine isClear_of_verdict ((verdict_eq _).trans ?_)
  have hconstants : Step.constants (.getByKey, [x]) = x.constants ++ [] := rfl
  rw [hconstants, List.append_nil, ← h.map_fragment]
  change ((Draft.keyText x).map _).map (fun _ => ()) = _
  rw [keyText_of_isConstant h]
  cases x.fragment <;> rfl

end Segments

/-! ## Fields of a projection -/

namespace Projection

/-- The fields of a projection name something if no segment of what it reads is blank. -/
theorem validate_of_mem_fields (p : Projection)
    (h : ∀ path ∈ p.reads, ∀ segment ∈ path, Text.isBlank segment = false) :
    ∀ f ∈ p.fields, f.validate = .ok () := by
  intro f hf
  obtain ⟨path, hpath, rfl⟩ := List.mem_map.1 hf
  obtain ⟨hmem, hne⟩ := List.mem_filter.1 (mem_firstUses.1 hpath)
  have hblank : path.any Text.isBlank = false := by
    rw [List.any_eq_false]
    exact fun segment hsegment => by rw [h path hmem segment hsegment]; exact Bool.false_ne_true
  rw [Field.validate, Field.isValid, hblank, hne]
  rfl

end Projection

/-! ## Calls -/

namespace Query

/-- A call that makes a query one step longer. -/
inductive Call
  | select (fields : List Field)
  | selectWith (p : Projection) (result : Shape)
  | orderBy (fields : List Field)
  | orderByDescending (fields : List Field)
  | expand (fields : List Field)
  | expandAll
  /-- A filter whose condition is built in the call. -/
  | filter (naming : Naming) (c : Condition)
  /-- A filter whose condition was built before. -/
  | filterPredicate (p : Predicate)
  | top (n : UInt64)
  | skip (n : UInt64)
  | byKey (key : Operand)
  | withCount
  | value

namespace Call

/-- Does a call. -/
def apply (q : Query) : Call → Numbering Query
  | select fields => q.select fields
  | selectWith p result => return q.selectWith p result
  | orderBy fields => q.orderBy fields
  | orderByDescending fields => q.orderByDescending fields
  | expand fields => q.expand fields
  | expandAll => return q.expandAll
  | filter naming c => q.filter naming c
  | filterPredicate p => q.filterPredicate p
  | top n => return q.top n.toNat
  | skip n => return q.skip n.toNat
  | byKey key => return q.byKey key
  | withCount => return q.withCount
  | value => return q.value

/-- A call with conditions that the builders make, keys that are constants, and projections that read no
blank segment. -/
def IsPlain : Call → Prop
  | selectWith p _ => ∀ path ∈ p.reads, ∀ segment ∈ path, Text.isBlank segment = false
  | filter _ c => c.IsPlain
  | filterPredicate p => p.IsComposed
  | byKey key => key.IsConstant
  | _ => True

end Call

/-- Does one call after the other. -/
def after (q : Query) (calls : List Call) : Numbering Query := calls.foldlM Call.apply q

/-- A query on a service, all of whose steps are clear. -/
structure IsClear (service : Service) (q : Query) : Prop where
  service_eq : q.service = service
  steps : ∀ s ∈ Expression.steps q.head, Segments.IsClear s

variable {service : Service} {q : Query}

theorem isClear_on (service : Service) (entity : Shape) : (on service entity).IsClear service :=
  ⟨rfl, nofun⟩

theorem IsClear.push (h : q.IsClear service) {operator : Operator} {operands : List Operand}
    (hs : Segments.IsClear (operator, operands)) : (q.push operator operands).IsClear service := by
  refine ⟨h.service_eq, fun s hmem => ?_⟩
  rw [Query.push, Expression.steps_node, List.mem_append, List.mem_singleton] at hmem
  rcases hmem with hmem | rfl
  · exact h.steps s hmem
  · exact hs

/-- The shape of the results does not matter. -/
theorem IsClear.withResult (h : q.IsClear service) (result : Shape) :
    IsClear service { q with result := result } := ⟨h.service_eq, h.steps⟩

/-- Fields that become operands name something. -/
theorem mapM_validate_eq_ok {fields : List Field} {operands : List Operand}
    (h : (fields.mapM fun f => f.validate.map fun _ => Operand.field f) = .ok operands) :
    operands = fields.map .field ∧ ∀ f ∈ fields, f.validate = .ok () := by
  induction fields generalizing operands with
  | nil => exact ⟨(Except.ok.inj h).symm, nofun⟩
  | cons f rest ih =>
    rw [List.mapM_cons] at h
    obtain ⟨x, hx, h⟩ := bind_eq_ok.1 h
    obtain ⟨xs, hxs, h⟩ := bind_eq_ok.1 h
    obtain ⟨_, hf, rfl⟩ := map_eq_ok.1 hx
    obtain ⟨rfl, hrest⟩ := ih hxs
    exact ⟨(Except.ok.inj h).symm, List.forall_mem_cons.2 ⟨hf, hrest⟩⟩

theorem IsClear.pushFields (h : q.IsClear service) {operator : Operator} {fields : List Field}
    (hoperator : operator ∈ [.select, .orderBy, .orderByDescending, .expand]) {r : Query}
    (hr : q.pushFields operator fields = .ok r) : r.IsClear service := by
  obtain ⟨operands, hoperands, rfl⟩ := map_eq_ok.1 hr
  rw [fieldOperands] at hoperands
  split at hoperands
  · cases hoperands
  · obtain ⟨rfl, hfields⟩ := mapM_validate_eq_ok hoperands
    exact h.push (Segments.isClear_fields hoperator hfields)

theorem IsClear.filterPredicate (h : q.IsClear service) {p : Predicate} (hp : p.IsComposed)
    {r : Query} (hr : q.filterPredicate p = .ok r) : r.IsClear service := by
  obtain ⟨_, hvalid, rfl⟩ := map_eq_ok.1 hr
  exact h.push (Segments.isClear_predicate hp hvalid)

/-- **What one call does.**  A call that succeeds makes a clear step. -/
theorem Call.IsPlain.gives_apply {call : Call} (hcall : call.IsPlain) (h : q.IsClear service) :
    (call.apply q).Gives (IsClear service) := by
  cases call with
  | select fields =>
    refine .lift fun r hr => ?_
    obtain ⟨r', hr', rfl⟩ := map_eq_ok.1 hr
    exact (h.pushFields (by decide) hr').withResult q.entity
  | selectWith p result =>
    have hfields := p.validate_of_mem_fields hcall
    exact .pure ((h.push (Segments.isClear_selectWith hfields p)).withResult result)
  | orderBy fields => exact .lift fun r hr => h.pushFields (by decide) hr
  | orderByDescending fields => exact .lift fun r hr => h.pushFields (by decide) hr
  | expand fields => exact .lift fun r hr => h.pushFields (by decide) hr
  | expandAll => exact .pure (h.push (Segments.isClear_of_verdict rfl))
  | filter naming c =>
    exact (Condition.IsPlain.gives_build hcall naming _).bind fun p hp =>
      .lift fun r hr => h.filterPredicate hp hr
  | filterPredicate p => exact .lift fun r hr => h.filterPredicate hcall hr
  | top n => exact .pure (h.push (Segments.isClear_count (by decide) n))
  | skip n => exact .pure (h.push (Segments.isClear_count (by decide) n))
  | byKey key => exact .pure (h.push (Segments.isClear_getByKey hcall))
  | withCount => exact .pure (h.push (Segments.isClear_of_verdict rfl))
  | value => exact .pure (h.push (Segments.isClear_of_verdict rfl))

theorem gives_after {calls : List Call} (hcalls : ∀ call ∈ calls, call.IsPlain)
    (h : q.IsClear service) : (q.after calls).Gives (IsClear service) :=
  .foldlM (fun _ hr call hcall => (hcalls call hcall).gives_apply hr) h

/-- **Which queries have a URL.**  A query that was made by calls, on whatever numbers, has a URL exactly
if every constant of its filters and keys has a text, those of overridden keys included.  Otherwise it
fails with the first constant that has no text, in the order of the calls and from left to right, and
it never fails in another way. -/
theorem url_of_calls (service : Service) (entity : Shape) {calls : List Call}
    (hcalls : ∀ call ∈ calls, call.IsPlain) {next : Nat} {q : Query}
    (hq : (((on service entity).after calls).run.run next).1 = .ok q) :
    ((∃ url, q.url = .ok url) ↔
      ∀ l ∈ (Expression.steps q.head).flatMap Step.constants, ∃ text, l.render = .ok text) ∧
    ∀ e, q.url = .error e ↔ ∃ before l behind reason,
      (Expression.steps q.head).flatMap Step.constants = before ++ l :: behind ∧
        (∀ m ∈ before, ∃ text, m.render = .ok text) ∧ l.render = .error reason ∧
          e = .unsupportedValue reason := by
  have hclear := gives_after hcalls (isClear_on service entity) next q hq
  have hmap := Segments.map_run_of_isClear hclear.steps
  have hurl : q.url.map (fun _ => ()) =
      Literal.checkAll ((Expression.steps q.head).flatMap Step.constants) := by
    rw [← hmap, url, Service.url, Segments.ofChain_eq_run]
    cases Segments.run (Expression.steps q.head) <;> rfl
  constructor
  · rw [← Literal.checkAll_eq_ok, ← hurl, map_eq_ok]
    simp
  · intro e
    rw [← Literal.checkAll_eq_error, ← hurl, map_eq_error]

/-- A key that is no day counts although another key replaces it. -/
theorem url_of_calls_overridden_key :
    ∃ q, (((on ⟨"/odata/users", false, none⟩ .any).after
        [.filter .paths (.quantify .any ⟨none, ["tags"]⟩
          (.compare .equals ⟨none, ["name"]⟩ (.operand (.bare (.text "x"))))),
          .byKey (.literal ⟨.text "soon", .date⟩), .byKey (.bare (.text "a")),
          .orderBy [⟨["name"]⟩]]).run.run 0).1 = .ok q ∧
      q.url = .error (.unsupportedValue "'soon' is not a date") := by
  refine ⟨_, rfl, ((@url_of_calls ⟨"/odata/users", false, none⟩ .any
    [.filter .paths (.quantify .any ⟨none, ["tags"]⟩
      (.compare .equals ⟨none, ["name"]⟩ (.operand (.bare (.text "x"))))),
      .byKey (.literal ⟨.text "soon", .date⟩), .byKey (.bare (.text "a")),
      .orderBy [⟨["name"]⟩]] ?_ 0 _ rfl).2 _).2
    ⟨[.ofValue (.text "x")], ⟨.text "soon", .date⟩, [.ofValue (.text "a")], _, rfl, ?_, rfl, rfl⟩⟩
  · simp only [List.forall_mem_cons]
    exact ⟨.quantify .any _ (.compare .equals _ (.constant (.bare _))), .literal _, .bare _, trivial,
      nofun⟩
  · simp only [List.forall_mem_cons]
    exact ⟨⟨_, rfl⟩, nofun⟩

end Query

end EntityQuery
