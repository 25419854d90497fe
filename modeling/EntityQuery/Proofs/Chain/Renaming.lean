import EntityQuery.Proofs.Filter.Template
import EntityQuery.Proofs.Query.Validation
import EntityQuery.Proofs.Request.Parameters

/-!
# The URL of a renamed query

Variables occur in the filters of a query and nowhere else.  A query is renamed in its filters only
(`Query.rename`), and its URL is written from one template for all renamings (`Query.isUniform_url`).

The segments of a request depend on a renaming in their filter only.  A step other than a filter does
not look at the filter there is (`Segments.Draft.step_withFilter`), so it does not look at the renaming
either.  In the query string letters and digits are not escaped, so a variable is a gap there as well.
-/

set_option autoImplicit false

namespace EntityQuery

/-! ## Renaming chains -/

/-- A step after variables have changed their numbers, which only a filter has. -/
def Step.rename (σ : Nat → Nat) : Step → Step
  | (.predicate, operands) => (.predicate, Operand.renameAll σ operands)
  | (operator, operands) => (operator, operands)

theorem Step.rename_of_ne {s : Step} (h : s.1 ≠ .predicate) (σ : Nat → Nat) : s.rename σ = s := by
  obtain ⟨operator, operands⟩ := s
  cases operator with
  | predicate => exact absurd rfl h
  | _ => rfl

theorem Step.rename_id (s : Step) : s.rename id = s := by
  obtain ⟨operator, operands⟩ := s
  cases operator with
  | predicate => exact congrArg (Prod.mk Operator.predicate) (Operand.renameAll_id operands)
  | _ => rfl

namespace Query

/-- A query after the variables of its filters have changed their numbers. -/
def rename (σ : Nat → Nat) (q : Query) : Query :=
  { q with head := Expression.ofSteps ((Expression.steps q.head).map (Step.rename σ)) }

theorem rename_id (q : Query) : q.rename id = q := by
  have hsteps : (Expression.steps q.head).map (Step.rename id) = Expression.steps q.head :=
    (List.map_congr_left fun s _ => s.rename_id).trans (List.map_id' _)
  rw [rename, hsteps, Expression.ofSteps_steps]

theorem steps_rename (σ : Nat → Nat) (q : Query) :
    Expression.steps (q.rename σ).head = (Expression.steps q.head).map (Step.rename σ) :=
  Expression.steps_ofSteps _

/-- The newest step of a query is renamed like all others. -/
theorem rename_push (σ : Nat → Nat) (q : Query) (operator : Operator) (operands : List Operand) :
    (q.push operator operands).rename σ =
      (q.rename σ).push (Step.rename σ (operator, operands)).1
        (Step.rename σ (operator, operands)).2 := by
  rw [rename, push, Expression.steps_node, List.map_append, List.map_singleton,
    Expression.ofSteps_append_singleton]
  rfl

theorem rename_push_of_ne {operator : Operator} (h : operator ≠ .predicate) (σ : Nat → Nat) (q : Query)
    (operands : List Operand) :
    (q.push operator operands).rename σ = (q.rename σ).push operator operands := by
  rw [rename_push, Step.rename_of_ne h]

end Query

/-! ## Drafts -/

namespace Segments

/-- The same draft with another filter. -/
def Draft.withFilter (d : Draft) (text : Option String) : Draft :=
  { d with segments := { d.segments with filter := text } }

/-- Only filters look at the filter there is. -/
theorem Draft.step_withFilter (d : Draft) {s : Step} (h : s.1 ≠ .predicate) (text : Option String) :
    (d.withFilter text).step s.alone = (d.step s.alone).map (·.withFilter text) := by
  have hmap {α : Type} (x : Except QueryError α) {f g : α → Draft}
      (hfg : ∀ a, f a = (g a).withFilter text) :
      x.map f = (x.map g).map (·.withFilter text) := by
    cases x with
    | error e => rfl
    | ok a => exact congrArg Except.ok (hfg a)
  have hbind {α : Type} (x : Except QueryError α) {f g : α → Draft}
      (hfg : ∀ a, f a = (g a).withFilter text) :
      (x >>= fun a => .ok (f a)) = (x >>= fun a => .ok (g a)).map (·.withFilter text) := by
    cases x with
    | error e => rfl
    | ok a => exact congrArg Except.ok (hfg a)
  obtain ⟨operator, xs⟩ := s
  rw [Step.alone, Expression.alone, Draft.step, Draft.step, Expression.operator, Expression.operands]
  cases operator with
  | select => exact hbind _ fun _ => rfl
  | top => exact hmap _ fun _ => rfl
  | skip => exact hmap _ fun _ => rfl
  | orderBy => exact hbind _ fun _ => rfl
  | orderByDescending => exact hbind _ fun _ => rfl
  | expand =>
    show (d.withFilter text).expand xs = (d.expand xs).map (·.withFilter text)
    rw [Draft.expand, Draft.expand, show (d.withFilter text).expandsAll = d.expandsAll from rfl]
    split
    · rfl
    · exact hbind _ fun _ => rfl
  | getByKey =>
    show (d.withFilter text).key xs = (d.key xs).map (·.withFilter text)
    rw [Draft.key.eq_def, Draft.key.eq_def]
    split
    · exact hmap _ fun _ => rfl
    · rfl
  | predicate => exact absurd rfl h
  | _ => rfl

/-- A draft that depends on a renaming only in the gaps of its filter. -/
def Draft.IsFilled (d : (Nat → Nat) → Draft) : Prop :=
  ∃ (base : Draft) (t : Option Template), ∀ σ, d σ = base.withFilter (t.map (Template.fill σ))

theorem Draft.IsFilled.addFilter {d : (Nat → Nat) → Draft} {f : (Nat → Nat) → Fragment}
    (hd : Draft.IsFilled d) (hf : Fragment.IsFilled f) :
    Draft.IsFilled fun σ => (d σ).addFilter (f σ) := by
  obtain ⟨base, t, ht⟩ := hd
  obtain ⟨j, hj⟩ := hf.joint
  cases t with
  | none =>
    obtain ⟨u, hu⟩ := hf.joined
    refine ⟨{ base with joint := j }, some u, fun σ => ?_⟩
    show (d σ).addFilter (f σ) = _
    rw [ht, Option.map_none, Option.map_some, ← hu, ← hj σ]
    rfl
  | some t =>
    have hexisting : EntityQuery.IsFilled fun σ =>
        if base.joint = some .or then "(" ++ t.fill σ ++ ")" else t.fill σ := by
      have hfilter : EntityQuery.IsFilled fun σ => t.fill σ := ⟨t, fun _ => rfl⟩
      split
      · exact ((EntityQuery.IsFilled.fixed "(").append hfilter).append (.fixed ")")
      · exact hfilter
    obtain ⟨u, hu⟩ := (hexisting.append (.fixed " and ")).append hf.reduce
    refine ⟨{ base with joint := some .and }, some u, fun σ => ?_⟩
    show (d σ).addFilter (f σ) = _
    rw [ht, Option.map_some, Option.map_some, ← hu]
    rfl

/-- One step of a chain, under every renaming. -/
theorem Draft.IsFilled.isUniform_step {d : (Nat → Nat) → Draft} (hd : Draft.IsFilled d) (s : Step) :
    IsUniform Draft.IsFilled fun σ => (d σ).step (s.rename σ).alone := by
  by_cases hs : s.1 = .predicate
  · obtain ⟨operator, xs⟩ := s
    obtain rfl : operator = .predicate := hs
    have hstep (σ : Nat → Nat) : (d σ).step (Step.rename σ (.predicate, xs)).alone =
        (d σ).predicate (Operand.renameAll σ xs) := rfl
    simp only [hstep]
    by_cases hone : ∃ e, xs = [.expression e]
    · obtain ⟨e, rfl⟩ := hone
      simp only [Operand.renameAll, Operand.rename, Draft.predicate, Expression.isLinked_rename]
      split
      · exact .error _ fun _ => rfl
      · exact e.isUniform_fragment.map fun f hf => hd.addFilter hf
    · refine .error (.invalidExpression "predicate expects a single predicate expression") fun σ => ?_
      rcases xs with _ | ⟨x, _ | ⟨y, more⟩⟩
      · rfl
      · cases x with
        | expression e => exact absurd ⟨e, rfl⟩ hone
        | _ => rfl
      · show (d σ).predicate (x.rename σ :: y.rename σ :: Operand.renameAll σ more) = _
        rw [Draft.predicate.eq_def]
        split
        · next h => exact absurd (List.cons.inj h).2 (List.cons_ne_nil _ _)
        · rfl
  · obtain ⟨base, t, ht⟩ := hd
    simp only [s.rename_of_ne hs, ht, base.step_withFilter hs]
    cases base.step s.alone with
    | error e => exact .error e fun _ => rfl
    | ok after => exact .pure ⟨after, t, fun _ => rfl⟩

/-- A run over all steps of a chain. -/
theorem isUniform_run (steps : List Step) :
    IsUniform Draft.IsFilled fun σ => run (steps.map (Step.rename σ)) := by
  induction steps using List.reverseRecOn with
  | nil => exact .pure ⟨.empty, none, fun _ => rfl⟩
  | append_singleton steps s ih =>
    simp only [List.map_append, List.map_cons, List.map_nil, run_append_singleton]
    exact ih.bind fun d hd => hd.isUniform_step s

/-! ## URLs -/

theorem component_append (s t : String) : component (s ++ t) = component s ++ component t := by
  rw [← String.toList_inj, String.toList_append]
  simp only [component, Text.Percent.encode, String.toList_append, String.toList_ofList,
    Text.Percent.encodeChars_append]

/-- Nothing in the name of a variable is escaped. -/
theorem component_variableName (n : Nat) : component (variableName n) = variableName n := by
  have hkeep : ∀ c ∈ (variableName n).toList, Text.Percent.encodeChar keepsComponent c = [c] := by
    intro c hc
    rw [variableName, String.toList_append, Nat.toList_repr, List.mem_append] at hc
    rcases hc with hc | hc
    · obtain rfl : c = 'p' := by simpa using hc
      decide
    · have hdigit : c.isDigit = true := Nat.isDigit_of_mem_toDigits (by decide) (by decide) hc
      have hsmall : c.toNat < 128 := by
        simp only [Char.isDigit, Bool.and_eq_true, decide_eq_true_eq] at hdigit
        exact Nat.lt_of_le_of_lt (UInt32.le_iff_toNat_le.1 hdigit.2) (by decide)
      rw [Text.Percent.encodeChar, keepsComponent, Char.isAlphanum, hdigit, decide_eq_true hsmall]
      simp
  rw [component, Text.Percent.encode, Text.Percent.encodeChars, List.flatMap_congr hkeep]
  simp

theorem isFilled_component {f : (Nat → Nat) → String} (h : IsFilled f) :
    IsFilled fun σ => component (f σ) := by
  obtain ⟨t, ht⟩ := h
  simp only [ht]
  clear ht
  induction t with
  | nil => exact .fixed ""
  | cons piece rest ih =>
    cases piece with
    | fixed s =>
      simp only [Template.fill, component_append]
      exact (IsFilled.fixed (component s)).append ih
    | gap n =>
      simp only [Template.fill, component_append, component_variableName]
      exact (IsFilled.gap n).append ih

/-- The parameters of a draft with a filter begin with the filter. -/
theorem Draft.queryString_withFilter (d : Draft) (text : String) :
    (d.withFilter (some text)).segments.queryString =
      "&".intercalate (("$filter=" ++ component text) ::
        (d.withFilter none).segments.parameters.map fun p => p.1 ++ "=" ++ component p.2) := rfl

theorem isFilled_url {d : (Nat → Nat) → Draft} (hd : Draft.IsFilled d) (endpoint : String) :
    IsFilled fun σ => (d σ).segments.url endpoint := by
  obtain ⟨base, t, ht⟩ := hd
  simp only [ht]
  cases t with
  | none =>
    simp only [Option.map_none]
    exact .fixed _
  | some t =>
    have hurl (σ : Nat → Nat) : (base.withFilter (some (t.fill σ))).segments.url endpoint =
        base.segments.pathText endpoint ++ "?" ++
          (base.withFilter (some (t.fill σ))).segments.queryString := by
      have hne : (base.withFilter (some (t.fill σ))).segments.queryString.isEmpty = false := by
        rw [String.isEmpty_eq_false_iff, Ne, queryString_eq_empty_iff]
        exact List.cons_ne_nil _ _
      rw [url, hne]
      rfl
    simp only [Option.map_some, hurl, Draft.queryString_withFilter]
    have hfilter : IsFilled fun σ => component (t.fill σ) := isFilled_component ⟨t, fun _ => rfl⟩
    have hquery := AreFilled.cons ((IsFilled.fixed "$filter=").append hfilter)
      (.fixed ((base.withFilter none).segments.parameters.map fun p => p.1 ++ "=" ++ component p.2))
    exact (IsFilled.fixed _).append (hquery.intercalate "&")

end Segments

/-- **A renamed query has the URL of the query**, with other variables in the same gaps, or it has none
for the same reason. -/
theorem Query.isUniform_url (q : Query) : IsUniform IsFilled fun σ => (q.rename σ).url := by
  have hurl (σ : Nat → Nat) : (q.rename σ).url =
      (Segments.run ((Expression.steps q.head).map (Step.rename σ))).map fun d =>
        d.segments.url q.service.endpoint := by
    rw [url_eq_run, steps_rename]
    rfl
  simp only [hurl]
  exact (Segments.isUniform_run _).map fun d hd => Segments.isFilled_url hd q.service.endpoint

end EntityQuery
