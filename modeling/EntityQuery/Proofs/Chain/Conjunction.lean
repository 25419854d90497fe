import EntityQuery.Predicate
import EntityQuery.Proofs.Chain.Slots

/-!
# Filters one after the other

A query may be filtered several times, and all of the conditions have to hold.  That could be said
with a single filter as well, by the conjunction of the predicates (`Predicate.allOf`).  Both ways
are accepted or refused alike, and they differ in parentheses only: a filter that is added to
another one is grouped whenever it is joined, even by `and`, while a conjunction goes into a
conjunction without parentheses.

The two texts come about differently.  Filters are put together as texts, and the `Segments.Draft`
remembers what joins the words so far; the conjunction is one tree, written as words.  What ties
them is that either is the sides of its predicates with `and` between them (`Segments.conjunction`
for the one, `Fragment.joined_foldl` for the other).
-/

set_option autoImplicit false

namespace EntityQuery

/-! ## Conjunctions of fragments -/

/-- The text of a conjunction: every piece as under a joint.  One alone stands as it is. -/
theorem Fragment.joined_foldl {f : Fragment} (hf : f.IsSound) {fs : List Fragment}
    (hs : ∀ g ∈ fs, g.IsSound) :
    (fs.foldl (join .and) f).joined =
      " and ".intercalate ((if fs = [] then f.joined else f.sideText .and) ::
        fs.map (sideText .and)) :=
  hf.joined_foldl .and hs

/-! ## Steps that are filters, and other steps -/

/-- A filter by a predicate, as a step of a chain. -/
def Predicate.step (p : Predicate) : Step := (.predicate, [.expression p.expression])

/-- The steps that are not about a slot, in their order. -/
def Slot.without (slot : Slot) (steps : List Step) : List Step :=
  steps.filter fun s => !decide (s.1.slot? = some slot)

theorem Slot.without_append (slot : Slot) (x y : List Step) :
    slot.without (x ++ y) = slot.without x ++ slot.without y := List.filter_append ..

/-- Leaving out a slot leaves the others as they are. -/
theorem Slot.of_without {slot left : Slot} (h : slot ≠ left) (steps : List Step) :
    slot.of (left.without steps) = slot.of steps := by
  rw [Slot.without, Slot.of, List.filter_filter, Slot.of]
  refine List.filter_congr fun s _ => ?_
  by_cases hs : s.1.slot? = some slot
  · simp [hs, h]
  · simp [hs]

namespace Segments

/-- Filters do not matter to whether other steps are accepted. -/
theorem verdictAfter_without (steps : List Step) (s : Step) :
    verdictAfter (Slot.filter.without steps) s = verdictAfter steps s := by
  rw [verdictAfter, excuses, ← expandsAll_of, Slot.of_without (by decide), expandsAll_of,
    ← excuses, ← verdictAfter]

/-- A filter adds its predicate, as it is written. -/
theorem Draft.step_filter (d : Draft) (p : Predicate) :
    d.step p.step.alone = p.expression.fragment.map d.addFilter := by
  refine (if_neg ?_ : d.predicate [.expression p.expression] = _)
  simp [p.isLinked_expression]

/-- A filter is accepted if its predicate is written. -/
theorem verdictAfter_step (steps : List Step) (p : Predicate) :
    verdictAfter steps p.step = p.expression.fragment.map fun _ => () := by
  have hexc : excuses steps p.step = false := rfl
  rw [verdictAfter, hexc, if_neg Bool.false_ne_true, verdict_eq, Draft.step_filter]
  cases p.expression.fragment <;> rfl

/-- One more step, seen from outside. -/
theorem map_run_append_singleton (steps : List Step) (s : Step) :
    (run (steps ++ [s])).map (fun _ => ()) =
      (run steps).map (fun _ => ()) >>= fun _ => verdictAfter steps s := by
  rw [run_append_singleton]
  cases hrun : run steps with
  | error e => rfl
  | ok d =>
    obtain ⟨_, rfl⟩ := run_eq_ok.1 hrun
    exact map_step_of steps s

/-- Among other steps that are accepted, it is the filters that decide: all their predicates have to
be written, and the first that cannot be says why. -/
theorem map_run {steps : List Step} {ps : List Predicate}
    (hfilters : Slot.filter.of steps = ps.map Predicate.step)
    (hothers : Accepted (Slot.filter.without steps)) :
    (run steps).map (fun _ => ()) = (Predicate.fragments ps).map fun _ => () := by
  induction steps using List.reverseRecOn generalizing ps with
  | nil =>
    obtain rfl : ps = [] := by simpa [Slot.of] using hfilters.symm
    rfl
  | append_singleton steps s ih =>
    rw [Slot.of_append, Slot.of_singleton] at hfilters
    rw [Slot.without_append] at hothers
    rw [map_run_append_singleton]
    by_cases hs : s.1.slot? = some .filter
    · -- A filter: it is the last of the predicates.
      have hwithout : Slot.filter.without [s] = [] := by simp [Slot.without, hs]
      rw [hwithout, List.append_nil] at hothers
      rw [if_pos hs] at hfilters
      cases ps using List.reverseRecOn with
      | nil => simp at hfilters
      | append_singleton init p =>
        rw [List.map_append] at hfilters
        obtain ⟨hinit, hp⟩ := List.append_inj' hfilters rfl
        obtain rfl : s = p.step := by simpa using hp
        rw [ih hinit hothers, verdictAfter_step, Predicate.fragments_append_singleton]
        cases Predicate.fragments init with
        | error e => rfl
        | ok fs => cases p.expression.fragment <;> rfl
    · -- Another step: it is accepted.
      have hwithout : Slot.filter.without [s] = [s] := by simp [Slot.without, hs]
      rw [hwithout, accepted_append_singleton, verdictAfter_without] at hothers
      rw [if_neg hs, List.append_nil] at hfilters
      rw [ih hfilters hothers.1, hothers.2]
      cases Predicate.fragments ps <;> rfl

/-- The conditions of filters are their predicates, as they are written. -/
theorem filterMap_condition {ps : List Predicate} {fs : List Fragment}
    (h : Predicate.fragments ps = .ok fs) : (ps.map Predicate.step).filterMap condition = fs := by
  induction ps generalizing fs with
  | nil => exact Except.ok.inj h
  | cons p rest ih =>
    rw [Predicate.fragments, List.mapM_cons] at h
    obtain ⟨f, hf, h⟩ := bind_eq_ok.1 h
    obtain ⟨gs, hgs, h⟩ := bind_eq_ok.1 h
    obtain rfl := Except.ok.inj h
    have hcond : condition p.step = some f := toOption_eq_some.2 hf
    rw [List.map_cons, List.filterMap_cons_some hcond, ih hgs]

/-- Apart from the filter, the meaning of a chain is that of its other steps. -/
theorem meaning_without {x y : List Step}
    (h : Slot.filter.without x = Slot.filter.without y) :
    meaning x = { meaning y with filter := (meaning x).filter } := by
  have hslot {slot : Slot} (hne : slot ≠ .filter) : slot.of x = slot.of y := by
    rw [← Slot.of_without hne x, h, Slot.of_without hne]
  simp only [meaning, hslot (show Slot.select ≠ .filter by decide),
    hslot (show Slot.order ≠ .filter by decide), hslot (show Slot.skip ≠ .filter by decide),
    hslot (show Slot.top ≠ .filter by decide), hslot (show Slot.key ≠ .filter by decide),
    hslot (show Slot.count ≠ .filter by decide), hslot (show Slot.expand ≠ .filter by decide),
    hslot (show Slot.value ≠ .filter by decide)]

/-- The text of several filters, told by the sides of the pieces. -/
theorem conjunction_cons {f : Fragment} {fs : List Fragment} (hs : ∀ g ∈ fs, g.IsSound) :
    conjunction (f :: fs) =
      some (" and ".intercalate ((if fs = [] then f.joined else f.sideText .and) ::
        fs.map fun g =>
          if g.joint = some .and then "(" ++ g.sideText .and ++ ")" else g.sideText .and)) := by
  cases fs with
  | nil => simp [conjunction]
  | cons g rest =>
    rw [conjunction, if_neg (List.cons_ne_nil _ _)]
    have hmap : (g :: rest).map Fragment.reduce = (g :: rest).map fun g =>
        if g.joint = some .and then "(" ++ g.sideText .and ++ ")" else g.sideText .and :=
      List.map_congr_left fun g' hg' => (hs g' hg').reduce_eq_sideText
    rw [hmap]

/-- The conjunction is written if all of the predicates are, and fails as they do. -/
theorem fragment_of_allOf {ps : List Predicate} {q : Predicate}
    (hq : Predicate.allOf ps = .ok q) :
    (∃ e, Predicate.fragments ps = .error e ∧ q.expression.fragment = .error e) ∨
      ∃ f fs, Predicate.fragments ps = .ok (f :: fs) ∧
        q.expression.fragment = .ok (fs.foldl (.join .and) f) := by
  cases ps with
  | nil => cases hq
  | cons p rest =>
    obtain rfl := Except.ok.inj hq
    rw [Predicate.fragment_foldl, Predicate.fragments, List.mapM_cons, ← Predicate.fragments]
    cases p.expression.fragment with
    | error e => exact .inl ⟨e, rfl, rfl⟩
    | ok f =>
      cases Predicate.fragments rest with
      | error e => exact .inl ⟨e, rfl, rfl⟩
      | ok fs => exact .inr ⟨f, fs, rfl, rfl⟩

theorem isSound_of_fragments {ps : List Predicate} {fs : List Fragment}
    (h : Predicate.fragments ps = .ok fs) : ∀ f ∈ fs, f.IsSound := by
  intro f hf
  rw [← filterMap_condition h] at hf
  exact isSound_of_mem_conditions hf

/-- A chain whose filters cannot be written fails as they do. -/
theorem ofChain_of_fragments_error {head : Option Expression} {ps : List Predicate}
    (hfilters : Slot.filter.of (Expression.steps head) = ps.map Predicate.step)
    (hothers : Accepted (Slot.filter.without (Expression.steps head))) {e : QueryError}
    (h : Predicate.fragments ps = .error e) : ofChain head = .error e := by
  have hmap := map_run hfilters hothers
  rw [h] at hmap
  exact ofChain_eq_error.2 (map_eq_error.1 hmap)

/-- A chain whose filters can be written has the meaning of its steps, with their conjunction for a
filter. -/
theorem ofChain_of_fragments_ok {head : Option Expression} {ps : List Predicate}
    (hfilters : Slot.filter.of (Expression.steps head) = ps.map Predicate.step)
    (hothers : Accepted (Slot.filter.without (Expression.steps head))) {fs : List Fragment}
    (h : Predicate.fragments ps = .ok fs) :
    ofChain head = .ok (meaning (Expression.steps head)) ∧
      (meaning (Expression.steps head)).filter = conjunction fs := by
  have hmap := map_run hfilters hothers
  rw [h] at hmap
  obtain ⟨d, hd, -⟩ := map_eq_ok.1 hmap
  refine ⟨ofChain_eq_ok.2 ⟨(run_eq_ok.1 hd).1, rfl⟩, ?_⟩
  rw [meaning, hfilters, filterMap_condition h]

/-- **Filters one after the other mean their conjunction.**  In a chain with several filters, they
may be replaced by one filter by the conjunction of their predicates, among the same other steps.
Either chain fails with the same error, or they have the same segments apart from the text of the
filter.  That is the same as well, unless predicates behind the first one are joined by `and`: these
are grouped if they are filters of their own. -/
theorem ofChain_allOf {ps : List Predicate} {q : Predicate} (hq : Predicate.allOf ps = .ok q)
    {several single : Option Expression}
    (hseveral : Slot.filter.of (Expression.steps several) = ps.map Predicate.step)
    (hsingle : Slot.filter.of (Expression.steps single) = [q.step])
    (hothers : Slot.filter.without (Expression.steps several) =
      Slot.filter.without (Expression.steps single))
    (haccepted : Accepted (Slot.filter.without (Expression.steps single))) :
    (∃ e, ofChain several = .error e ∧ ofChain single = .error e) ∨
      ∃ s t f fs, ofChain several = .ok s ∧ ofChain single = .ok t ∧
        s = { t with filter := s.filter } ∧ Predicate.fragments ps = .ok (f :: fs) ∧
        t.filter = some (" and ".intercalate
          ((if fs = [] then f.joined else f.sideText .and) :: fs.map (Fragment.sideText .and))) ∧
        s.filter = some (" and ".intercalate
          ((if fs = [] then f.joined else f.sideText .and) :: fs.map fun g =>
            if g.joint = some .and then "(" ++ g.sideText .and ++ ")" else g.sideText .and)) ∧
        ((∀ g ∈ fs, g.joint ≠ some .and) → s.filter = t.filter) := by
  have hothers' : Accepted (Slot.filter.without (Expression.steps several)) := by
    rw [hothers]
    exact haccepted
  have hsingle' : Slot.filter.of (Expression.steps single) = [q].map Predicate.step := hsingle
  rcases fragment_of_allOf hq with ⟨e, hps, he⟩ | ⟨f, fs, hps, hf⟩
  · have hone : Predicate.fragments [q] = .error e := by
      rw [Predicate.fragments, List.mapM_cons, he]
      rfl
    exact .inl ⟨e, ofChain_of_fragments_error hseveral hothers' hps,
      ofChain_of_fragments_error hsingle' haccepted hone⟩
  · have hone : Predicate.fragments [q] = .ok [fs.foldl (.join .and) f] := by
      rw [Predicate.fragments, List.mapM_cons, hf]
      rfl
    have hsound := isSound_of_fragments hps
    have hsounds : ∀ g ∈ fs, g.IsSound := fun g hg => hsound g (List.mem_cons_of_mem _ hg)
    obtain ⟨hs, hsfilter⟩ := ofChain_of_fragments_ok hseveral hothers' hps
    obtain ⟨ht, htfilter⟩ := ofChain_of_fragments_ok hsingle' haccepted hone
    rw [conjunction, Fragment.joined_foldl (hsound f List.mem_cons_self) hsounds] at htfilter
    rw [conjunction_cons hsounds] at hsfilter
    refine .inr ⟨_, _, f, fs, hs, ht, meaning_without hothers, hps, htfilter, hsfilter,
      fun hfree => ?_⟩
    have hmap : (fs.map fun g =>
        if g.joint = some .and then "(" ++ g.sideText .and ++ ")" else g.sideText .and) =
          fs.map (Fragment.sideText .and) :=
      List.map_congr_left fun g hg => if_neg (hfree g hg)
    rw [hsfilter, htfilter, hmap]

/-- The second of two filters is grouped, if it is joined by `and`; as one filter they are not. -/
theorem ofChain_allOf_pair :
    ∃ s t,
      ofChain (Expression.ofSteps
        [(Predicate.compare .equals ⟨["a"]⟩ (.bare .null)).step, (.value, []),
          (Predicate.join .and (.compare .equals ⟨["b"]⟩ (.bare .null))
            (.compare .equals ⟨["c"]⟩ (.bare .null))).step]) = .ok s ∧
      ofChain (Expression.ofSteps
        [(.value, []),
          (Predicate.join .and (.compare .equals ⟨["a"]⟩ (.bare .null))
            (.join .and (.compare .equals ⟨["b"]⟩ (.bare .null))
              (.compare .equals ⟨["c"]⟩ (.bare .null)))).step]) = .ok t ∧
      s.filter = some "a eq null and (b eq null and c eq null)" ∧
      t.filter = some "a eq null and b eq null and c eq null" := by
  have haccepted : Accepted [(.value, [])] := (run_eq_ok.1 rfl).1
  obtain ⟨e, he, -⟩ | ⟨s, t, f, fs, hs, ht, -, hfs, htf, hsf, -⟩ :=
    @ofChain_allOf [.compare .equals ⟨["a"]⟩ (.bare .null), .join .and
        (.compare .equals ⟨["b"]⟩ (.bare .null)) (.compare .equals ⟨["c"]⟩ (.bare .null))] _ rfl
      (Expression.ofSteps [Predicate.step _, (.value, []), Predicate.step _])
      (Expression.ofSteps [(.value, []), Predicate.step _]) rfl rfl rfl haccepted
  · cases he
  · cases hfs
    exact ⟨s, t, hs, ht, hsf, htf⟩

end Segments

end EntityQuery
