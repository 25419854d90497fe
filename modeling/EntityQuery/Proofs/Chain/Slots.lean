import EntityQuery.Chain
import EntityQuery.Proofs.Except
import EntityQuery.Proofs.Filter.Fragment
import Mathlib.Data.List.Induction

/-!
# What a chain means, slot by slot

A chain is taken step by step, and every step changes the segments that were there before.  Yet each
of the segments can be told from the steps that are about it alone, its `Slot`, whatever other steps
stand between them.  `Segments.meaning` says how: by the last of them, by all of them one after the
other, or by there being one at all.

* `Segments.Draft.step_of_eq` is what one step does to the meaning of the steps before it, and
  `Segments.Draft.verdict_step` when it is refused.
* `Segments.run_eq_ok` and `Segments.run_eq_error` are what follows for whole chains, by induction
  from the oldest step on.

Whether a step is refused depends on what is before it in one way only: an `expand` behind an
`expandAll` is not looked at (`Segments.excuses`).
-/

set_option autoImplicit false

namespace EntityQuery

/-! ## Steps and slots -/

/-- A step of a chain, without the steps before it. -/
abbrev Step := Operator × List Operand

/-- A step by itself, as a chain. -/
def Step.alone (s : Step) : Expression := .alone s.1 s.2

/-- The steps of a chain, oldest first. -/
def Expression.steps (head : Option Expression) : List Step :=
  (Expression.chainOf head).reverse.map fun e => (e.operator, e.operands)

/-- A node is the newest step of its chain. -/
theorem Expression.steps_node (operator : Operator) (operands : List Operand)
    (previous : Option Expression) :
    Expression.steps (some (.node operator operands previous)) =
      Expression.steps previous ++ [(operator, operands)] := by
  have hchain : Expression.chainOf (some (.node operator operands previous)) =
      .node operator operands previous :: Expression.chainOf previous := by
    cases previous <;> rfl
  rw [Expression.steps, hchain, List.reverse_cons, List.map_append, ← Expression.steps]
  rfl

theorem Expression.ofSteps_append_singleton (steps : List Step) (s : Step) :
    Expression.ofSteps (steps ++ [s]) = some (.node s.1 s.2 (Expression.ofSteps steps)) := by
  rw [Expression.ofSteps, List.foldl_append]
  rfl

/-- Any list of steps is that of a chain. -/
theorem Expression.steps_ofSteps (steps : List Step) :
    Expression.steps (Expression.ofSteps steps) = steps := by
  induction steps using List.reverseRecOn with
  | nil => rfl
  | append_singleton steps s ih =>
    rw [Expression.ofSteps_append_singleton, Expression.steps_node, ih]

theorem Expression.ofSteps_steps_some : ∀ e : Expression,
    Expression.ofSteps (Expression.steps (some e)) = some e
  | .node operator operands none => rfl
  | .node operator operands (some p) => by
    rw [Expression.steps_node, Expression.ofSteps_append_singleton, ofSteps_steps_some p]

/-- A chain is that of its steps. -/
theorem Expression.ofSteps_steps (head : Option Expression) :
    Expression.ofSteps (Expression.steps head) = head := by
  cases head with
  | none => rfl
  | some e => exact ofSteps_steps_some e

/-- What a step is about. -/
inductive Slot
  | select
  | top
  | skip
  | order
  | filter
  | expand
  | key
  | count
  | value
deriving DecidableEq

/-- The slot of an operator, if it makes a step. -/
def Operator.slot? : Operator → Option Slot
  | .select => some .select
  | .top => some .top
  | .skip => some .skip
  | .orderBy | .orderByDescending => some .order
  | .predicate => some .filter
  | .expand | .expandAll => some .expand
  | .getByKey => some .key
  | .getWithCount => some .count
  | .value => some .value
  | _ => none

/-- The steps of a slot, in their order. -/
def Slot.of (slot : Slot) (steps : List Step) : List Step :=
  steps.filter fun s => s.1.slot? = some slot

@[simp] theorem Slot.of_append (slot : Slot) (x y : List Step) :
    slot.of (x ++ y) = slot.of x ++ slot.of y := List.filter_append ..

@[simp] theorem Slot.of_singleton (slot : Slot) (s : Step) :
    slot.of [s] = if s.1.slot? = some slot then [s] else [] := by
  by_cases h : s.1.slot? = some slot <;> simp [Slot.of, h]

/-! ## The meaning of a chain -/

namespace Segments

/-- The texts of the fields among operands. -/
def fieldTexts (operands : List Operand) : List String :=
  operands.filterMap fun
    | .field f => some f.text
    | _ => none

/-- The fields of a `select`.  One without fields is as none. -/
def selection (s : Step) : Option (List String) :=
  if (fieldTexts s.2).isEmpty then none else some (fieldTexts s.2)

/-- The number that a `top` or a `skip` is given. -/
def number (s : Step) : Option Nat := (Draft.countOf s.1 s.2).toOption

/-- The sort keys of a step, each with the direction of that step. -/
def sortKeys (s : Step) : List OrderKey :=
  (fieldTexts s.2).map (⟨·, s.1 == .orderByDescending⟩)

/-- The key that a step is given. -/
def keyText (s : Step) : Option String :=
  match s.2 with
  | [x] => (Draft.keyText x).toOption
  | _ => none

/-- The condition that a step is given. -/
def condition (s : Step) : Option Fragment :=
  match s.2 with
  | [.expression e] => e.fragment.toOption
  | _ => none

/-- The text of several conditions, all of which have to hold.  One alone stands as it is.  Of
several, the first is grouped as under a joint, and the others whenever they are joined at all. -/
def conjunction : List Fragment → Option String
  | [] => none
  | [f] => some f.joined
  | f :: g :: rest =>
    some (" and ".intercalate (f.sideText .and :: (g :: rest).map Fragment.reduce))

/-- What joins several conditions, all of which have to hold. -/
def conjunctionJoint : List Fragment → Option Joint
  | [] => none
  | [f] => f.joint
  | _ => some .and

/-- Whether everything is expanded. -/
def expandsAll (steps : List Step) : Bool := steps.any (·.1 == .expandAll)

/-- What is expanded by the steps about it: everything, or each property once. -/
def expansion (steps : List Step) : Option (List String) :=
  if expandsAll steps then some ["*"]
  else if steps.isEmpty then none
  else some (steps.flatMap (fieldTexts ·.2)).eraseDups

/-- The sort keys of the steps about sorting, one step after the other. -/
def sorting (steps : List Step) : Option (List OrderKey) :=
  if steps.isEmpty then none else some (steps.flatMap sortKeys)

/-- The segments of a chain, each told by the steps about it. -/
def meaning (steps : List Step) : Segments where
  select := (Slot.select.of steps).getLast?.bind selection
  orderBy := sorting (Slot.order.of steps)
  skip := (Slot.skip.of steps).getLast?.bind number
  top := (Slot.top.of steps).getLast?.bind number
  filter := conjunction ((Slot.filter.of steps).filterMap condition)
  key := (Slot.key.of steps).getLast?.bind keyText
  count := !(Slot.count.of steps).isEmpty
  expand := expansion (Slot.expand.of steps)
  value := !(Slot.value.of steps).isEmpty

/-- The state behind these steps. -/
def Draft.of (steps : List Step) : Draft where
  segments := meaning steps
  expandsAll := Segments.expandsAll (Slot.expand.of steps)
  joint := conjunctionJoint ((Slot.filter.of steps).filterMap condition)

/-! ## One step -/

theorem fieldText_eq_ok {operator : Operator} {x : Operand} {text : String}
    (h : Draft.fieldText operator x = .ok text) : ∃ f : Field, x = .field f ∧ text = f.text := by
  cases x with
  | field f =>
    obtain ⟨_, _, rfl⟩ := map_eq_ok.1 (show f.validate.map (fun _ => f.text) = .ok text from h)
    exact ⟨f, rfl, rfl⟩
  | _ => cases h

/-- Fields that are accepted are the fields there are. -/
theorem fieldTexts_of_mapM {operator : Operator} {xs : List Operand} {fields : List String}
    (h : xs.mapM (Draft.fieldText operator) = .ok fields) : fields = fieldTexts xs := by
  induction xs generalizing fields with
  | nil => exact (Except.ok.inj h).symm
  | cons x rest ih =>
    rw [List.mapM_cons] at h
    obtain ⟨text, hx, h⟩ := bind_eq_ok.1 h
    obtain ⟨texts, hrest, h⟩ := bind_eq_ok.1 h
    obtain ⟨f, rfl, rfl⟩ := fieldText_eq_ok hx
    obtain rfl := Except.ok.inj h
    rw [ih hrest]
    rfl

/-- Projections hold no fields. -/
theorem fieldTexts_filter (xs : List Operand) :
    fieldTexts (xs.filter fun x => !Draft.isProjection x) = fieldTexts xs := by
  rw [fieldTexts, List.filterMap_filter, fieldTexts]
  congr 1
  funext x
  cases x <;> rfl

/-- Adding elements that are not there yet, one after the other, leaves each of them once. -/
theorem foldl_eraseDups {α : Type} [BEq α] [LawfulBEq α] {add : List α → α → List α}
    (hold : ∀ seen y, y ∈ seen → add seen y = seen)
    (hnew : ∀ seen y, y ∉ seen → add seen y = seen ++ [y]) (xs ys : List α) :
    ys.foldl add xs.eraseDups = (xs ++ ys).eraseDups := by
  induction ys generalizing xs with
  | nil => simp
  | cons y rest ih =>
    have hone : add xs.eraseDups y = (xs ++ [y]).eraseDups := by
      rw [List.eraseDups_append]
      by_cases hy : y ∈ xs
      · rw [hold _ _ (List.mem_eraseDups.2 hy)]
        simp [hy, List.removeAll]
      · rw [hnew _ _ (mt List.mem_eraseDups.1 hy)]
        simp [hy, List.removeAll, List.eraseDups_cons]
    rw [List.foldl_cons, hone, ih, List.append_assoc, List.singleton_append]

theorem foldl_addOnce (xs ys : List String) :
    ys.foldl Draft.addOnce xs.eraseDups = (xs ++ ys).eraseDups := by
  refine foldl_eraseDups ?_ ?_ xs ys
  · intro seen y hy
    rw [Draft.addOnce, if_pos (List.contains_iff_mem.2 hy)]
  · intro seen y hy
    rw [Draft.addOnce, if_neg (mt List.contains_iff_mem.1 hy)]

/-- What is expanded so far, property by property. -/
theorem getD_expansion {steps : List Step} (h : expandsAll steps = false) :
    (expansion steps).getD [] = (steps.flatMap (fieldTexts ·.2)).eraseDups := by
  rw [expansion, h, if_neg Bool.false_ne_true]
  cases steps with
  | nil => rfl
  | cons s rest => rfl

/-- Conditions that are written have their words and their joints in step. -/
theorem isSound_of_mem_conditions {f : Fragment} {steps : List Step}
    (h : f ∈ steps.filterMap condition) : f.IsSound := by
  obtain ⟨s, _, hs⟩ := List.mem_filterMap.1 h
  rw [condition.eq_def] at hs
  split at hs
  · next e _ => exact e.isSound_of_fragment (toOption_eq_some.1 hs)
  · cases hs

/-- One more condition. -/
theorem addFilter_eq {fs : List Fragment} (hs : ∀ f ∈ fs, f.IsSound) {d : Draft}
    (hfilter : d.segments.filter = conjunction fs) (hjoint : d.joint = conjunctionJoint fs)
    (f : Fragment) :
    d.addFilter f = { d with
      segments.filter := conjunction (fs ++ [f]), joint := conjunctionJoint (fs ++ [f]) } := by
  rcases fs with _ | ⟨g, _ | ⟨h, rest⟩⟩
  · simp only [Draft.addFilter, hfilter, conjunction]
    rfl
  · simp only [Draft.addFilter, hfilter, hjoint, conjunction, conjunctionJoint]
    rw [(hs g List.mem_cons_self).sideText_and]
    simp
  · simp only [Draft.addFilter, hfilter, hjoint, conjunction, conjunctionJoint]
    rw [if_neg (by simp)]
    have happend :
        " and ".intercalate (g.sideText .and :: (h :: rest ++ [f]).map Fragment.reduce) =
          " and ".intercalate (g.sideText .and :: (h :: rest).map Fragment.reduce) ++ " and "
            ++ f.reduce := by
      rw [List.map_append, ← List.cons_append,
        String.intercalate_append_of_ne_nil (List.cons_ne_nil _ _) (by simp), List.map_singleton,
        String.intercalate_singleton]
    rw [← happend]
    rfl

namespace Draft

variable {steps : List Step} {xs : List Operand} {d : Draft}

theorem select_of (h : (Draft.of steps).select xs = .ok d) :
    d = Draft.of (steps ++ [(.select, xs)]) := by
  obtain ⟨fields, hfields, h⟩ := bind_eq_ok.1 h
  obtain rfl := Except.ok.inj h
  rw [fieldTexts_of_mapM hfields, fieldTexts_filter]
  simp [Draft.of, meaning, Operator.slot?, selection]

theorem orderBy_of {operator : Operator} {descending : Bool}
    (hslot : operator.slot? = some .order) (hdir : (operator == .orderByDescending) = descending)
    (h : (Draft.of steps).orderBy operator descending xs = .ok d) :
    d = Draft.of (steps ++ [(operator, xs)]) := by
  obtain ⟨fields, hfields, h⟩ := bind_eq_ok.1 h
  obtain rfl := Except.ok.inj h
  have hsort : some ((sorting (Slot.order.of steps)).getD [] ++
      (fieldTexts xs).map (⟨·, descending⟩)) =
        sorting (Slot.order.of steps ++ [(operator, xs)]) := by
    cases Slot.order.of steps with
    | nil => simp [sorting, sortKeys, hdir]
    | cons s rest => simp [sorting, sortKeys, hdir]
  rw [fieldTexts_of_mapM hfields]
  simp [Draft.of, meaning, hslot, hsort]

theorem expand_of (h : (Draft.of steps).expand xs = .ok d) :
    d = Draft.of (steps ++ [(.expand, xs)]) := by
  have hall : Segments.expandsAll (Slot.expand.of steps ++ [(Operator.expand, xs)]) =
      Segments.expandsAll (Slot.expand.of steps) := by
    simp [Segments.expandsAll]
  rw [Draft.expand] at h
  cases hexp : Segments.expandsAll (Slot.expand.of steps) with
  | true =>
    rw [if_pos (show (Draft.of steps).expandsAll = true from hexp)] at h
    obtain rfl := Except.ok.inj h
    simp [Draft.of, meaning, Operator.slot?, hall, expansion, hexp]
  | false =>
    rw [if_neg (show ¬ (Draft.of steps).expandsAll = true by simp [Draft.of, hexp])] at h
    obtain ⟨fields, hfields, h⟩ := bind_eq_ok.1 h
    obtain rfl := Except.ok.inj h
    have hexpand : some ((fieldTexts xs).foldl addOnce
        ((expansion (Slot.expand.of steps)).getD [])) =
          expansion (Slot.expand.of steps ++ [(Operator.expand, xs)]) := by
      rw [getD_expansion hexp, foldl_addOnce, expansion, hall, hexp]
      simp
    rw [fieldTexts_of_mapM hfields]
    simp [Draft.of, meaning, Operator.slot?, hall, ← hexpand]

theorem key_of (h : (Draft.of steps).key xs = .ok d) :
    d = Draft.of (steps ++ [(.getByKey, xs)]) := by
  rw [Draft.key.eq_def] at h
  split at h
  · next x =>
    obtain ⟨k, hk, rfl⟩ := map_eq_ok.1 h
    simp [Draft.of, meaning, Operator.slot?, Segments.keyText, toOption_eq_some.2 hk]
  · cases h

theorem predicate_of (h : (Draft.of steps).predicate xs = .ok d) :
    d = Draft.of (steps ++ [(.predicate, xs)]) := by
  rw [Draft.predicate.eq_def] at h
  split at h
  · next e =>
    split at h
    · cases h
    · obtain ⟨f, hf, rfl⟩ := map_eq_ok.1 h
      have hcond : condition (.predicate, [.expression e]) = some f := toOption_eq_some.2 hf
      rw [addFilter_eq (fun g hg => isSound_of_mem_conditions hg) rfl rfl]
      simp [Draft.of, meaning, Operator.slot?, hcond]
  · cases h

theorem number_of {operator : Operator} {n : Nat} (h : countOf operator xs = .ok n) :
    number (operator, xs) = some n := toOption_eq_some.2 h

/-- **What one step does.**  A step that is accepted behind others leaves what all of them mean. -/
theorem step_of_eq {s : Step} (h : (Draft.of steps).step s.alone = .ok d) :
    d = Draft.of (steps ++ [s]) := by
  obtain ⟨operator, xs⟩ := s
  rw [Step.alone, Expression.alone, Draft.step, Expression.operator, Expression.operands] at h
  cases operator with
  | select => exact select_of h
  | top =>
    obtain ⟨n, hn, rfl⟩ := map_eq_ok.1 h
    simp [Draft.of, meaning, Operator.slot?, number_of hn]
  | skip =>
    obtain ⟨n, hn, rfl⟩ := map_eq_ok.1 h
    simp [Draft.of, meaning, Operator.slot?, number_of hn]
  | orderBy => exact orderBy_of rfl rfl h
  | orderByDescending => exact orderBy_of rfl rfl h
  | expand => exact expand_of h
  | expandAll =>
    obtain rfl := Except.ok.inj h
    simp [Draft.of, meaning, Operator.slot?, expansion, Segments.expandsAll]
  | getByKey => exact key_of h
  | getWithCount =>
    obtain rfl := Except.ok.inj h
    simp [Draft.of, meaning, Operator.slot?]
  | value =>
    obtain rfl := Except.ok.inj h
    simp [Draft.of, meaning, Operator.slot?]
  | predicate => exact predicate_of h
  | _ => cases h

end Draft

/-! ## Which steps are accepted -/

/-- What is said of a step as a chain of its own. -/
def verdict (s : Step) : Except QueryError Unit := (ofChain (some s.alone)).map fun _ => ()

/-- Whether a step is not looked at: an `expand` when everything is expanded before. -/
def excuses (older : List Step) (s : Step) : Bool := s.1 == .expand && expandsAll older

/-- What is said of a step behind others. -/
def verdictAfter (older : List Step) (s : Step) : Except QueryError Unit :=
  if excuses older s then .ok () else verdict s

/-- No step is refused. -/
def Accepted (steps : List Step) : Prop :=
  ∀ older s newer, steps = older ++ s :: newer → verdictAfter older s = .ok ()

theorem expandsAll_of (steps : List Step) :
    expandsAll (Slot.expand.of steps) = expandsAll steps := by
  rw [expandsAll, Slot.of, List.any_filter, expandsAll]
  congr 1
  funext s
  cases h : s.1 <;> simp [Operator.slot?]

theorem verdict_eq (s : Step) :
    verdict s = (Draft.empty.step s.alone).map fun _ => () := by
  have hchain : (Expression.chainOf (some s.alone)).reverse = [s.alone] := rfl
  rw [verdict, ofChain, hchain, List.foldlM_cons]
  cases Draft.empty.step s.alone with
  | error e => rfl
  | ok d => rfl

/-- Apart from an `expand`, what is said of a step does not depend on the state it is taken in. -/
theorem map_step (d : Draft) {s : Step} (h : d.expandsAll = false ∨ s.1 ≠ .expand) :
    (d.step s.alone).map (fun _ => ()) = verdict s := by
  have hmap {α : Type} (x : Except QueryError α) (f g : α → Draft) :
      (x.map f).map (fun _ => ()) = (x.map g).map fun _ => () := by
    cases x <;> rfl
  have hbind {α : Type} (x : Except QueryError α) (f g : α → Draft) :
      (x >>= fun a => .ok (f a)).map (fun _ => ()) =
        (x >>= fun a => .ok (g a)).map fun _ => () := by
    cases x <;> rfl
  obtain ⟨operator, xs⟩ := s
  rw [verdict_eq, Step.alone, Expression.alone, Draft.step, Draft.step, Expression.operator,
    Expression.operands]
  cases operator with
  | select => exact hbind _ _ _
  | top => exact hmap _ _ _
  | skip => exact hmap _ _ _
  | orderBy => exact hbind _ _ _
  | orderByDescending => exact hbind _ _ _
  | expand =>
    have hall : d.expandsAll = false := h.resolve_right fun hne => hne rfl
    simp only [Draft.expand, hall, Draft.empty]
    exact hbind _ _ _
  | getByKey =>
    simp only [Draft.key.eq_def]
    split
    · exact hmap _ _ _
    · rfl
  | predicate =>
    simp only [Draft.predicate.eq_def]
    split
    · split
      · rfl
      · exact hmap _ _ _
    · rfl
  | _ => rfl

/-- **When a step is refused.**  The steps before it do not matter, except for an `expand` when
everything is expanded. -/
theorem map_step_of (steps : List Step) (s : Step) :
    ((Draft.of steps).step s.alone).map (fun _ => ()) = verdictAfter steps s := by
  have hall : (Draft.of steps).expandsAll = expandsAll steps := expandsAll_of steps
  rw [verdictAfter]
  split
  · next hexc =>
    obtain ⟨operator, xs⟩ := s
    simp only [excuses, Bool.and_eq_true, beq_iff_eq] at hexc
    obtain ⟨rfl, hsteps⟩ := hexc
    have hexpand : (Draft.of steps).expand xs = .ok (Draft.of steps) := by
      rw [Draft.expand, hall, if_pos hsteps]
    exact congrArg (Except.map fun _ => ()) hexpand
  · next hexc =>
    refine map_step _ ?_
    rw [hall]
    simp only [excuses, Bool.and_eq_true, beq_iff_eq] at hexc
    by_cases hsteps : expandsAll steps = true
    · exact .inr fun hs => hexc ⟨hs, hsteps⟩
    · exact .inl (by simpa using hsteps)

theorem step_of_eq_ok_iff {steps : List Step} {s : Step} {d : Draft} :
    (Draft.of steps).step s.alone = .ok d ↔
      verdictAfter steps s = .ok () ∧ d = Draft.of (steps ++ [s]) := by
  have hmap := map_step_of steps s
  refine ⟨fun h => ?_, fun h => ?_⟩
  · rw [h] at hmap
    exact ⟨hmap.symm, Draft.step_of_eq h⟩
  · cases hstep : (Draft.of steps).step s.alone with
    | error e =>
      rw [hstep, h.1] at hmap
      cases hmap
    | ok d' => rw [h.2, Draft.step_of_eq hstep]

theorem step_of_eq_error_iff {steps : List Step} {s : Step} {e : QueryError} :
    (Draft.of steps).step s.alone = .error e ↔ verdictAfter steps s = .error e := by
  rw [← map_step_of, map_eq_error]

/-! ## All steps -/

/-- Where a list with one more behind it may be split. -/
theorem append_singleton_eq_split {α : Type} {xs ys zs : List α} {x y : α} :
    xs ++ [x] = ys ++ y :: zs ↔
      (zs = [] ∧ ys = xs ∧ y = x) ∨ ∃ init, zs = init ++ [x] ∧ xs = ys ++ y :: init := by
  cases zs using List.reverseRecOn with
  | nil =>
    refine ⟨fun h => ?_, fun h => ?_⟩
    · obtain ⟨rfl, hx⟩ := List.append_inj' h rfl
      exact .inl ⟨rfl, rfl, (List.cons.inj hx).1.symm⟩
    · rcases h with ⟨-, rfl, rfl⟩ | ⟨init, hnil, -⟩
      · rfl
      · exact absurd hnil (by simp)
  | append_singleton init z =>
    have hassoc : ys ++ y :: (init ++ [z]) = (ys ++ y :: init) ++ [z] := by simp
    rw [hassoc]
    refine ⟨fun h => ?_, fun h => ?_⟩
    · obtain ⟨rfl, hx⟩ := List.append_inj' h rfl
      exact .inr ⟨init, by rw [hx], rfl⟩
    · rcases h with ⟨hnil, -⟩ | ⟨init', hinit, rfl⟩
      · exact absurd hnil (by simp)
      · obtain ⟨rfl, hz⟩ := List.append_inj' hinit rfl
        rw [hz]

theorem accepted_nil : Accepted [] := by
  intro older s newer h
  exact absurd h (by simp)

theorem accepted_append_singleton {steps : List Step} {s : Step} :
    Accepted (steps ++ [s]) ↔ Accepted steps ∧ verdictAfter steps s = .ok () := by
  refine ⟨fun h => ⟨fun older t newer ht => ?_, h steps s [] rfl⟩, fun h older t newer ht => ?_⟩
  · exact h older t (newer ++ [s]) (by simp [ht])
  · rcases append_singleton_eq_split.1 ht with ⟨-, rfl, rfl⟩ | ⟨init, -, hsteps⟩
    · exact h.2
    · exact h.1 older t init hsteps

/-- The state behind a chain of steps. -/
def run (steps : List Step) : Except QueryError Draft :=
  steps.foldlM (fun d s => d.step s.alone) .empty

theorem run_append_singleton (steps : List Step) (s : Step) :
    run (steps ++ [s]) = run steps >>= fun d => d.step s.alone := by
  simp [run, List.foldlM_append]

/-- **A chain without a step that is refused leaves its meaning.** -/
theorem run_eq_ok {steps : List Step} {d : Draft} :
    run steps = .ok d ↔ Accepted steps ∧ d = Draft.of steps := by
  induction steps using List.reverseRecOn generalizing d with
  | nil => exact ⟨fun h => ⟨accepted_nil, (Except.ok.inj h).symm⟩, fun h => by rw [h.2]; rfl⟩
  | append_singleton steps s ih =>
    rw [run_append_singleton, accepted_append_singleton, and_assoc]
    cases hrun : run steps with
    | error e =>
      refine ⟨nofun, fun h => ?_⟩
      rw [ih.2 ⟨h.1, rfl⟩] at hrun
      cases hrun
    | ok d' =>
      obtain ⟨hacc, rfl⟩ := ih.1 hrun
      exact ⟨fun h => ⟨hacc, step_of_eq_ok_iff.1 h⟩, fun h => step_of_eq_ok_iff.2 h.2⟩

/-- **A chain with steps that are refused fails at the oldest of them.** -/
theorem run_eq_error {steps : List Step} {e : QueryError} :
    run steps = .error e ↔ ∃ older s newer, steps = older ++ s :: newer ∧ Accepted older ∧
      verdictAfter older s = .error e := by
  induction steps using List.reverseRecOn with
  | nil =>
    refine ⟨nofun, fun ⟨older, s, newer, h, _⟩ => ?_⟩
    exact absurd h (by simp)
  | append_singleton steps s ih =>
    rw [run_append_singleton]
    refine ⟨fun h => ?_, fun ⟨older, t, newer, ht, hacc, hverdict⟩ => ?_⟩
    · cases hrun : run steps with
      | error e' =>
        rw [hrun] at h
        obtain rfl : e' = e := Except.error.inj h
        obtain ⟨older, t, newer, rfl, hacc, hverdict⟩ := ih.1 hrun
        exact ⟨older, t, newer ++ [s], by simp, hacc, hverdict⟩
      | ok d =>
        rw [hrun] at h
        obtain ⟨hacc, rfl⟩ := run_eq_ok.1 hrun
        exact ⟨steps, s, [], rfl, hacc, step_of_eq_error_iff.1 h⟩
    · rcases append_singleton_eq_split.1 ht with ⟨-, rfl, rfl⟩ | ⟨init, -, hsteps⟩
      · rw [run_eq_ok.2 ⟨hacc, rfl⟩]
        exact step_of_eq_error_iff.2 hverdict
      · rw [ih.2 ⟨older, t, init, hsteps, hacc, hverdict⟩]
        rfl

/-! ## Whole chains -/

/-- A chain is as good as its steps. -/
theorem ofChain_eq_run (head : Option Expression) :
    ofChain head = (run (Expression.steps head)).map (·.segments) := by
  rw [ofChain, run, Expression.steps, List.foldlM_map]
  rfl

theorem ofChain_eq_ok {head : Option Expression} {s : Segments} :
    ofChain head = .ok s ↔
      Accepted (Expression.steps head) ∧ s = meaning (Expression.steps head) := by
  rw [ofChain_eq_run, map_eq_ok]
  refine ⟨fun h => ?_, fun h => ?_⟩
  · obtain ⟨d, hd, rfl⟩ := h
    obtain ⟨hacc, rfl⟩ := run_eq_ok.1 hd
    exact ⟨hacc, rfl⟩
  · exact ⟨Draft.of (Expression.steps head), run_eq_ok.2 ⟨h.1, rfl⟩, h.2.symm⟩

theorem ofChain_eq_error {head : Option Expression} {e : QueryError} :
    ofChain head = .error e ↔ run (Expression.steps head) = .error e := by
  rw [ofChain_eq_run, map_eq_error]

/-- Chains that agree slot by slot mean the same. -/
theorem meaning_congr {x y : List Step} (h : ∀ slot : Slot, slot.of x = slot.of y) :
    meaning x = meaning y := by
  simp only [meaning, h]

/-- **The segments of a chain.**  There are segments exactly if no step is refused, and then each of
them is what the steps about it mean.  Otherwise the error is the one of the oldest step that is
refused.  So two chains that are accepted have the same URL if they agree slot by slot, however the
slots are interleaved. -/
theorem ofChain_meaning (head : Option Expression) :
    (∀ s, ofChain head = .ok s ↔
      Accepted (Expression.steps head) ∧ s = meaning (Expression.steps head)) ∧
    (∀ e, ofChain head = .error e ↔ ∃ older s newer,
      Expression.steps head = older ++ s :: newer ∧ Accepted older ∧
        verdictAfter older s = .error e) ∧
    (∀ other s t, ofChain head = .ok s → ofChain other = .ok t →
      (∀ slot : Slot, slot.of (Expression.steps head) = slot.of (Expression.steps other)) →
        s = t ∧ ∀ endpoint, s.url endpoint = t.url endpoint) := by
  refine ⟨fun s => ofChain_eq_ok, fun e => ofChain_eq_error.trans run_eq_error, ?_⟩
  intro other s t hs ht hslots
  have hst : s = t := by
    rw [(ofChain_eq_ok.1 hs).2, (ofChain_eq_ok.1 ht).2, meaning_congr hslots]
  exact ⟨hst, fun endpoint => by rw [hst]⟩

end Segments

end EntityQuery
