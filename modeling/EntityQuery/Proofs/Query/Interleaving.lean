import EntityQuery.Proofs.Chain.Renaming
import EntityQuery.Proofs.Query.Calls
import Mathlib.Algebra.Order.BigOperators.Group.List
import Mathlib.Data.List.Pairwise

/-!
# Calls on several queries

Queries that are made from one another share their numbering, so which numbers a filter takes depends on
all the filters that were built before, on whatever query.  A `Session` is such a family of queries: it
begins with one of them, and every call adds another one.  Calls on different queries may be done in any
order, and a query knows the calls that it was made by, but not those that were done in between.

The order does not matter.  A query made by the same calls in another session is the same up to a
renaming in which no two variables become one (`Session.same_calls`).  For a single call this is
`Call.mirrors_apply`; a call takes a stretch of numbers in each of the two sessions, later calls take later
stretches, and a renaming that takes all the stretches of one session to those of the other is put
together from them (`Stretch.exists_injective`).
-/

set_option autoImplicit false

namespace EntityQuery

/-! ## One call -/

namespace Query

/-- The result of a call after variables have changed their numbers. -/
inductive Mirrors (σ : Nat → Nat) : Except QueryError Query → Except QueryError Query → Prop
  | ok (q : Query) : Mirrors σ (.ok q) (.ok (q.rename σ))
  | error {e e' : QueryError} (h : e.Renamed σ e') : Mirrors σ (.error e) (.error e')

namespace Mirrors

variable {σ : Nat → Nat}

/-- Two results that are made from one in ways that are the same up to renaming. -/
theorem map {α : Type} (x : Except QueryError α) {f f' : α → Query}
    (h : ∀ a, f' a = (f a).rename σ) : Mirrors σ (x.map f) (x.map f') := by
  cases x with
  | error e => exact .error (.same e)
  | ok a =>
    show Mirrors σ (.ok (f a)) (.ok (f' a))
    rw [h]
    exact .ok (f a)

/-- What is done with a result afterwards, if it does not look at variables. -/
theorem andThen {x x' : Except QueryError Query} (h : Mirrors σ x x') {f : Query → Query}
    (hf : ∀ q, f (q.rename σ) = (f q).rename σ) : Mirrors σ (x.map f) (x'.map f) := by
  cases h with
  | error h => exact .error h
  | ok q =>
    show Mirrors σ (.ok (f q)) (.ok (f (q.rename σ)))
    rw [hf]
    exact .ok (f q)

/-- A filter is put into a query. -/
theorem filterPredicate (q : Query) (p : Predicate) :
    Mirrors σ (q.filterPredicate p) ((q.rename σ).filterPredicate (p.rename σ)) := by
  have hpush : (q.push .predicate [.expression p.expression]).rename σ =
      (q.rename σ).push .predicate [.expression (p.rename σ).expression] := rename_push ..
  have hid : p.expression.validateFields = (p.expression.rename id).validateFields := by
    rw [p.expression.rename_id]
  have hrenamed : (p.rename σ).expression.validateFields =
      (p.expression.rename σ).validateFields := rfl
  rw [Query.filterPredicate, Query.filterPredicate, hid, hrenamed]
  rcases p.expression.isUniform_validateFields.id_or σ with ⟨a, a', h, h'⟩ | ⟨e, e', he, h, h'⟩
  · rw [h, h']
    show Mirrors σ (.ok (q.push .predicate [.expression p.expression])) (.ok _)
    rw [← hpush]
    exact .ok _
  · rw [h, h']
    exact .error he

end Mirrors

namespace Call

/-- How many quantifiers a call evaluates. -/
def evaluated : Call → Nat
  | filter _ c => c.evaluated
  | _ => 0

/-- A call whose only variables are those that its own quantifiers are given. -/
def IsForeign : Call → Prop
  | filter naming c => c.IsForeign naming
  | filterPredicate p => (Operand.expression p.expression).IsForeign
  | _ => True

/-- **What one call does in two sessions.**  On queries that are the same up to renaming, a call takes as
many numbers, and has results that are the same up to renaming. -/
theorem mirrors_apply {call : Call} (h : call.IsForeign) (q : Query) {σ : Nat → Nat} {next next' : Nat}
    (hσ : Shifts σ next next' call.evaluated) :
    ((call.apply q).run.run next).2 = next + call.evaluated ∧
    ((call.apply (q.rename σ)).run.run next').2 = next' + call.evaluated ∧
    Mirrors σ ((call.apply q).run.run next).1 ((call.apply (q.rename σ)).run.run next').1 := by
  have hfields (operator : Operator) (hoperator : operator ≠ .predicate) (fields : List Field) :
      Mirrors σ (q.pushFields operator fields) ((q.rename σ).pushFields operator fields) :=
    .map _ fun operands => (rename_push_of_ne hoperator σ q operands).symm
  have hpush (operator : Operator) (hoperator : operator ≠ .predicate) (operands : List Operand) :
      Mirrors σ (.ok (q.push operator operands)) (.ok ((q.rename σ).push operator operands)) := by
    rw [← rename_push_of_ne hoperator]
    exact .ok _
  cases call with
  | select fields => exact ⟨rfl, rfl, (hfields .select nofun fields).andThen fun _ => rfl⟩
  | selectWith p result =>
    exact ⟨rfl, rfl, (hpush .select nofun _).andThen (f := fun r => { r with result := result })
      fun _ => rfl⟩
  | orderBy fields => exact ⟨rfl, rfl, hfields .orderBy nofun fields⟩
  | orderByDescending fields => exact ⟨rfl, rfl, hfields .orderByDescending nofun fields⟩
  | expand fields => exact ⟨rfl, rfl, hfields .expand nofun fields⟩
  | expandAll => exact ⟨rfl, rfl, hpush .expandAll nofun []⟩
  | filter naming c =>
    obtain ⟨hlater, hbuild⟩ := Condition.IsForeign.predicate_eq h hσ
    show ((q.filter naming c).run.run next).2 = _ ∧ (((q.rename σ).filter naming c).run.run next').2 = _ ∧
      Mirrors σ ((q.filter naming c).run.run next).1 (((q.rename σ).filter naming c).run.run next').1
    rw [run_filter, run_filter, hbuild]
    refine ⟨hlater, rfl, ?_⟩
    cases (c.predicate naming next).1 with
    | error e => exact .error (.same e)
    | ok p => exact .filterPredicate q p
  | filterPredicate p =>
    have hp := Mirrors.filterPredicate (σ := σ) q p
    rw [Predicate.rename_of_isForeign h] at hp
    exact ⟨rfl, rfl, hp⟩
  | top n => exact ⟨rfl, rfl, hpush .top nofun _⟩
  | skip n => exact ⟨rfl, rfl, hpush .skip nofun _⟩
  | byKey key => exact ⟨rfl, rfl, hpush .getByKey nofun _⟩
  | withCount => exact ⟨rfl, rfl, hpush .getWithCount nofun []⟩
  | value => exact ⟨rfl, rfl, hpush .value nofun []⟩

theorem later_apply {call : Call} (h : call.IsForeign) (q : Query) (next : Nat) :
    ((call.apply q).run.run next).2 = next + call.evaluated :=
  (mirrors_apply (σ := id) h q fun _ _ => rfl : _ ∧ _ = next + _ ∧ _).1

end Call

end Query

/-! ## Stretches of numbers -/

/-- Numbers that were given out in a row in one session, and as many in another. -/
structure Stretch where
  first : Nat
  second : Nat
  count : Nat

namespace Stretch

/-- Whether a number of the first session is in a stretch. -/
def Covers (s : Stretch) (n : Nat) : Prop := s.first ≤ n ∧ n < s.first + s.count

instance (s : Stretch) (n : Nat) : Decidable (s.Covers n) :=
  inferInstanceAs (Decidable (s.first ≤ n ∧ n < s.first + s.count))

/-- One stretch ends before another begins, in both sessions. -/
def Before (s t : Stretch) : Prop :=
  s.first + s.count ≤ t.first ∧ s.second + s.count ≤ t.second

/-- The renaming that takes the stretches of the first session to those of the second.  All other numbers
go behind them. -/
def shift (stretches : List Stretch) (n : Nat) : Nat :=
  match stretches.find? (·.Covers n) with
  | some s => s.second + (n - s.first)
  | none => (stretches.map fun s => s.second + s.count).sum + n

variable {stretches : List Stretch} {s t : Stretch} {m n : Nat}

/-- Stretches that are ordered are apart from one another. -/
theorem eq_or_before (h : stretches.Pairwise Before) (hs : s ∈ stretches) (ht : t ∈ stretches) :
    s = t ∨ s.Before t ∨ t.Before s := by
  have hsymm : Std.Symm fun s t : Stretch => s.Before t ∨ t.Before s := ⟨fun _ _ => Or.symm⟩
  have heither : stretches.Pairwise fun s t => s.Before t ∨ t.Before s := h.imp fun hst => .inl hst
  by_cases heq : s = t
  · exact .inl heq
  · exact .inr (heither.forall hs ht heq)

theorem shift_of_covers (h : stretches.Pairwise Before) (hs : s ∈ stretches) (hn : s.Covers n) :
    shift stretches n = s.second + (n - s.first) := by
  cases hfind : stretches.find? (·.Covers n) with
  | none => exact absurd (decide_eq_true hn) (List.find?_eq_none.1 hfind s hs)
  | some t =>
    have ht : t.Covers n := by simpa using List.find?_some hfind
    -- Only one stretch has the number in it.
    obtain rfl : s = t := by
      rcases eq_or_before h hs (List.mem_of_find?_eq_some hfind) with heq | hbefore | hbefore
      · exact heq
      · exact absurd (Nat.lt_of_lt_of_le hn.2 (hbefore.1.trans ht.1)) (Nat.lt_irrefl n)
      · exact absurd (Nat.lt_of_lt_of_le ht.2 (hbefore.1.trans hn.1)) (Nat.lt_irrefl n)
    rw [shift, hfind]

theorem shift_of_not_covers (h : ∀ s ∈ stretches, ¬ s.Covers n) :
    shift stretches n = (stretches.map fun s => s.second + s.count).sum + n := by
  have hfind : stretches.find? (·.Covers n) = none :=
    List.find?_eq_none.2 fun s hs => by simpa using h s hs
  rw [shift, hfind]

/-- A number in a stretch stays below all numbers that are in none. -/
theorem shift_lt_of_covers (h : stretches.Pairwise Before) (hs : s ∈ stretches) (hm : s.Covers m)
    (hn : ∀ s ∈ stretches, ¬ s.Covers n) : shift stretches m < shift stretches n := by
  have hend : s.second + s.count ≤ (stretches.map fun s => s.second + s.count).sum :=
    List.single_le_sum (fun _ _ => Nat.zero_le _) _ (List.mem_map_of_mem hs)
  rw [shift_of_covers h hs hm, shift_of_not_covers hn]
  have := hm.1
  have := hm.2
  omega

theorem shifts_shift (h : stretches.Pairwise Before) (hs : s ∈ stretches) :
    Shifts (shift stretches) s.first s.second s.count := by
  intro i hi
  rw [shift_of_covers h hs ⟨Nat.le_add_right _ _, Nat.add_lt_add_left hi _⟩, Nat.add_sub_cancel_left]

theorem injective_shift (h : stretches.Pairwise Before) : Function.Injective (shift stretches) := by
  intro m n hmn
  by_cases hm : ∃ s ∈ stretches, s.Covers m
  · obtain ⟨s, hs, hm⟩ := hm
    by_cases hn : ∃ t ∈ stretches, t.Covers n
    · obtain ⟨t, ht, hn⟩ := hn
      rw [shift_of_covers h hs hm, shift_of_covers h ht hn] at hmn
      obtain ⟨hm₁, hm₂⟩ := hm
      obtain ⟨hn₁, hn₂⟩ := hn
      rcases eq_or_before h hs ht with rfl | ⟨-, hbefore⟩ | ⟨-, hbefore⟩
      · omega
      · omega
      · omega
    · have hlt := shift_lt_of_covers h hs hm fun t ht hc => hn ⟨t, ht, hc⟩
      exact absurd hmn (Nat.ne_of_lt hlt)
  · have hm' : ∀ s ∈ stretches, ¬ s.Covers m := fun s hs hc => hm ⟨s, hs, hc⟩
    by_cases hn : ∃ t ∈ stretches, t.Covers n
    · obtain ⟨t, ht, hn⟩ := hn
      exact absurd hmn (Nat.ne_of_gt (shift_lt_of_covers h ht hn hm'))
    · rw [shift_of_not_covers hm', shift_of_not_covers fun t ht hc => hn ⟨t, ht, hc⟩] at hmn
      exact Nat.add_left_cancel hmn

/-- **Stretches that are ordered are renamed together**, without making two variables one. -/
theorem exists_injective (h : stretches.Pairwise Before) :
    ∃ σ, Function.Injective σ ∧ ∀ s ∈ stretches, Shifts σ s.first s.second s.count :=
  ⟨shift stretches, injective_shift h, fun _ hs => shifts_shift h hs⟩

end Stretch

/-! ## Sessions -/

/-- What a call on a query gave, with all the calls from the first query on. -/
structure Entry where
  calls : List Query.Call
  outcome : Except QueryError Query

/-- Queries that were made from one another, in the order in which they were made, and the next number
that is free. -/
structure Session where
  entries : List Entry
  next : Nat

namespace Session

open Query (Call Mirrors on)

/-- A session with one query. -/
def start (root : Query) (next : Nat) : Session := ⟨[⟨[], .ok root⟩], next⟩

/-- Does a call on one of the queries, if that is there. -/
def step (s : Session) (i : Nat) (call : Call) : Session :=
  match s.entries[i]? with
  | some ⟨calls, .ok q⟩ =>
    let (outcome, next) := (call.apply q).run.run s.next
    ⟨s.entries ++ [⟨calls ++ [call], outcome⟩], next⟩
  | _ => s

/-- Does calls one after the other, each of them on the query at some place. -/
def run (s : Session) (steps : List (Nat × Call)) : Session :=
  steps.foldl (fun s call => s.step call.1 call.2) s

/-- What was made stays as it was. -/
theorem entries_step (s : Session) (i : Nat) (call : Call) :
    s.entries <+: (s.step i call).entries := by
  rw [step]
  split
  · exact List.prefix_append _ _
  · exact List.prefix_rfl

theorem entries_run (s : Session) (steps : List (Nat × Call)) :
    s.entries <+: (s.run steps).entries := by
  induction steps generalizing s with
  | nil => exact List.prefix_rfl
  | cons call rest ih => exact (s.entries_step call.1 call.2).trans (ih _)

theorem run_append (s : Session) (steps more : List (Nat × Call)) :
    s.run (steps ++ more) = (s.run steps).run more := List.foldl_append ..

/-- How an entry came about: its calls were done one after the other, whatever was done in between.  All
their numbers are below the last one. -/
inductive Derived (root : Query) : List Call → Except QueryError Query → Nat → Prop
  | root (next : Nat) : Derived root [] (.ok root) next
  | call {calls : List Call} {q : Query} {bound next : Nat} (h : Derived root calls (.ok q) bound)
      (hnext : bound ≤ next) (call : Call) :
      Derived root (calls ++ [call]) ((call.apply q).run.run next).1 ((call.apply q).run.run next).2

namespace Derived

variable {root : Query} {calls : List Call} {outcome outcome' : Except QueryError Query}
  {bound bound' : Nat}

theorem outcome_of_nil (h : Derived root [] outcome bound) : outcome = .ok root := by
  generalize hcalls : [] = calls at h
  cases h with
  | root next => rfl
  | call h hnext call => exact absurd hcalls (by simp)

theorem exists_of_append_singleton {call : Call} (h : Derived root (calls ++ [call]) outcome bound) :
    ∃ q before next, Derived root calls (.ok q) before ∧ before ≤ next ∧
      outcome = ((call.apply q).run.run next).1 ∧ bound = ((call.apply q).run.run next).2 := by
  generalize hcalls : calls ++ [call] = all at h
  cases h with
  | root next => exact absurd hcalls (by simp)
  | @call calls' q before next h hnext call' =>
    obtain ⟨rfl, hcall⟩ := List.append_inj' hcalls rfl
    obtain rfl := List.singleton_inj.1 hcall
    exact ⟨q, before, next, h, hnext, rfl, rfl⟩

/-- **Calls in two sessions.**  What the same calls gave in two sessions is the same under every renaming
that takes the numbers that they took in one session to those that they took in the other.  -/
theorem mirrors (hroot : ∀ σ, root.rename σ = root) (h : Derived root calls outcome bound)
    (h' : Derived root calls outcome' bound') (hcalls : ∀ call ∈ calls, call.IsForeign) :
    ∃ stretches : List Stretch, stretches.Pairwise Stretch.Before ∧
      (∀ s ∈ stretches, s.first + s.count ≤ bound ∧ s.second + s.count ≤ bound') ∧
      ∀ σ, (∀ s ∈ stretches, Shifts σ s.first s.second s.count) → Mirrors σ outcome outcome' := by
  induction h generalizing outcome' bound' with
  | root next =>
    refine ⟨[], .nil, nofun, fun σ _ => ?_⟩
    rw [h'.outcome_of_nil]
    have hmirrors := Mirrors.ok (σ := σ) root
    rwa [hroot] at hmirrors
  | @call calls q before next _ hnext call ih =>
    obtain ⟨q', before', next', hq', hnext', rfl, rfl⟩ := h'.exists_of_append_singleton
    rw [List.forall_mem_append] at hcalls
    have hcall : call.IsForeign := hcalls.2 call (List.mem_singleton_self call)
    obtain ⟨stretches, hordered, hends, hmirrors⟩ := ih hq' hcalls.1
    -- The call takes a stretch behind all others, in both sessions.
    refine ⟨stretches ++ [⟨next, next', call.evaluated⟩], ?_, ?_, ?_⟩
    · rw [List.pairwise_append]
      refine ⟨hordered, List.pairwise_singleton _ _, fun s hs t ht => ?_⟩
      obtain rfl := List.mem_singleton.1 ht
      exact ⟨(hends s hs).1.trans hnext, (hends s hs).2.trans hnext'⟩
    · rw [Call.later_apply hcall, Call.later_apply hcall, List.forall_mem_append]
      refine ⟨fun s hs => ⟨?_, ?_⟩, fun s hs => ?_⟩
      · exact ((hends s hs).1.trans hnext).trans (Nat.le_add_right _ _)
      · exact ((hends s hs).2.trans hnext').trans (Nat.le_add_right _ _)
      · obtain rfl := List.mem_singleton.1 hs
        exact ⟨Nat.le_refl _, Nat.le_refl _⟩
    · intro σ hσ
      rw [List.forall_mem_append] at hσ
      cases hmirrors σ hσ.1 with
      | ok q => exact (Call.mirrors_apply hcall q (hσ.2 _ (List.mem_singleton_self _))).2.2

end Derived

/-- Every entry came about by its calls, which are calls of the session. -/
theorem exists_derived (root : Query) (first : Nat) {steps : List (Nat × Call)}
    (hsteps : ∀ s ∈ steps, s.2.IsForeign) {e : Entry}
    (he : e ∈ ((start root first).run steps).entries) :
    (∀ call ∈ e.calls, call.IsForeign) ∧
      ∃ bound ≤ ((start root first).run steps).next, Derived root e.calls e.outcome bound := by
  induction steps using List.reverseRecOn generalizing e with
  | nil =>
    obtain rfl := List.mem_singleton.1 he
    exact ⟨nofun, first, Nat.le_refl _, .root first⟩
  | append_singleton steps call ih =>
    obtain ⟨i, call⟩ := call
    rw [List.forall_mem_append] at hsteps
    have hcall : call.IsForeign := hsteps.2 _ (List.mem_singleton_self _)
    have hrun : (start root first).run (steps ++ [(i, call)]) =
        ((start root first).run steps).step i call := run_append ..
    have ih := @ih hsteps.1
    rw [hrun] at he ⊢
    generalize (start root first).run steps = s at ih he
    rw [step] at he ⊢
    split at he
    · next calls q hi =>
      obtain ⟨hforeign, before, hbefore, hderived⟩ := ih (List.mem_of_getElem? hi)
      have hlater : s.next ≤ ((call.apply q).run.run s.next).2 := by
        rw [Call.later_apply hcall]
        exact Nat.le_add_right _ _
      rcases List.mem_append.1 he with he | he
      · obtain ⟨hforeign, bound, hbound, hderived⟩ := ih he
        exact ⟨hforeign, bound, hbound.trans hlater, hderived⟩
      · obtain rfl := List.mem_singleton.1 he
        refine ⟨?_, _, Nat.le_refl _, .call hderived hbefore call⟩
        exact List.forall_mem_append.2 ⟨hforeign, List.forall_mem_singleton.2 hcall⟩
    · exact ih he

/-- **History does not matter.**

* A condition is built into the same tree from any number on, up to a renaming of the numbers that it
  takes, and takes as many.
* A renamed filter has the text of the filter with other variables in the same gaps, and a renamed query
  has the URL of the query in the same way, or they fail in the same way.
* Queries that were made stay as they were, whatever is called later.  What the same calls gave in two
  sessions, among whatever other calls, is the same up to a renaming in which no two variables become
  one. -/
theorem same_calls (service : Service) (entity : Shape) :
    (∀ (naming : Naming) (c : Condition), c.IsForeign naming → ∀ next next' : Nat,
      (∃ σ, Function.Injective σ ∧ Shifts σ next next' c.evaluated) ∧
      ∀ σ, Shifts σ next next' c.evaluated →
        (c.predicate naming next).2 = next + c.evaluated ∧
        c.predicate naming next' =
          ((c.predicate naming next).1.map (.rename σ), next' + c.evaluated)) ∧
    (∀ p : Predicate, p.rename id = p ∧
      IsUniform (fun text => ∃ t : Template, ∀ σ, text σ = some (t.fill σ))
        fun σ => (p.rename σ).expression.filterText) ∧
    (∀ q : Query, q.rename id = q ∧ IsUniform IsFilled fun σ => (q.rename σ).url) ∧
    ∀ (steps : List (Nat × Call)) (first : Nat),
      (∀ more, ((start (on service entity) first).run steps).entries <+:
        ((start (on service entity) first).run (steps ++ more)).entries) ∧
      ((∀ s ∈ steps, s.2.IsForeign) →
        ∀ (steps' : List (Nat × Call)) (first' : Nat), (∀ s ∈ steps', s.2.IsForeign) →
          ∀ e ∈ ((start (on service entity) first).run steps).entries,
          ∀ e' ∈ ((start (on service entity) first').run steps').entries, e.calls = e'.calls →
            ∃ σ, Function.Injective σ ∧ Mirrors σ e.outcome e'.outcome) := by
  refine ⟨?_, ?_, fun q => ⟨q.rename_id, q.isUniform_url⟩, ?_⟩
  · intro naming c hc next next'
    refine ⟨?_, fun σ hσ => hc.predicate_eq hσ⟩
    obtain ⟨σ, hinjective, hσ⟩ := Stretch.exists_injective
      (List.pairwise_singleton Stretch.Before ⟨next, next', c.evaluated⟩)
    exact ⟨σ, hinjective, hσ _ List.mem_cons_self⟩
  · exact fun p => ⟨p.rename_id, p.isUniform_filterText⟩
  · intro steps first
    refine ⟨?_, ?_⟩
    · intro more
      rw [run_append]
      exact entries_run _ more
    · intro hsteps steps' first' hsteps' e he e' he' hcalls
      obtain ⟨hforeign, bound, -, hderived⟩ := exists_derived _ first hsteps he
      obtain ⟨-, bound', -, hderived'⟩ := exists_derived _ first' hsteps' he'
      rw [← hcalls] at hderived'
      obtain ⟨stretches, hordered, -, hmirrors⟩ :=
        hderived.mirrors (fun σ => rfl) hderived' hforeign
      obtain ⟨σ, hinjective, hσ⟩ := Stretch.exists_injective hordered
      exact ⟨σ, hinjective, hmirrors σ hσ⟩

/-- A filter for entities of which some element of a collection has the number 1. -/
def someOne (collection : String) : Call :=
  .filter .paths (.quantify .any ⟨none, [collection]⟩
    (.compare .equals ⟨none, ["id"]⟩ (.operand (.bare (.number (.ofInt 1))))))

/-- Two filters on one query, in both orders. -/
theorem same_calls_swapped :
    ∃ e ∈ ((start (on ⟨"/users", false, none⟩ .any) 0).run
        [(0, someOne "tags"), (0, someOne "kids")]).entries,
      ∃ e' ∈ ((start (on ⟨"/users", false, none⟩ .any) 0).run
          [(0, someOne "kids"), (0, someOne "tags")]).entries,
        e.calls = [someOne "kids"] ∧ e'.calls = [someOne "kids"] ∧
        (∃ q, e.outcome = .ok q ∧
          q.url = .ok "/users?$filter=kids%2Fany(p1%3A%20p1%2Fid%20eq%201)") ∧
        (∃ q, e'.outcome = .ok q ∧
          q.url = .ok "/users?$filter=kids%2Fany(p0%3A%20p0%2Fid%20eq%201)") ∧
        ∃ σ, Function.Injective σ ∧ Mirrors σ e.outcome e'.outcome := by
  have hforeign (collection : String)
      (h : PropertyPath.IsForeign .paths ⟨none, [collection]⟩) : (someOne collection).IsForeign :=
    .quantify .any h (.compare .equals (by decide) ⟨nofun, nofun⟩)
  obtain ⟨-, -, -, hsessions⟩ := same_calls ⟨"/users", false, none⟩ .any
  refine ⟨_, .tail _ (.tail _ (.head _)), _, .tail _ (.head _), rfl, rfl, ⟨_, rfl, ?_⟩, ⟨_, rfl, ?_⟩, ?_⟩
  · decide +kernel
  · decide +kernel
  · refine (hsessions [(0, someOne "tags"), (0, someOne "kids")] 0).2 ?_
      [(0, someOne "kids"), (0, someOne "tags")] 0 ?_ _ (.tail _ (.tail _ (.head _))) _
      (.tail _ (.head _)) rfl
    · simp only [List.forall_mem_cons]
      exact ⟨hforeign "tags" (by decide), hforeign "kids" (by decide), nofun⟩
    · simp only [List.forall_mem_cons]
      exact ⟨hforeign "kids" (by decide), hforeign "tags" (by decide), nofun⟩

end Session

end EntityQuery
