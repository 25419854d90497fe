import EntityQuery.Proofs.Chain.Conjunction
import EntityQuery.Proofs.Condition.Variables
import EntityQuery.Proofs.Filter.WellFormed

/-!
# Paths are checked twice

A path that names nothing is found out twice: when a filter is put into a query
(`Expression.validateFields`), and when the filter is written.  The first looks at every operand there
is; the second is driven by operators and may stop for many other reasons before it comes to a path.

The two agree in the sense that the early check foresees the late one (`Foresees`).  Where writing stops
at a path, checking stops at the same path; and what is written was checked.  `Expression.foresees` says
so for every tree, whether a filter can be made of it or not.  The argument for a node is that it is
either refused for its operator, or written from all of its operands, from left to right
(`Fragment.compose_cases`), which is the order in which they are checked.
-/

set_option autoImplicit false

namespace EntityQuery

/-! ## Foresight -/

/-- The path that an error is about. -/
def QueryError.path? : QueryError → Option String
  | invalidFieldPath path => some path
  | _ => none

/-- An early check of some late work: it finds the path that the work stops at, if it is for a path that
it stops, and finds nothing if the work is done. -/
structure Foresees {α : Type} (early : Except QueryError Unit) (late : Except QueryError α) :
    Prop where
  done : ∀ a, late = .ok a → early = .ok ()
  path : ∀ path, late = .error (.invalidFieldPath path) → early = .error (.invalidFieldPath path)

namespace Foresees

variable {α β : Type} {early rest : Except QueryError Unit}

/-- Nothing is asked of a check, if the work stops for another reason. -/
theorem of_other {e : QueryError} (h : e.path? = none) :
    Foresees early (.error e : Except QueryError α) := by
  refine ⟨nofun, fun path hpath => ?_⟩
  obtain rfl := Except.error.inj hpath
  cases h

/-- Nothing is found in front of work that is done. -/
theorem of_done (a : α) : Foresees (.ok ()) (.ok a) := ⟨fun _ _ => rfl, nofun⟩

theorem map {late : Except QueryError α} (h : Foresees early late) (f : α → β) :
    Foresees early (late.map f) := by
  constructor
  · intro b hb
    obtain ⟨a, ha, -⟩ := map_eq_ok.1 hb
    exact h.done a ha
  · intro path hpath
    exact h.path path (map_eq_error.1 hpath)

/-- One piece of work after the other, with their checks in the same order. -/
theorem cons {late : Except QueryError α} {more : List (Except QueryError α)}
    (h : Foresees early late) (hmore : Foresees rest (more.mapM id)) :
    Foresees (early >>= fun _ => rest) ((late :: more).mapM id) := by
  rw [List.mapM_cons]
  constructor
  · intro as has
    obtain ⟨a, ha, has⟩ := bind_eq_ok.1 has
    obtain ⟨bs, hbs, -⟩ := bind_eq_ok.1 has
    rw [h.done a ha, hmore.done bs hbs]
    rfl
  · intro path hpath
    cases late with
    | error e =>
      obtain rfl : e = .invalidFieldPath path := Except.error.inj hpath
      rw [h.path path rfl]
      rfl
    | ok a =>
      have hrest : more.mapM id = .error (.invalidFieldPath path) := by
        cases hm : more.mapM id with
        | error e =>
          have he : (more.mapM id >>= fun as => Pure.pure (a :: as)) =
              .error (.invalidFieldPath path) := hpath
          rw [hm] at he
          exact congrArg Except.error (Except.error.inj he)
        | ok as =>
          have hok : (more.mapM id >>= fun as => Pure.pure (a :: as)) =
              .error (.invalidFieldPath path) := hpath
          rw [hm] at hok
          cases hok
      rw [h.done a rfl, hmore.path path hrest]
      rfl

end Foresees

/-! ## One node -/

namespace Fragment

/-- A node is refused for itself, or all of its pieces are looked at, in their order. -/
def ReadsAll (pieces : List Written) (w : Written) : Prop :=
  (∃ e : QueryError, w = .error e ∧ e.path? = none) ∨
    ∃ f : List Fragment → Fragment, w = (pieces.mapM id).map f

theorem readsAll_error {pieces : List Written} {e : QueryError} (h : e.path? = none) :
    ReadsAll pieces (.error e) := .inl ⟨e, rfl, h⟩

theorem readsAll_one (w : Written) (f : Fragment → Fragment) : ReadsAll [w] (w.map f) := by
  refine .inr ⟨fun fs => f (fs.headD (atom "")), ?_⟩
  cases w <;> rfl

theorem readsAll_two (l r : Written) (f : Fragment → Fragment → Fragment) :
    ReadsAll [l, r] (do let a ← l; let b ← r; .ok (f a b)) := by
  refine .inr ⟨fun fs => f (fs.headD (atom "")) (fs.getLastD (atom "")), ?_⟩
  cases l with
  | error e => rfl
  | ok a => cases r <;> rfl

/-- An operator of one operand, and what it makes of the piece. -/
theorem readsAll_single {operator : Operator} {pieces : List Written} {make : Written → Written}
    {f : Fragment → Fragment} (h : ∀ w, make w = w.map f) :
    ReadsAll pieces (match pieces with
      | [piece] => make piece
      | _ => .error (.unsupportedOperator operator)) := by
  rcases pieces with _ | ⟨w, _ | ⟨_, _⟩⟩
  · exact readsAll_error rfl
  · show ReadsAll [w] (make w)
    rw [h]
    exact readsAll_one w f
  · exact readsAll_error rfl

theorem readsAll_composeBinary (operator : Operator) (pieces : List Written) :
    ReadsAll pieces (composeBinary operator pieces) := by
  rw [composeBinary.eq_def]
  split
  · next write l r _ => exact readsAll_two l r fun a b => atom (write a.reduce b.reduce)
  · exact readsAll_error rfl

theorem readsAll_composeJoint (operator : Operator) (j : Joint) (pieces : List Written) :
    ReadsAll pieces (composeJoint operator j pieces) := by
  rw [composeJoint.eq_def]
  split
  · next l r => exact readsAll_two l r (join j)
  · exact readsAll_error rfl

/-- The variable of a quantifier is written in any case, so it does not matter that it is passed
over. -/
theorem readsAll_composeQuantifier (operator : Operator) (word : String) (xs : List Operand) :
    ReadsAll (Operand.fragments xs)
      (composeQuantifier operator word xs (Operand.fragments xs)) := by
  by_cases hshape : ∃ x name y, xs = [x, .variable name, y]
  · obtain ⟨x, name, y, rfl⟩ := hshape
    have hpieces : Operand.fragments [x, .variable name, y] =
        [x.fragment, .ok (.atom name), y.fragment] := rfl
    rw [hpieces, composeQuantifier]
    refine .inr ⟨fun fs => .atom ((fs.headD (atom "")).reduce ++ "/" ++ word ++ "(" ++ name ++ ": " ++
      (fs.getLastD (atom "")).joined ++ ")"), ?_⟩
    cases x.fragment with
    | error e => rfl
    | ok a => cases y.fragment <;> rfl
  · rw [composeQuantifier.eq_def]
    split
    · exact absurd ⟨_, _, _, rfl⟩ hshape
    · exact readsAll_error rfl
    · exact readsAll_error rfl

/-- **What a node looks at.**  Its operator decides whether it is written at all, and if it is, then from
all of its operands, the left ones first. -/
theorem readsAll_compose (operator : Operator) (xs : List Operand) :
    ReadsAll (Operand.fragments xs) (compose operator xs (Operand.fragments xs)) := by
  have hsame : ∀ w : Written, w = w.map fun f => f := by
    intro w
    cases w <;> rfl
  rw [compose.eq_def]
  split
  · exact readsAll_single hsame
  · exact readsAll_single hsame
  · exact @readsAll_single _ _ (Except.map negate) _ fun _ => rfl
  · exact readsAll_composeJoint _ _ _
  · exact readsAll_composeJoint _ _ _
  · exact readsAll_composeQuantifier _ _ _
  · exact readsAll_composeQuantifier _ _ _
  · exact readsAll_composeBinary _ _

end Fragment

/-! ## Trees -/

theorem Literal.foresees (l : Literal) : Foresees (.ok ()) l.fragment := by
  rw [Literal.fragment]
  split
  · exact .of_done _
  · exact .of_other rfl

theorem Value.foresees (v : Value) : Foresees (.ok ()) v.fragment := by
  rw [Value.fragment]
  split
  · exact .of_done _
  · exact .of_other rfl

theorem Field.foresees (f : Field) : Foresees f.validate f.written :=
  Foresees.map ⟨fun _ h => h, fun _ h => h⟩ _

mutual

/-- **The check of a tree foresees its writing.** -/
theorem Expression.foresees (e : Expression) : Foresees e.validateFields e.fragment := by
  match e with
  | .node operator operands previous =>
    rw [Expression.validateFields, Expression.fragment]
    rcases Fragment.readsAll_compose operator operands with ⟨e, he, hpath⟩ | ⟨f, hf⟩
    · rw [he]
      exact .of_other hpath
    · rw [hf]
      exact (Operand.foresees_all operands).map f

theorem Operand.foresees (x : Operand) : Foresees x.validateFields x.fragment := by
  match x with
  | .literal l => exact l.foresees
  | .field f =>
    rw [Operand.validateFields, Operand.fragment]
    exact f.foresees.map _
  | .expression e =>
    rw [Operand.validateFields, Operand.fragment]
    split
    · exact .of_other rfl
    · exact e.foresees
  | .bare v => exact v.foresees
  | .list items =>
    rw [Operand.validateFields, Operand.fragment, Fragment.listing]
    exact (Operand.foresees_all items).map _
  | .variable name => exact .of_done _
  | .projection p => exact .of_other rfl

theorem Operand.foresees_all (xs : List Operand) :
    Foresees (Operand.validateAll xs) ((Operand.fragments xs).mapM id) := by
  match xs with
  | [] => exact .of_done _
  | x :: rest => exact x.foresees.cons (Operand.foresees_all rest)

end

/-! ## All paths of a tree -/

mutual

/-- The paths of a tree are checked one after the other, in reading order. -/
theorem Expression.validateFields_eq (e : Expression) (around : List String) :
    e.validateFields = checkEach Field.validate ((e.fields around).map Occurrence.field) := by
  match e with
  | .node operator operands previous => exact Operand.validateAll_eq operands around

theorem Operand.validateFields_eq (x : Operand) (around : List String) :
    x.validateFields = checkEach Field.validate ((x.fields around).map Occurrence.field) := by
  match x with
  | .field f =>
    rw [Operand.validateFields, Operand.fields_field, List.map_singleton, checkEach, checkEach]
    cases f.validate <;> rfl
  | .expression e =>
    rw [Operand.validateFields, Operand.fields_expression, e.validateFields_eq around]
  | .list items =>
    rw [Operand.validateFields, Operand.fields_list, Operand.validateAll_eq items around]
  | .literal _ | .bare _ | .variable _ | .projection _ => rfl

theorem Operand.validateAll_eq (xs : List Operand) (around : List String) :
    Operand.validateAll xs =
      checkEach Field.validate ((Operand.fieldsAll around xs).map Occurrence.field) := by
  match xs with
  | [] => rfl
  | x :: rest =>
    rw [Operand.validateAll, Operand.fieldsAll_cons, List.map_append, checkEach_append,
      x.validateFields_eq around, Operand.validateAll_eq rest (around ++ x.bound)]

end

namespace Query

/-- The URL of a query, told by its steps. -/
theorem url_eq_run (q : Query) :
    q.url = (Segments.run (Expression.steps q.head)).map fun d => d.segments.url q.service.endpoint := by
  rw [url, Service.url, Segments.ofChain_eq_run]
  cases Segments.run (Expression.steps q.head) <;> rfl

/-- A filter is refused for the first of its paths that names nothing. -/
theorem filterPredicate_eq_error {q : Query} {p : Predicate} {reason : QueryError} :
    q.filterPredicate p = .error reason ↔
      ∃ before o behind, p.expression.fields [] = before ++ o :: behind ∧
        (∀ b ∈ before, b.field.isValid = true) ∧ o.field.isValid = false ∧
          reason = .invalidFieldPath o.field.text := by
  rw [filterPredicate, map_eq_error, p.expression.validateFields_eq [], checkEach_eq_error]
  constructor
  · rintro ⟨before, f, behind, hsplit, hbefore, hf⟩
    obtain ⟨os, rest, hfields, rfl, hrest⟩ := List.map_eq_append_iff.1 hsplit
    obtain ⟨o, os', rfl, rfl, rfl⟩ := List.map_eq_cons_iff.1 hrest
    obtain ⟨hinvalid, rfl⟩ := Field.validate_eq_error.1 hf
    refine ⟨os, o, os', hfields, ?_, hinvalid, rfl⟩
    intro b hb
    exact Field.validate_eq_ok.1 (hbefore b.field (List.mem_map_of_mem hb))
  · rintro ⟨before, o, behind, hfields, hbefore, hinvalid, rfl⟩
    refine ⟨before.map Occurrence.field, o.field, behind.map Occurrence.field, by simp [hfields],
      ?_, Field.validate_eq_error.2 ⟨hinvalid, rfl⟩⟩
    intro f hf
    obtain ⟨b, hb, rfl⟩ := List.mem_map.1 hf
    exact Field.validate_eq_ok.2 (hbefore b hb)

/-- A filter whose paths are in order does not keep a query from being written for a path. -/
theorem url_of_filterPredicate {q r : Query} {p : Predicate} (h : q.filterPredicate p = .ok r)
    {path : String} (hr : r.url = .error (.invalidFieldPath path)) :
    q.url = .error (.invalidFieldPath path) := by
  obtain ⟨_, hvalid, rfl⟩ := map_eq_ok.1 h
  rw [url_eq_run] at hr
  have hrun := map_eq_error.1 hr
  rw [push, Expression.steps_node, Segments.run_append_singleton] at hrun
  rw [url_eq_run]
  cases hq : Segments.run (Expression.steps q.head) with
  | error e =>
    rw [hq] at hrun
    exact congrArg Except.error (Except.error.inj hrun)
  | ok d =>
    rw [hq] at hrun
    have hstep : p.expression.fragment.map d.addFilter = .error (.invalidFieldPath path) :=
      (d.step_filter p).symm.trans hrun
    rw [p.expression.foresees.path path (map_eq_error.1 hstep)] at hvalid
    cases hvalid

/-- **Paths are found out early.**  If writing a filter fails for a path, then checking it fails for the
same path, and if checking it fails, then so does writing it, whatever the filter is.

So a filter is refused when it goes into a query exactly if it has a path that names nothing, and the
first of these is reported, wherever in the filter it stands.  Once a filter is in a query, the query
never fails for a path that it would not have failed for without the filter; and a filter that can be
written is not refused. -/
theorem paths_of_filter (e : Expression) :
    (∀ path, e.filterText = .error (.invalidFieldPath path) →
      e.validateFields = .error (.invalidFieldPath path)) ∧
    (∀ reason, e.validateFields = .error reason → ∃ reason', e.filterText = .error reason') ∧
    ∀ (q : Query) (p : Predicate), p.expression = e →
      (∀ reason, q.filterPredicate p = .error reason ↔
        ∃ before o behind, e.fields [] = before ++ o :: behind ∧
          (∀ b ∈ before, b.field.isValid = true) ∧ o.field.isValid = false ∧
            reason = .invalidFieldPath o.field.text) ∧
      (∀ r, q.filterPredicate p = .ok r → ∀ path, r.url = .error (.invalidFieldPath path) →
        q.url = .error (.invalidFieldPath path)) ∧
      ∀ text, e.filterText = .ok text → ∃ r, q.filterPredicate p = .ok r := by
  have hforesees : Foresees e.validateFields e.filterText := by
    by_cases hlinked : e.isLinked = true
    · rw [Expression.filterText, Segments.ofChain_alone_predicate, Segments.Draft.predicate,
        if_pos hlinked]
      exact .of_other rfl
    · rw [Segments.filterText_of_unlinked (by simpa using hlinked)]
      exact e.foresees.map _
  refine ⟨hforesees.path, ?_, ?_⟩
  · intro reason hreason
    cases htext : e.filterText with
    | error reason' => exact ⟨reason', rfl⟩
    | ok text =>
      rw [hforesees.done text htext] at hreason
      cases hreason
  · rintro q p rfl
    refine ⟨fun reason => filterPredicate_eq_error, fun r hr path => url_of_filterPredicate hr, ?_⟩
    intro text htext
    exact ⟨_, map_eq_ok.2 ⟨(), hforesees.done text htext, rfl⟩⟩

end Query

end EntityQuery
