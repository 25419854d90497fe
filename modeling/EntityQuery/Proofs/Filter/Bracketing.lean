import EntityQuery.Proofs.Chain.Conjunction
import EntityQuery.Proofs.Condition.Naming
import EntityQuery.Proofs.Filter.WellFormed

/-!
# Bracketings

Predicates that stand in a row may be joined two at a time, in any order that keeps the row.  Such a way
of doing it is a `Bracketing`, and `Predicate.allOf` and `Predicate.anyOf` are one of them, the one from
the left.  As long as it is one word that joins them all, nothing can be seen of the bracketing: the
trees differ, but they agree in what is checked and in what is written (`Bracketing.agree_fold`).

What is written is the row itself, the predicates with the word between them.  One that is joined by the
other word (`Expression.compound?`) is grouped, as long as there is anything to join it to: a row of one
is written as its only predicate is.
-/

set_option autoImplicit false

namespace EntityQuery

/-! ## Trees that are joined -/

mutual

/-- What joins the two sides of a tree, if anything does.  Nodes that only are around an operand do not
count. -/
def Expression.compound? : Expression → Option Joint
  | .node .and _ _ => some .and
  | .node .or _ _ => some .or
  | .node .literal operands _ => Operand.loneCompound? operands
  | .node .fieldReference operands _ => Operand.loneCompound? operands
  | .node _ _ _ => none

/-- What joins the two sides of an operand. -/
def Operand.compound? : Operand → Option Joint
  | .expression e => e.compound?
  | _ => none

/-- What joins the two sides of an operand that stands alone. -/
def Operand.loneCompound? : List Operand → Option Joint
  | [x] => x.compound?
  | _ => none

end

namespace Fragment

variable {pieces : List Written} {f : Fragment}

theorem joint_of_composeJoint {operator : Operator} {j : Joint}
    (h : composeJoint operator j pieces = .ok f) : f.joint = some j := by
  rw [composeJoint.eq_def] at h
  split at h
  · obtain ⟨l, _, h⟩ := bind_eq_ok.1 h
    obtain ⟨r, _, h⟩ := bind_eq_ok.1 h
    rw [← Except.ok.inj h]
    rfl
  · cases h

theorem joint_of_composeBinary {operator : Operator}
    (h : composeBinary operator pieces = .ok f) : f.joint = none := by
  obtain ⟨w, rfl⟩ := eq_atom_of_composeBinary h
  rfl

theorem joint_of_composeQuantifier {operator : Operator} {word : String} {xs : List Operand}
    (h : composeQuantifier operator word xs pieces = .ok f) : f.joint = none := by
  obtain ⟨w, rfl⟩ := eq_atom_of_composeQuantifier h
  rfl

theorem joint_negate (f : Fragment) : f.negate.joint = none := by
  rw [negate]
  split <;> rfl

end Fragment

theorem Literal.joint_of_fragment {l : Literal} {f : Fragment} (h : l.fragment = .ok f) :
    f.joint = none := by
  rw [Literal.fragment] at h
  split at h
  · rw [← Except.ok.inj h]
    rfl
  · cases h

theorem Value.joint_of_fragment {v : Value} {f : Fragment} (h : v.fragment = .ok f) :
    f.joint = none := by
  rw [Value.fragment] at h
  split at h
  · rw [← Except.ok.inj h]
    rfl
  · cases h

mutual

/-- **What joins a tree joins its words.** -/
theorem Expression.joint_of_fragment (e : Expression) {f : Fragment} (h : e.fragment = .ok f) :
    f.joint = e.compound? := by
  match e with
  | .node operator operands previous =>
    rw [Expression.fragment, Fragment.compose.eq_def] at h
    split at h
    · exact Operand.joint_of_fragments operands h
    · exact Operand.joint_of_fragments operands h
    · split at h
      · obtain ⟨g, _, rfl⟩ := map_eq_ok.1 h
        exact g.joint_negate
      · cases h
    · exact Fragment.joint_of_composeJoint h
    · exact Fragment.joint_of_composeJoint h
    · exact Fragment.joint_of_composeQuantifier h
    · exact Fragment.joint_of_composeQuantifier h
    · next h1 h2 h3 h4 h5 h6 h7 =>
      rw [Fragment.joint_of_composeBinary h, Expression.compound?]
      · exact h4
      · exact h5
      · exact h1
      · exact h2

theorem Operand.joint_of_fragment (x : Operand) {f : Fragment} (h : x.fragment = .ok f) :
    f.joint = x.compound? := by
  match x with
  | .expression e =>
    rw [Operand.fragment] at h
    split at h
    · cases h
    · exact Expression.joint_of_fragment e h
  | .literal l => exact Literal.joint_of_fragment h
  | .bare v => exact Value.joint_of_fragment h
  | .field p =>
    rw [Operand.fragment] at h
    obtain ⟨w, _, rfl⟩ := map_eq_ok.1 h
    rfl
  | .list items =>
    rw [Operand.fragment] at h
    obtain ⟨w, _, rfl⟩ := map_eq_ok.1 h
    rfl
  | .variable name =>
    rw [Operand.fragment] at h
    rw [← Except.ok.inj h]
    rfl
  | .projection p => cases h

theorem Operand.joint_of_fragments (xs : List Operand) {f : Fragment} {operator : Operator}
    (h : (match Operand.fragments xs with
      | [piece] => piece
      | _ => .error (.unsupportedOperator operator)) = .ok f) :
    f.joint = Operand.loneCompound? xs := by
  match xs with
  | [] => cases h
  | [x] => exact Operand.joint_of_fragment x h
  | _ :: _ :: _ => cases h

end

/-! ## Bracketings -/

/-- A word that joins conditions and is not this one. -/
def Joint.other : Joint → Joint
  | .and => .or
  | .or => .and

/-- All of several predicates, or any of them. -/
def Joint.overall : Joint → List Predicate → Except QueryError Predicate
  | .and => Predicate.allOf
  | .or => Predicate.anyOf

theorem Joint.overall_eq (j : Joint) : j.overall = Predicate.fold j := by
  cases j <;> rfl

/-- A way of joining predicates that stand in a row, two at a time. -/
inductive Bracketing
  | leaf (p : Predicate)
  | pair (left right : Bracketing)

namespace Bracketing

/-- The predicates in the row. -/
def leaves : Bracketing → List Predicate
  | leaf p => [p]
  | pair left right => left.leaves ++ right.leaves

/-- The predicate that comes of it. -/
def predicate (j : Joint) : Bracketing → Predicate
  | leaf p => p
  | pair left right => .join j (left.predicate j) (right.predicate j)

/-- Joining a row is joining its first predicate to the others. -/
theorem agree_foldl_join (j : Joint) (p q : Predicate) (rest : List Predicate) :
    (Predicate.join j p (rest.foldl (.join j) q)).Agree (rest.foldl (.join j) (.join j p q)) := by
  induction rest generalizing q with
  | nil => exact .refl _
  | cons r rest ih =>
    rw [List.foldl_cons, List.foldl_cons]
    have hassoc : (Predicate.join j p (.join j q r)).Agree (.join j (.join j p q) r) :=
      (Predicate.agree_join_join j p q r).symm
    exact (ih (.join j q r)).trans
      (Predicate.agree_foldl j hassoc (List.forall₂_same.2 fun _ _ => .refl _))

/-- **The bracketing does not matter.**  Every one agrees with the one from the left. -/
theorem agree_fold (j : Joint) (b : Bracketing) :
    ∃ p rest, b.leaves = p :: rest ∧ (b.predicate j).Agree (rest.foldl (.join j) p) := by
  induction b with
  | leaf p => exact ⟨p, [], rfl, .refl _⟩
  | pair left right ihl ihr =>
    obtain ⟨p, ps, hps, hp⟩ := ihl
    obtain ⟨q, qs, hqs, hq⟩ := ihr
    refine ⟨p, ps ++ q :: qs, by rw [leaves, hps, hqs, List.cons_append], ?_⟩
    have hjoin := Predicate.agree_join j hp hq
    rw [List.foldl_append, List.foldl_cons]
    exact hjoin.trans (agree_foldl_join j _ q qs)

end Bracketing

/-! ## The text of a row -/

/-- The text of a predicate that is joined to others: grouped, if another word joins its sides. -/
def Joint.groupedText (j : Joint) (p : Predicate) (text : String) : String :=
  if p.expression.compound? = some j.other then "(" ++ text ++ ")" else text

/-- The text of predicates in a row, given with their own texts.  One alone has nothing to be grouped
against. -/
def Joint.rowText (j : Joint) (ps : List Predicate) : List String → String
  | [text] => text
  | texts => (" " ++ j.keyword ++ " ").intercalate (List.zipWith j.groupedText ps texts)

theorem Predicate.filterText_eq_ok {p : Predicate} {text : String} :
    p.expression.filterText = .ok (some text) ↔
      ∃ f, p.expression.fragment = .ok f ∧ f.joined = text := by
  rw [Segments.filterText_of_unlinked p.isLinked_expression, map_eq_ok]
  simp

namespace Bracketing

/-- Predicates in a row and what they are written as. -/
abbrev AreWritten : List Predicate → List Fragment → Prop :=
  List.Forall₂ fun p f => p.expression.fragment = .ok f

theorem AreWritten.fragments {ps : List Predicate} {fs : List Fragment} (h : AreWritten ps fs) :
    Predicate.fragments ps = .ok fs := by
  induction h with
  | nil => rfl
  | cons hp _ ih =>
    rw [Predicate.fragments, List.mapM_cons, hp, ← Predicate.fragments, ih]
    rfl

theorem AreWritten.isSound {ps : List Predicate} {fs : List Fragment} (h : AreWritten ps fs) :
    ∀ f ∈ fs, f.IsSound := by
  induction h with
  | nil => exact nofun
  | cons hp _ ih => exact List.forall_mem_cons.2 ⟨Expression.isSound_of_fragment _ hp, ih⟩

/-- On one side of a joint stands the text of a predicate, grouped if it has to be. -/
theorem sideText_eq_groupedText {j : Joint} {p : Predicate} {f : Fragment}
    (hp : p.expression.fragment = .ok f) (hfree : p.expression.compound? ≠ some j) :
    f.sideText j = j.groupedText p f.joined := by
  have hsound := p.expression.isSound_of_fragment hp
  have hjoint := p.expression.joint_of_fragment hp
  rw [Fragment.sideText_eq, hjoint, if_neg hfree, Joint.groupedText]
  cases hc : p.expression.compound? with
  | none =>
    rw [if_neg (Option.some_ne_none _).symm]
    exact hsound.reduce_of_none (hjoint.trans hc)
  | some k =>
    have hk : k = j.other := by
      rw [hc] at hfree
      cases j <;> cases k <;> simp_all [Joint.other]
    rw [if_pos (congrArg some hk)]
    exact hsound.reduce_of_some (hjoint.trans hc)

theorem AreWritten.map_sideText {j : Joint} {ps : List Predicate} {fs : List Fragment}
    (h : AreWritten ps fs) (hfree : ∀ p ∈ ps, p.expression.compound? ≠ some j) :
    fs.map (Fragment.sideText j) = List.zipWith j.groupedText ps (fs.map Fragment.joined) := by
  induction h with
  | nil => rfl
  | cons hp _ ih =>
    rw [List.forall_mem_cons] at hfree
    rw [List.map_cons, List.map_cons, List.zipWith_cons_cons, ih hfree.2,
      sideText_eq_groupedText hp hfree.1]

/-- The row from the left has the text of the row. -/
theorem AreWritten.joined_foldl {j : Joint} {p : Predicate} {rest : List Predicate} {f : Fragment}
    {fs : List Fragment} (h : AreWritten (p :: rest) (f :: fs))
    (hfree : ∀ q ∈ p :: rest, q.expression.compound? ≠ some j) :
    (fs.foldl (.join j) f).joined = j.rowText (p :: rest) ((f :: fs).map Fragment.joined) := by
  have hsound := List.forall_mem_cons.1 h.isSound
  have hsides := h.map_sideText hfree
  rw [hsound.1.joined_foldl j hsound.2, Joint.separator]
  cases fs with
  | nil =>
    rw [if_pos rfl]
    exact String.intercalate_singleton
  | cons g more =>
    rw [if_neg (List.cons_ne_nil _ _), ← List.map_cons, hsides]
    rfl

theorem exists_areWritten {ps : List Predicate} {texts : List String}
    (h : List.Forall₂ (fun p text => p.expression.filterText = .ok (some text)) ps texts) :
    ∃ fs, AreWritten ps fs ∧ fs.map Fragment.joined = texts := by
  induction h with
  | nil => exact ⟨[], .nil, rfl⟩
  | cons hp _ ih =>
    obtain ⟨fs, hfs, rfl⟩ := ih
    obtain ⟨f, hf, rfl⟩ := Predicate.filterText_eq_ok.1 hp
    exact ⟨f :: fs, .cons hf hfs, rfl⟩

/-- **A row of predicates is written without its bracketing.**  However predicates in a row are joined by
one word, the filter is that of all of them at once, in its text or in the error that it fails with,
and so is every query that is filtered by it.

If none of them is joined by that word itself, the text is the texts of the predicates with the word
between them, and those that are joined by the other word are grouped.  A row of one is written as its
predicate is. -/
theorem filterText_predicate (j : Joint) (b : Bracketing) :
    ∃ q, j.overall b.leaves = .ok q ∧
      (b.predicate j).expression.filterText = q.expression.filterText ∧
      (∀ query : Query, AgreeOn (fun q₁ q₂ => q₁.url = q₂.url)
        (query.filterPredicate (b.predicate j)) (query.filterPredicate q)) ∧
      ∀ texts,
        List.Forall₂ (fun p text => p.expression.filterText = .ok (some text)) b.leaves texts →
        (∀ p ∈ b.leaves, p.expression.compound? ≠ some j) →
        (b.predicate j).expression.filterText = .ok (some (j.rowText b.leaves texts)) := by
  obtain ⟨p, rest, hleaves, hagree⟩ := b.agree_fold j
  have hfragment : (b.predicate j).expression.fragment =
      (rest.foldl (.join j) p).expression.fragment := by
    have hoperand := hagree.fragment
    rw [Predicate.fragment_operand, Predicate.fragment_operand] at hoperand
    exact hoperand
  refine ⟨rest.foldl (.join j) p, ?_, ?_, fun query => query.agree_filterPredicate hagree, ?_⟩
  · rw [j.overall_eq, hleaves]
    rfl
  · rw [Segments.filterText_of_unlinked (Predicate.isLinked_expression _),
      Segments.filterText_of_unlinked (Predicate.isLinked_expression _), hfragment]
  · intro texts htexts hfree
    rw [hleaves] at htexts hfree ⊢
    obtain ⟨fs, hfs, rfl⟩ := exists_areWritten htexts
    obtain ⟨f, fs, hp, hrest, rfl⟩ := List.forall₂_cons_left_iff.1 hfs
    refine Predicate.filterText_eq_ok.2 ⟨fs.foldl (.join j) f, ?_, hfs.joined_foldl hfree⟩
    rw [hfragment, Predicate.fragment_foldl, hp, AreWritten.fragments hrest]
    rfl

/-- A comparison with a number. -/
def numbered (name : String) (n : Nat) : Predicate :=
  .compare .equals ⟨[name]⟩ (.literal (.ofValue (.number (.ofInt n))))

/-- Three predicates bracketed to the right.  The middle one is an alternative, and the last one is the
negation of a conjunction, which is not joined itself. -/
theorem filterText_predicate_mixed :
    (((pair (leaf (numbered "a" 1)) (pair (leaf (.join .or (numbered "b" 2) (numbered "c" 3)))
        (leaf (Predicate.join .and (numbered "d" 4) (numbered "e" 5)).negate))).predicate
          .and).expression.filterText =
      .ok (some "a eq 1 and (b eq 2 or c eq 3) and not(d eq 4 and e eq 5)")) ∧
    ∃ q, Predicate.allOf [numbered "a" 1, .join .or (numbered "b" 2) (numbered "c" 3),
        (Predicate.join .and (numbered "d" 4) (numbered "e" 5)).negate] = .ok q ∧
      q.expression.filterText =
        .ok (some "a eq 1 and (b eq 2 or c eq 3) and not(d eq 4 and e eq 5)") := by
  obtain ⟨q, hq, hsame, -, htext⟩ := filterText_predicate .and
    (pair (leaf (numbered "a" 1)) (pair (leaf (.join .or (numbered "b" 2) (numbered "c" 3)))
      (leaf (Predicate.join .and (numbered "d" 4) (numbered "e" 5)).negate)))
  have hrow := htext ["a eq 1", "b eq 2 or c eq 3", "not(d eq 4 and e eq 5)"]
    (.cons rfl (.cons rfl (.cons rfl .nil))) (by decide)
  exact ⟨hrow, q, hq, hsame.symm.trans hrow⟩

/-- **A predicate alone is not grouped**, although it is joined by the other word. -/
theorem not_grouped_of_leaf :
    Predicate.allOf [.join .or (numbered "a" 1) (numbered "b" 2)] =
      .ok ((leaf (.join .or (numbered "a" 1) (numbered "b" 2))).predicate .and) ∧
    (Predicate.join .or (numbered "a" 1) (numbered "b" 2)).expression.compound? =
      some Joint.and.other ∧
    (Predicate.join .or (numbered "a" 1) (numbered "b" 2)).expression.filterText =
      .ok (some "a eq 1 or b eq 2") ∧
    ((leaf (.join .or (numbered "a" 1) (numbered "b" 2))).predicate .and).expression.filterText ≠
      .ok (some "(a eq 1 or b eq 2)") := by
  refine ⟨rfl, rfl, rfl, ?_⟩
  intro h
  exact absurd (h : Except.ok (some "a eq 1 or b eq 2") = _) (by decide)

end Bracketing

end EntityQuery
