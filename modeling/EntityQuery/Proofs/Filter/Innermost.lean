import EntityQuery.Proofs.Filter.Chunk

/-!
# The innermost reading of a text

Operands of comparisons are written without parentheses unless they are joined, so a text with
several signs stands for several trees: `a eq b eq c` is written for `(a eq b) eq c` as well as for
`a eq (b eq c)`, and `not a eq b` for the negation of a comparison as well as for a comparison with a
negation.

Among the trees of a text there is one in which every sign is as far inside as the text allows, and
equal joints lean to the left (`Filter.Reading.innermost`).  It is written like the tree it comes
from (`Filter.Reading.piece_innermost`), and nothing in it can go further inside
(`Filter.Reading.isInnermost_innermost`).
-/

set_option autoImplicit false

namespace EntityQuery

namespace Filter

/-! ## Behind an operand -/

/-- What makes a condition of the operand that it stands behind. -/
inductive Tail
  | sign (c : Comparison) (hc : c.isFunction = false) (right : Reading)
  | among (items : List String)

namespace Tail

/-- The condition on an operand. -/
def on : Tail → Reading → Reading
  | sign c _ right, r => .compare c r right
  | among items, r => .oneOf r items

/-- The same condition as far inside of a reading as its text allows: behind the last operand of a
comparison, and under a negation. -/
def within (t : Tail) : Reading → Reading
  | .compare c l r => if c.isFunction then t.on (.compare c l r) else .compare c l (t.within r)
  | .negate r => if r.joint? = none then .negate (t.within r) else t.on (.negate r)
  | r => t.on r

theorem within_compare_eq (t : Tail) (c : Comparison) (l r : Reading) :
    t.within (.compare c l r) =
      if c.isFunction then t.on (.compare c l r) else .compare c l (t.within r) := rfl

theorem within_negate_eq (t : Tail) (r : Reading) :
    t.within (.negate r) =
      if r.joint? = none then .negate (t.within r) else t.on (.negate r) := rfl

theorem within_compare (t : Tail) {c : Comparison} (hc : c.isFunction = false) (l r : Reading) :
    t.within (.compare c l r) = .compare c l (t.within r) := if_neg (by simp [hc])

theorem within_negate (t : Tail) {r : Reading} (hr : r.joint? = none) :
    t.within (.negate r) = .negate (t.within r) := if_pos hr

/-- How a condition is written behind its operand. -/
def text : Tail → String
  | sign c _ right => " " ++ c.word ++ " " ++ right.piece.reduce
  | among items => " in (" ++ ",".intercalate items ++ ")"

theorem piece_on (t : Tail) (r : Reading) : (t.on r).piece = .atom (r.piece.reduce ++ t.text) := by
  cases t with
  | sign c hc right =>
    rw [on, Reading.piece, Comparison.write, if_neg (by simp [hc]), text]
    simp only [String.append_assoc]
  | among items =>
    rw [on, Reading.piece, text]
    simp only [String.append_assoc]

/-- **How far inside a condition stands cannot be seen.** -/
theorem piece_within (t : Tail) (r : Reading) : (t.within r).piece = (t.on r).piece := by
  induction r with
  | compare c l r ihl ihr =>
    rw [within_compare_eq]
    split
    · rfl
    · next hc =>
      rw [piece_on, Reading.piece, Reading.piece, ihr, piece_on, Fragment.reduce_atom,
        Fragment.reduce_atom, Comparison.write, Comparison.write, if_neg hc, if_neg hc]
      simp only [String.append_assoc]
  | negate r ih =>
    rw [within_negate_eq]
    split
    · next hj =>
      have hr := r.joint_piece.trans hj
      have hnegate := r.isSound_piece.negate_of_none hr
      rw [Reading.piece, ih, piece_on, piece_on, Reading.piece, hnegate,
        (Fragment.isSound_atom _).negate_of_none rfl, Fragment.joined_atom, Fragment.reduce_atom,
        r.isSound_piece.reduce_of_none hr]
      simp only [String.append_assoc]
    · rfl
  | _ => rfl

end Tail

namespace Reading

/-- Nor can be seen how equal joints are bracketed. -/
theorem Regroups.piece_eq {r s : Reading} (h : r.Regroups s) : r.piece = s.piece := by
  induction h with
  | refl r => rfl
  | symm _ ih => exact ih.symm
  | trans _ _ ih ih' => exact ih.trans ih'
  | assoc j r s t => exact Fragment.join_join j r.piece s.piece t.piece
  | join j _ _ ihr ihs => rw [piece, piece, ihr, ihs]
  | negate _ ih => rw [piece, piece, ih]
  | quantify q c n _ ih => rw [piece, piece, ih]
  | compare c _ _ ihr ihs => rw [piece, piece, ihr, ihs]
  | oneOf _ items ih => rw [piece, piece, ih]

/-- The reading with the same text in which everything is as far inside as possible. -/
def innermost : Reading → Reading
  | operand text => operand text
  | compare c l r =>
    if hc : c.isFunction = false then (Tail.sign c hc r.innermost).within l.innermost
    else compare c l.innermost r.innermost
  | oneOf l items => (Tail.among items).within l.innermost
  | quantify q collection name body => quantify q collection name body.innermost
  | negate r => negate r.innermost
  | join j l r => attach j l.innermost r.innermost

theorem innermost_compare (c : Comparison) (l r : Reading) :
    (compare c l r).innermost =
      if hc : c.isFunction = false then (Tail.sign c hc r.innermost).within l.innermost
      else compare c l.innermost r.innermost := rfl

theorem piece_innermost (r : Reading) : r.innermost.piece = r.piece := by
  induction r with
  | operand text => rfl
  | compare c l r ihl ihr =>
    rw [innermost_compare]
    split
    · rw [Tail.piece_within, Tail.on, piece, piece, ihl, ihr]
    · rw [piece, piece, ihl, ihr]
  | oneOf l items ih => rw [innermost, Tail.piece_within, Tail.on, piece, piece, ih]
  | quantify q collection name body ih => rw [innermost, piece, piece, ih]
  | negate r ih => rw [innermost, piece, piece, ih]
  | join j l r ihl ihr => rw [innermost, (regroups_attach j _ _).piece_eq, piece, piece, ihl, ihr]

/-! ## What is innermost -/

/-- Whether a sign behind a reading can only belong to all of it. -/
def isTight : Reading → Bool
  | compare c _ _ => c.isFunction
  | negate r => r.joint? ≠ none
  | _ => true

/-- Nothing in a reading can go further inside. -/
def IsInnermost : Reading → Prop
  | operand _ => True
  | compare c l r => l.IsInnermost ∧ r.IsInnermost ∧ (c.isFunction = false → l.isTight = true)
  | oneOf l _ => l.IsInnermost ∧ l.isTight = true
  | quantify _ _ _ body => body.IsInnermost
  | negate r => r.IsInnermost
  | join j l r => l.IsInnermost ∧ r.IsInnermost ∧ r.joint? ≠ some j

end Reading

/-- A condition behind an innermost operand. -/
theorem Tail.isInnermost_within {t : Tail} (ht : ∀ r, (t.on r).IsInnermost ↔
    r.IsInnermost ∧ r.isTight = true) {r : Reading} (h : r.IsInnermost) :
    (t.within r).IsInnermost := by
  induction r with
  | compare c l r ihl ihr =>
    rw [within_compare_eq]
    split
    · next hc => exact (ht _).2 ⟨h, hc⟩
    · exact ⟨h.1, ihr h.2.1, h.2.2⟩
  | negate r ih =>
    rw [within_negate_eq]
    split
    · exact ih h
    · next hj => exact (ht _).2 ⟨h, by simpa [Reading.isTight] using hj⟩
  | _ => exact (ht _).2 ⟨h, rfl⟩

namespace Reading

theorem isInnermost_attach {j : Joint} {l r : Reading} (hl : l.IsInnermost) (hr : r.IsInnermost) :
    (attach j l r).IsInnermost := by
  induction r with
  | join k s t ihs iht =>
    by_cases hk : k = j
    · subst hk
      rw [attach_join]
      exact ⟨ihs hr.1, hr.2.1, hr.2.2⟩
    · have hne : (join k s t).joint? ≠ some j := fun h => hk (Option.some.inj h)
      rw [attach_of_joint?_ne _ hne]
      exact ⟨hl, hr, hne⟩
  | _ => exact ⟨hl, hr, nofun⟩

theorem isInnermost_innermost (r : Reading) : r.innermost.IsInnermost := by
  induction r with
  | operand text => trivial
  | compare c l r ihl ihr =>
    rw [innermost_compare]
    split
    · next hc =>
      refine Tail.isInnermost_within (fun s => ?_) ihl
      show s.IsInnermost ∧ _ ∧ _ ↔ _
      simp [ihr, hc]
    · next hc => exact ⟨ihl, ihr, fun h => absurd h hc⟩
  | oneOf l items ih => exact Tail.isInnermost_within (fun s => .rfl) ih
  | quantify q collection name body ih => exact ih
  | negate r ih => exact ih
  | join j l r ihl ihr => exact isInnermost_attach ihl ihr

/-- Its texts are those of the reading. -/
theorem Regroups.isMadeOf_iff {leaf collection name : String → Prop} {r s : Reading}
    (h : r.Regroups s) : r.IsMadeOf leaf collection name ↔ s.IsMadeOf leaf collection name := by
  induction h with
  | refl r => rfl
  | symm _ ih => exact ih.symm
  | trans _ _ ih ih' => exact ih.trans ih'
  | assoc j r s t => exact and_assoc
  | join j _ _ ihr ihs => exact and_congr ihr ihs
  | negate _ ih => exact ih
  | quantify q c n _ ih => exact and_congr_right' (and_congr_right' ih)
  | compare c _ _ ihr ihs => exact and_congr ihr ihs
  | oneOf _ items ih => exact and_congr_left' ih

end Reading

theorem Tail.isMadeOf_within {leaf collection name : String → Prop} (t : Tail) (r : Reading) :
    (t.within r).IsMadeOf leaf collection name ↔ (t.on r).IsMadeOf leaf collection name := by
  induction r with
  | compare c l r ihl ihr =>
    rw [within_compare_eq]
    split
    · rfl
    · cases t with
      | sign d hd right => exact (and_congr_right' ihr).trans and_assoc.symm
      | among items => exact (and_congr_right' ihr).trans and_assoc.symm
  | negate r ih =>
    rw [within_negate_eq]
    split
    · cases t with
      | sign d hd right => exact ih
      | among items => exact ih
    · rfl
  | _ => rfl

namespace Reading

theorem isMadeOf_innermost {leaf collection name : String → Prop} (r : Reading) :
    r.innermost.IsMadeOf leaf collection name ↔ r.IsMadeOf leaf collection name := by
  induction r with
  | operand text => rfl
  | compare c l r ihl ihr =>
    rw [innermost_compare]
    split
    · exact (Tail.isMadeOf_within _ _).trans (and_congr ihl ihr)
    · exact and_congr ihl ihr
  | oneOf l items ih => exact (Tail.isMadeOf_within _ _).trans (and_congr_left' ih)
  | quantify q collection name body ih => exact and_congr_right' (and_congr_right' ih)
  | negate r ih => exact ih
  | join j l r ihl ihr => exact (regroups_attach j _ _).isMadeOf_iff.trans (and_congr ihl ihr)

end Reading

end Filter

end EntityQuery
