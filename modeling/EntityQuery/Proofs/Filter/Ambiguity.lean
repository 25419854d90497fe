import EntityQuery.Proofs.Filter.RoundTrip
import EntityQuery.Proofs.Filter.Uniqueness

/-!
# Which texts can be misread

Some readings are the only ones with their text, up to the bracketing of equal joints, and others are
not.  `Filter.Reading.isClear` tells them apart by looking at every sign and its operands.  In a clear
reading, what stands on the left of a sign does not end with an operand that the sign could be read
to belong to, what stands on the right of a comparison has no sign that could be read to take the
comparison for its left side, and no negation can be read to leave out a sign behind it.

* A clear reading is its own innermost reading (`Filter.Reading.regroups_innermost`), so every other
  reading of its text is the same (`Filter.Reading.regroups_of_joined_eq`).
* In a reading that is not clear, some sign may be taken further inside or further outside, and the
  text does not change (`Filter.Reading.Turns`).  The result is another reading, because the
  operands that signs and negations reach over become fewer or more (`Filter.Reading.reach`).

Together this makes being clear the same as being the only reading of a text
(`Filter.Reading.isClear_iff`).
-/

set_option autoImplicit false

namespace EntityQuery.Filter

namespace Reading

/-- Whether a reading has a sign that a negation before it can be read to leave out. -/
def isExposed : Reading → Bool
  | compare c l _ => !c.isFunction && l.joint? = none
  | oneOf l _ => l.joint? = none
  | _ => false

/-- Whether every sign and every negation of a reading can be read in one way only. -/
def isClear : Reading → Bool
  | operand _ => true
  | compare c l r => l.isClear && r.isClear && (c.isFunction || (l.isTight && !r.isSigned))
  | oneOf l _ => l.isClear && l.isTight
  | quantify _ _ _ body => body.isClear
  | negate r => r.isClear && !r.isExposed
  | join _ l r => l.isClear && r.isClear

/-! ## Bracketing does not matter -/

section Regroups

variable {r s : Reading} (h : r.Regroups s)

include h

theorem Regroups.joint?_eq : r.joint? = s.joint? := by
  rw [← joint_piece, ← joint_piece, h.piece_eq]

theorem Regroups.isTight_eq : r.isTight = s.isTight := by
  induction h with
  | symm _ ih => exact ih.symm
  | trans _ _ ih ih' => exact ih.trans ih'
  | negate h _ => rw [isTight, isTight, h.joint?_eq]
  | _ => rfl

theorem Regroups.isSigned_eq : r.isSigned = s.isSigned := by
  induction h with
  | symm _ ih => exact ih.symm
  | trans _ _ ih ih' => exact ih.trans ih'
  | _ => rfl

theorem Regroups.isExposed_eq : r.isExposed = s.isExposed := by
  induction h with
  | symm _ ih => exact ih.symm
  | trans _ _ ih ih' => exact ih.trans ih'
  | compare c h _ _ _ => rw [isExposed, isExposed, h.joint?_eq]
  | oneOf h items _ => rw [isExposed, isExposed, h.joint?_eq]
  | _ => rfl

theorem Regroups.isClear_eq : r.isClear = s.isClear := by
  induction h with
  | refl r => rfl
  | symm _ ih => exact ih.symm
  | trans _ _ ih ih' => exact ih.trans ih'
  | assoc j r s t => exact Bool.and_assoc _ _ _
  | join j _ _ ihr ihs => rw [isClear, isClear, ihr, ihs]
  | negate h ih => rw [isClear, isClear, ih, h.isExposed_eq]
  | quantify q c n _ ih => exact ih
  | compare c h k ihr ihs => rw [isClear, isClear, ihr, ihs, h.isTight_eq, k.isSigned_eq]
  | oneOf h items ih => rw [isClear, isClear, ih, h.isTight_eq]

end Regroups

end Reading

/-! ## Clear readings are innermost -/

namespace Tail

variable {t : Tail} {r : Reading}

/-- Behind what is tight, nothing goes further inside. -/
theorem within_of_isTight (h : r.isTight = true) : t.within r = t.on r := by
  cases r with
  | compare c l r => exact if_pos h
  | negate r => exact if_neg (by simpa [Reading.isTight] using h)
  | _ => rfl

theorem isSigned_on (t : Tail) (r : Reading) : (t.on r).isSigned = true := by
  cases t with
  | sign c hc right => simp [on, Reading.isSigned, hc]
  | among items => rfl

theorem isExposed_on (t : Tail) {r : Reading} (h : r.joint? = none) :
    (t.on r).isExposed = true := by
  cases t with
  | sign c hc right => simp [on, Reading.isExposed, hc, h]
  | among items => simp [on, Reading.isExposed, h]

/-- What went further inside is not clear. -/
theorem within_of_isClear (h : (t.within r).isClear = true) : t.within r = t.on r := by
  induction r with
  | compare c l r ihl ihr =>
    by_cases hc : c.isFunction = true
    · exact if_pos hc
    · rw [t.within_compare (by simpa using hc), Reading.isClear] at h
      simp only [hc, Bool.and_eq_true, Bool.or_eq_true, Bool.false_eq_true, false_or] at h
      rw [ihr h.1.2, isSigned_on] at h
      exact absurd h.2.2 Bool.false_ne_true
  | negate r ih =>
    by_cases hr : r.joint? = none
    · rw [t.within_negate hr, Reading.isClear, Bool.and_eq_true] at h
      rw [ih h.1, isExposed_on t hr] at h
      exact absurd h.2 Bool.false_ne_true
    · exact if_neg hr
  | _ => rfl

end Tail

namespace Reading

theorem regroups_innermost {r : Reading} (h : r.isClear = true ∨ r.innermost.isClear = true) :
    r.Regroups r.innermost := by
  induction r with
  | operand text => exact .refl _
  | compare c l r ihl ihr =>
    have hparts {l r : Reading} (h : (compare c l r).isClear = true) :
        l.isClear = true ∧ r.isClear = true ∧ (c.isFunction = false → l.isTight = true) := by
      simp only [isClear, Bool.and_eq_true, Bool.or_eq_true] at h
      exact ⟨h.1.1, h.1.2, fun hc => (h.2.resolve_left (by simp [hc])).1⟩
    by_cases hc : c.isFunction = false
    · have hinner : (compare c l r).innermost = (Tail.sign c hc r.innermost).within l.innermost :=
        dif_pos hc
      rw [hinner] at h ⊢
      -- Either way the sign has not moved.
      rcases h with h | h
      · obtain ⟨hl, hr, htight⟩ := hparts h
        have hl' := ihl (.inl hl)
        rw [Tail.within_of_isTight (hl'.isTight_eq ▸ htight hc)]
        exact .compare c hl' (ihr (.inl hr))
      · have hon := Tail.within_of_isClear h
        rw [hon] at h ⊢
        obtain ⟨hl, hr, -⟩ := hparts h
        exact .compare c (ihl (.inr hl)) (ihr (.inr hr))
    · have hinner : (compare c l r).innermost = compare c l.innermost r.innermost := dif_neg hc
      rw [hinner] at h ⊢
      rcases h with h | h
      · obtain ⟨hl, hr, -⟩ := hparts h
        exact .compare c (ihl (.inl hl)) (ihr (.inl hr))
      · obtain ⟨hl, hr, -⟩ := hparts h
        exact .compare c (ihl (.inr hl)) (ihr (.inr hr))
  | oneOf l items ih =>
    have hinner : (oneOf l items).innermost = (Tail.among items).within l.innermost := rfl
    rw [hinner] at h ⊢
    rcases h with h | h
    · rw [isClear, Bool.and_eq_true] at h
      have hl := ih (.inl h.1)
      rw [Tail.within_of_isTight (hl.isTight_eq ▸ h.2)]
      exact .oneOf hl items
    · have hon := Tail.within_of_isClear h
      rw [hon] at h ⊢
      exact .oneOf (ih (.inr (Bool.and_eq_true_iff.1 h).1)) items
  | quantify q collection name body ih => exact .quantify q collection name (ih h)
  | negate r ih =>
    refine .negate (ih ?_)
    exact h.imp (fun h => (Bool.and_eq_true_iff.1 h).1) fun h => (Bool.and_eq_true_iff.1 h).1
  | join j l r ihl ihr =>
    have hattach := regroups_attach j l.innermost r.innermost
    have hboth : (l.isClear = true ∨ l.innermost.isClear = true) ∧
        (r.isClear = true ∨ r.innermost.isClear = true) := by
      rcases h with h | h
      · exact (Bool.and_eq_true_iff.1 h).imp .inl .inl
      · rw [innermost, hattach.isClear_eq] at h
        exact (Bool.and_eq_true_iff.1 h).imp .inr .inr
    exact (Regroups.join j (ihl hboth.1) (ihr hboth.2)).trans hattach.symm

/-- **A clear reading is the only one of its text.** -/
theorem regroups_of_joined_eq {r s : Reading} (hr : r.IsWorded) (hs : s.IsWorded)
    (hclear : r.isClear = true) (h : r.piece.joined = s.piece.joined) : r.Regroups s := by
  have hinner := regroups_innermost (.inl hclear)
  have heq := innermost_eq_of_joined_eq hr hs h
  have hsclear : s.innermost.isClear = true := by rw [← heq, ← hinner.isClear_eq, hclear]
  exact (hinner.trans (heq ▸ .refl _)).trans (regroups_innermost (.inr hsclear)).symm

/-! ## Readings that are not clear can be turned -/

/-- A sign goes further inside: under a negation, or behind the right operand of a comparison. -/
inductive Turns : Reading → Reading → Prop
  | negation (t : Tail) {r : Reading} (hr : r.joint? = none) :
      Turns (.negate (t.on r)) (t.on (.negate r))
  | sign (t : Tail) {c : Comparison} (hc : c.isFunction = false) (l r : Reading) :
      Turns (t.on (.compare c l r)) (.compare c l (t.on r))
  | compareLeft (c : Comparison) {l l' : Reading} (h : Turns l l') (r : Reading) :
      Turns (.compare c l r) (.compare c l' r)
  | compareRight (c : Comparison) (l : Reading) {r r' : Reading} (h : Turns r r') :
      Turns (.compare c l r) (.compare c l r')
  | oneOf {l l' : Reading} (h : Turns l l') (items : List String) :
      Turns (.oneOf l items) (.oneOf l' items)
  | quantify (q : Quantifier) (collection name : String) {r r' : Reading} (h : Turns r r') :
      Turns (.quantify q collection name r) (.quantify q collection name r')
  | negate {r r' : Reading} (h : Turns r r') : Turns (.negate r) (.negate r')
  | joinLeft (j : Joint) {l l' : Reading} (h : Turns l l') (r : Reading) :
      Turns (.join j l r) (.join j l' r)
  | joinRight (j : Joint) (l : Reading) {r r' : Reading} (h : Turns r r') :
      Turns (.join j l r) (.join j l r')

end Reading

theorem Tail.piece_negate_on (t : Tail) {r : Reading} (hr : r.joint? = none) :
    (Reading.negate (t.on r)).piece = (t.on (.negate r)).piece := by
  rw [← t.piece_within (.negate r), t.within_negate hr, Reading.piece, Reading.piece,
    t.piece_within]

theorem Tail.piece_on_compare (t : Tail) {c : Comparison} (hc : c.isFunction = false)
    (l r : Reading) : (t.on (.compare c l r)).piece = (Reading.compare c l (t.on r)).piece := by
  rw [← t.piece_within (.compare c l r), t.within_compare hc, Reading.piece, Reading.piece,
    t.piece_within]

namespace Reading

theorem Turns.piece_eq {r s : Reading} (h : Turns r s) : r.piece = s.piece := by
  induction h with
  | negation t hr => exact t.piece_negate_on hr
  | sign t hc l r => exact t.piece_on_compare hc l r
  | compareLeft c _ r ih => rw [piece, piece, ih]
  | compareRight c l _ ih => rw [piece, piece, ih]
  | oneOf _ items ih => rw [piece, piece, ih]
  | quantify q collection name _ ih => rw [piece, piece, ih]
  | negate _ ih => rw [piece, piece, ih]
  | joinLeft j _ r ih => rw [piece, piece, ih]
  | joinRight j l _ ih => rw [piece, piece, ih]

theorem Turns.isMadeOf_iff {leaf collection name : String → Prop} {r s : Reading} (h : Turns r s) :
    r.IsMadeOf leaf collection name ↔ s.IsMadeOf leaf collection name := by
  induction h with
  | @negation t r hr =>
    refine Iff.trans ?_ (t.isMadeOf_within (.negate r))
    rw [t.within_negate hr]
    exact (t.isMadeOf_within r).symm
  | @sign t c hc l r =>
    refine (t.isMadeOf_within (.compare c l r)).symm.trans ?_
    rw [t.within_compare hc]
    exact and_congr_right' (t.isMadeOf_within r)
  | compareLeft c _ r ih => exact and_congr_left' ih
  | compareRight c l _ ih => exact and_congr_right' ih
  | oneOf _ items ih => exact and_congr_left' ih
  | quantify q collection name _ ih => exact and_congr_right' (and_congr_right' ih)
  | negate _ ih => exact ih
  | joinLeft j _ r ih => exact and_congr_left' ih
  | joinRight j l _ ih => exact and_congr_right' ih

/-- The number of nodes of a reading. -/
def size : Reading → Nat
  | operand _ => 1
  | compare _ l r => l.size + r.size + 1
  | oneOf l _ => l.size + 1
  | quantify _ _ _ body => body.size + 1
  | negate r => r.size + 1
  | join _ l r => l.size + r.size + 1

/-- How far the signs and the negations of a reading reach, in nodes: a sign over its left operand,
and a negation over its operand, counted twice. -/
def reach : Reading → Nat
  | operand _ => 0
  | compare c l r => l.reach + r.reach + if c.isFunction then 0 else l.size
  | oneOf l _ => l.reach + l.size
  | quantify _ _ _ body => body.reach
  | negate r => r.reach + 2 * r.size
  | join _ l r => l.reach + r.reach

theorem Regroups.size_eq {r s : Reading} (h : r.Regroups s) : r.size = s.size := by
  induction h with
  | refl r => rfl
  | symm _ ih => exact ih.symm
  | trans _ _ ih ih' => exact ih.trans ih'
  | assoc j r s t =>
    simp only [size]
    omega
  | join j _ _ ihr ihs => rw [size, size, ihr, ihs]
  | negate _ ih => rw [size, size, ih]
  | quantify q c n _ ih => rw [size, size, ih]
  | compare c _ _ ihr ihs => rw [size, size, ihr, ihs]
  | oneOf _ items ih => rw [size, size, ih]

theorem Regroups.reach_eq {r s : Reading} (h : r.Regroups s) : r.reach = s.reach := by
  induction h with
  | refl r => rfl
  | symm _ ih => exact ih.symm
  | trans _ _ ih ih' => exact ih.trans ih'
  | assoc j r s t => exact Nat.add_assoc _ _ _
  | join j _ _ ihr ihs => rw [reach, reach, ihr, ihs]
  | negate h ih => rw [reach, reach, ih, h.size_eq]
  | quantify q c n _ ih => exact ih
  | compare c h _ ihr ihs => rw [reach, reach, ihr, ihs, h.size_eq]
  | oneOf h items ih => rw [reach, reach, ih, h.size_eq]

theorem Turns.size_eq {r s : Reading} (h : Turns r s) : r.size = s.size := by
  induction h with
  | negation t hr =>
    cases t with
    | sign c hc right =>
      simp only [Tail.on, size]
      omega
    | among items => rfl
  | sign t hc l r =>
    cases t with
    | sign d hd right =>
      simp only [Tail.on, size]
      omega
    | among items => rfl
  | compareLeft c _ r ih => rw [size, size, ih]
  | compareRight c l _ ih => rw [size, size, ih]
  | oneOf _ items ih => rw [size, size, ih]
  | quantify q collection name _ ih => rw [size, size, ih]
  | negate _ ih => rw [size, size, ih]
  | joinLeft j _ r ih => rw [size, size, ih]
  | joinRight j l _ ih => rw [size, size, ih]

/-- **What is turned reaches less far.** -/
theorem Turns.reach_lt {r s : Reading} (h : Turns r s) : s.reach < r.reach := by
  induction h with
  | negation t hr =>
    cases t with
    | sign c hc right =>
      simp only [Tail.on, reach, size, hc, Bool.false_eq_true, if_false]
      omega
    | among items =>
      simp only [Tail.on, reach, size]
      omega
  | sign t hc l r =>
    cases t with
    | sign d hd right =>
      simp only [Tail.on, reach, size, hc, hd, Bool.false_eq_true, if_false]
      omega
    | among items =>
      simp only [Tail.on, reach, size, hc, Bool.false_eq_true, if_false]
      omega
  | compareLeft c h r ih =>
    simp only [reach, h.size_eq]
    omega
  | compareRight c l _ ih =>
    simp only [reach]
    omega
  | oneOf h items ih =>
    simp only [reach, h.size_eq]
    omega
  | quantify q collection name _ ih => exact ih
  | negate h ih =>
    simp only [reach, h.size_eq]
    omega
  | joinLeft j _ r ih =>
    simp only [reach]
    omega
  | joinRight j l _ ih =>
    simp only [reach]
    omega

/-- Behind what is not tight, a sign can be turned. -/
theorem exists_turns_of_not_isTight (t : Tail) {r : Reading} (h : r.isTight = false) :
    ∃ s, Turns (t.on r) s ∨ Turns s (t.on r) := by
  cases r with
  | compare c l r => exact ⟨_, .inl (.sign t h l r)⟩
  | negate r => exact ⟨_, .inr (.negation t (by simpa [isTight] using h))⟩
  | _ => cases h

theorem exists_on_of_isSigned {r : Reading} (h : r.isSigned = true) :
    ∃ (t : Tail) (s : Reading), r = t.on s := by
  cases r with
  | compare c l r => exact ⟨.sign c (by simpa [isSigned] using h) r, l, rfl⟩
  | oneOf l items => exact ⟨.among items, l, rfl⟩
  | _ => cases h

theorem exists_on_of_isExposed {r : Reading} (h : r.isExposed = true) :
    ∃ (t : Tail) (s : Reading), r = t.on s ∧ s.joint? = none := by
  cases r with
  | compare c l r =>
    simp only [isExposed, Bool.and_eq_true, Bool.not_eq_true', decide_eq_true_eq] at h
    exact ⟨.sign c h.1 r, l, rfl, h.2⟩
  | oneOf l items => exact ⟨.among items, l, rfl, by simpa [isExposed] using h⟩
  | _ => cases h

/-- What is turned inside of a reading turns the reading. -/
theorem exists_turns_imp {r : Reading} {f : Reading → Reading}
    (hf : ∀ {s s'}, Turns s s' → Turns (f s) (f s')) (h : ∃ s, Turns r s ∨ Turns s r) :
    ∃ s, Turns (f r) s ∨ Turns s (f r) := by
  obtain ⟨s, hs⟩ := h
  exact ⟨f s, hs.imp hf hf⟩

/-- **A reading that is not clear can be turned**, one way or the other. -/
theorem exists_turns {r : Reading} (h : r.isClear = false) : ∃ s, Turns r s ∨ Turns s r := by
  induction r with
  | operand text => cases h
  | compare c l r ihl ihr =>
    by_cases hl : l.isClear = false
    · exact exists_turns_imp (f := fun s => compare c s r) (.compareLeft c · r) (ihl hl)
    by_cases hr : r.isClear = false
    · exact exists_turns_imp (.compareRight c l) (ihr hr)
    simp only [Bool.not_eq_false] at hl hr
    simp only [isClear, hl, hr, Bool.true_and, Bool.or_eq_false_iff] at h
    obtain ⟨hc, hsides⟩ := h
    by_cases ht : l.isTight = false
    · exact exists_turns_of_not_isTight (.sign c hc r) ht
    · have hsigned : r.isSigned = true := by simpa [Bool.not_eq_false _ ▸ ht] using hsides
      obtain ⟨t, s, rfl⟩ := exists_on_of_isSigned hsigned
      exact ⟨_, .inr (.sign t hc l s)⟩
  | oneOf l items ih =>
    rw [isClear, Bool.and_eq_false_iff] at h
    rcases h with h | h
    · exact exists_turns_imp (.oneOf · items) (ih h)
    · exact exists_turns_of_not_isTight (.among items) h
  | quantify q collection name body ih =>
    exact exists_turns_imp (.quantify q collection name) (ih h)
  | negate r ih =>
    rw [isClear, Bool.and_eq_false_iff] at h
    rcases h with h | h
    · exact exists_turns_imp .negate (ih h)
    · obtain ⟨t, s, rfl, hs⟩ := exists_on_of_isExposed (by simpa using h)
      exact ⟨_, .inl (.negation t hs)⟩
  | join j l r ihl ihr =>
    rw [isClear, Bool.and_eq_false_iff] at h
    rcases h with h | h
    · exact exists_turns_imp (f := fun s => join j s r) (.joinLeft j · r) (ihl h)
    · exact exists_turns_imp (.joinRight j l) (ihr h)

/-- **Being clear is being the only reading of a text.**  The readings may be of any kinds of words,
as long as the one in question is of these kinds. -/
theorem isClear_iff {leaf collection name : String → Prop} (hleaf : ∀ t, leaf t → IsWord t)
    (hcollection : ∀ t, collection t → IsWord t) (hname : ∀ t, name t → IsWord t) {r : Reading}
    (hr : r.IsMadeOf leaf collection name) :
    (∀ s : Reading, s.IsMadeOf leaf collection name → s.piece.joined = r.piece.joined →
      r.Regroups s) ↔ r.isClear = true := by
  constructor
  · intro h
    by_cases hclear : r.isClear = true
    · exact hclear
    obtain ⟨s, hs⟩ := exists_turns (by simpa using hclear)
    rcases hs with hs | hs
    · have hregroups := h s (hs.isMadeOf_iff.1 hr) (congrArg Fragment.joined hs.piece_eq.symm)
      exact absurd hregroups.reach_eq (Nat.ne_of_gt hs.reach_lt)
    · have hregroups := h s (hs.isMadeOf_iff.2 hr) (congrArg Fragment.joined hs.piece_eq)
      exact absurd hregroups.reach_eq (Nat.ne_of_lt hs.reach_lt)
  · intro hclear s hs hjoined
    exact regroups_of_joined_eq (hr.mono hleaf hcollection hname)
      (hs.mono hleaf hcollection hname) hclear hjoined.symm

end Reading

end EntityQuery.Filter
