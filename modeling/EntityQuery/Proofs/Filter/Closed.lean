import EntityQuery.Proofs.Filter.Token

/-!
# Cutting a text outside of parentheses

A filter is put together from texts with separators between them, spaces or commas.  The same
separators may stand inside of these texts, but there they are in parentheses.  So a text can be cut
where it was put together, by counting parentheses (`Filter.cutOutside`), and nothing of how it was
put together is lost (`Filter.intercalate_injective`).

`Filter.IsClosed` says of a text that it may be put between separators: its parentheses match, and
outside of them it has none of the separators itself.
-/

set_option autoImplicit false

namespace EntityQuery.Filter

/-- A text in which parentheses match, and that has none of the separators outside of them. -/
inductive IsClosed : List Char → List Char → Prop
  | nil {seps : List Char} : IsClosed seps []
  | char {seps : List Char} {c : Char} (hopening : c ≠ '(') (hclosing : c ≠ ')') (hsep : c ∉ seps) :
      IsClosed seps [c]
  | append {seps s t : List Char} (hs : IsClosed seps s) (ht : IsClosed seps t) :
      IsClosed seps (s ++ t)
  | group {seps s : List Char} (h : IsClosed [] s) : IsClosed seps ('(' :: (s ++ [')']))

namespace IsClosed

variable {seps s t : List Char}

/-- With fewer separators more is closed. -/
theorem mono {fewer : List Char} (h : IsClosed seps s) (hseps : fewer ⊆ seps) :
    IsClosed fewer s := by
  induction h with
  | nil => exact .nil
  | char hopening hclosing hsep => exact .char hopening hclosing fun hmem => hsep (hseps hmem)
  | append _ _ ihs iht => exact .append (ihs hseps) (iht hseps)
  | group h _ => exact .group h

theorem cons {c : Char} (hopening : c ≠ '(') (hclosing : c ≠ ')') (hsep : c ∉ seps)
    (h : IsClosed seps s) : IsClosed seps (c :: s) := .append (.char hopening hclosing hsep) h

/-- Without parentheses and separators there is nothing to close. -/
theorem of_forall (h : ∀ c ∈ s, c ≠ '(' ∧ c ≠ ')' ∧ c ∉ seps) : IsClosed seps s := by
  induction s with
  | nil => exact .nil
  | cons c rest ih =>
    rw [List.forall_mem_cons] at h
    exact .cons h.1.1 h.1.2.1 h.1.2.2 (ih h.2)

/-- Words hold neither. -/
theorem of_word (h : s.all isWordChar = true) : IsClosed [' ', ','] s := by
  refine of_forall fun c hc => ?_
  have hword := List.all_eq_true.1 h c hc
  have hne (d : Char) (hd : isWordChar d = false) : c ≠ d := by
    rintro rfl
    rw [hword] at hd
    cases hd
  refine ⟨hne '(' (by decide), hne ')' (by decide), ?_⟩
  simp [hne ' ' (by decide), hne ',' (by decide)]

/-- Closed texts with another separator between them. -/
theorem intercalate {sep : Char} (hopening : sep ≠ '(') (hclosing : sep ≠ ')') (hsep : sep ∉ seps)
    {texts : List (List Char)} (h : ∀ text ∈ texts, IsClosed seps text) :
    IsClosed seps ([sep].intercalate texts) := by
  induction texts with
  | nil => exact .nil
  | cons text rest ih =>
    rw [List.forall_mem_cons] at h
    cases rest with
    | nil => simpa using h.1
    | cons next rest =>
      rw [List.intercalate_cons_cons]
      exact (h.1.append (.char hopening hclosing hsep)).append (ih h.2)

end IsClosed

/-- The number of parentheses that are open behind a character. -/
def depthBehind (c : Char) (depth : Nat) : Nat :=
  if c = '(' then depth + 1 else if c = ')' then depth - 1 else depth

/-- A text up to its first separator that stands outside of parentheses, and what is behind that, if
there is one.  So many parentheses are open before it. -/
def cutOutside (sep : Char) : Nat → List Char → List Char × Option (List Char)
  | _, [] => ([], none)
  | depth, c :: rest =>
    if depth = 0 ∧ c = sep then ([], some rest)
    else
      let later := cutOutside sep (depthBehind c depth) rest
      (c :: later.1, later.2)

theorem cutOutside_cons_of_ne {sep c : Char} {depth : Nat} (h : ¬ (depth = 0 ∧ c = sep))
    (rest : List Char) : cutOutside sep depth (c :: rest) =
      (c :: (cutOutside sep (depthBehind c depth) rest).1,
        (cutOutside sep (depthBehind c depth) rest).2) := by
  rw [cutOutside, if_neg h]

/-- **Nothing is cut in a closed text**, nor in any whose parentheses match if some are open around
it. -/
theorem IsClosed.cutOutside_append {seps s : List Char} (h : IsClosed seps s) {sep : Char}
    (hopening : sep ≠ '(') {depth : Nat} (hsep : depth = 0 → sep ∈ seps) (rest : List Char) :
    cutOutside sep depth (s ++ rest) =
      (s ++ (cutOutside sep depth rest).1, (cutOutside sep depth rest).2) := by
  induction h generalizing depth rest with
  | nil => rfl
  | @char seps c hc hc' hnot =>
    have hcut : ¬ (depth = 0 ∧ c = sep) := by
      rintro ⟨hdepth, rfl⟩
      exact hnot (hsep hdepth)
    have hdepth : depthBehind c depth = depth := by rw [depthBehind, if_neg hc, if_neg hc']
    rw [List.singleton_append, cutOutside_cons_of_ne hcut, hdepth]
    rfl
  | append _ _ ihs iht =>
    rw [List.append_assoc, ihs hsep, iht hsep, List.append_assoc]
  | @group seps s _ ih =>
    have hfirst : ¬ (depth = 0 ∧ '(' = sep) := fun hcut => hopening hcut.2.symm
    have hlast : ¬ (depth + 1 = 0 ∧ ')' = sep) := fun hcut => Nat.succ_ne_zero depth hcut.1
    have hdeeper : depthBehind '(' depth = depth + 1 := rfl
    have hback : depthBehind ')' (depth + 1) = depth := rfl
    rw [List.cons_append, List.append_assoc, cutOutside_cons_of_ne hfirst, hdeeper,
      ih (fun hzero => absurd hzero (Nat.succ_ne_zero depth)), List.singleton_append,
      cutOutside_cons_of_ne hlast, hback]
    simp

section Cut

variable {sep : Char} {seps : List Char} (hopening : sep ≠ '(') (hmem : sep ∈ seps)

include hopening hmem

theorem IsClosed.cutOutside_eq {s : List Char} (h : IsClosed seps s) :
    cutOutside sep 0 s = (s, none) := by
  have hcut : cutOutside sep 0 (s ++ []) = (s ++ [], none) :=
    h.cutOutside_append hopening (fun _ => hmem) []
  rwa [List.append_nil] at hcut

/-- A closed text is cut off where it ends. -/
theorem IsClosed.cutOutside_sep {s : List Char} (h : IsClosed seps s) (rest : List Char) :
    cutOutside sep 0 (s ++ sep :: rest) = (s, some rest) := by
  rw [h.cutOutside_append hopening (fun _ => hmem), cutOutside, if_pos ⟨rfl, rfl⟩, List.append_nil]

/-- **Closed texts can be told apart when they are put together.** -/
theorem intercalate_injective {xs ys : List (List Char)} (hxs : ∀ x ∈ xs, IsClosed seps x)
    (hys : ∀ y ∈ ys, IsClosed seps y) (hx : xs ≠ []) (hy : ys ≠ [])
    (h : [sep].intercalate xs = [sep].intercalate ys) : xs = ys := by
  induction xs generalizing ys with
  | nil => exact absurd rfl hx
  | cons x xs ih =>
    obtain ⟨y, ys, rfl⟩ := List.exists_cons_of_ne_nil hy
    rw [List.forall_mem_cons] at hxs hys
    have hcut := congrArg (cutOutside sep 0) h
    rcases xs with - | ⟨x', xs⟩ <;> rcases ys with - | ⟨y', ys⟩
    · simpa using h
    · rw [List.intercalate_singleton, List.intercalate_cons_cons, List.append_assoc,
        List.singleton_append, hxs.1.cutOutside_eq hopening hmem,
        hys.1.cutOutside_sep hopening hmem] at hcut
      cases hcut
    · rw [List.intercalate_singleton, List.intercalate_cons_cons, List.append_assoc,
        List.singleton_append, hxs.1.cutOutside_sep hopening hmem,
        hys.1.cutOutside_eq hopening hmem] at hcut
      cases hcut
    · rw [List.intercalate_cons_cons, List.intercalate_cons_cons, List.append_assoc,
        List.append_assoc, List.singleton_append, List.singleton_append,
        hxs.1.cutOutside_sep hopening hmem, hys.1.cutOutside_sep hopening hmem] at hcut
      obtain ⟨rfl, hrest⟩ := Prod.mk.inj hcut
      rw [ih hxs.2 hys.2 (List.cons_ne_nil _ _) (List.cons_ne_nil _ _) (Option.some.inj hrest)]

end Cut

end EntityQuery.Filter
