import EntityQuery.Proofs.Text.Encoding
import EntityQuery.Url.Path

/-!
# Paths as lists of parts

The path of a special URL is read in one pass over its characters.  Taken apart, these are two
steps: `pathParts` cuts a text at its slashes, and `settle` adds one part after another to the segments
that are there.  The first is about characters alone, the second about dots alone.

Two dots take the segment before them away.  As long as they find one that the same text has added,
what was there before is left as it is (`settle_append`).  Otherwise the text **climbs**, and takes
away a segment of what it was added to; where that was one segment only, nothing of it is left in the
result (`settle_of_climbs`).

A segment that has been read is written without anything that reading would change (`IsSegment`), and
so the text of a path is cut into its segments again (`pathParts_segmentsText`).
-/

set_option autoImplicit false

namespace EntityQuery.Url

variable {done segments parts : List (List Char)} {part segment cs : List Char}

/-! ## Cutting a text into parts -/

/-- Whether no path stands in front of the query and the fragment of a text. -/
def isPathless (cs : List Char) : Bool := cs.head?.all fun c => c == '?' || c == '#'

/-- What follows the path at the beginning of a text. -/
def afterPath (cs : List Char) : List Char := cs.dropWhile fun c => !(c == '?' || c == '#')

/-- The parts that slashes cut a path into, escaped; the first one begins with `part`, newest
character first. -/
def partsFrom : List Char → List Char → List (List Char)
  | part, [] => [part.reverse]
  | part, c :: r =>
    if c = '?' ∨ c = '#' then [part.reverse]
    else if endsSegment .special c then part.reverse :: partsFrom [] r
    else partsFrom ((Text.Percent.encodeChar keepsPath c).reverse ++ part) r

/-- The parts that slashes cut the path of a text into, escaped. -/
def pathParts (cs : List Char) : List (List Char) := partsFrom [] cs

theorem isPathless_cons {c : Char} {r : List Char} :
    isPathless (c :: r) = true ↔ c = '?' ∨ c = '#' := by
  simp [isPathless]

theorem afterPath_of_isPathless (h : isPathless cs = true) : afterPath cs = cs := by
  cases cs with
  | nil => rfl
  | cons c r => rcases isPathless_cons.1 h with rfl | rfl <;> rfl

theorem afterPath_cons (c : Char) (r : List Char) :
    afterPath (c :: r) = if c = '?' ∨ c = '#' then c :: r else afterPath r := by
  rw [afterPath, List.dropWhile_cons]
  by_cases h : c = '?' ∨ c = '#'
  · rw [if_pos h, if_neg (by rcases h with rfl | rfl <;> decide)]
  · rw [if_neg h, if_pos (by simpa using h)]
    rfl

theorem partsFrom_ne_nil (part cs : List Char) : partsFrom part cs ≠ [] := by
  induction cs generalizing part with
  | nil => exact List.cons_ne_nil _ _
  | cons c r ih =>
    rw [partsFrom]
    split
    · exact List.cons_ne_nil _ _
    · split
      · exact List.cons_ne_nil _ _
      · exact ih _

theorem partsFrom_of_isPathless (h : isPathless cs = true) (part : List Char) :
    partsFrom part cs = [part.reverse] := by
  cases cs with
  | nil => rfl
  | cons c r => rw [partsFrom, if_pos (isPathless_cons.1 h)]

/-! ## Adding parts to segments -/

/-- Adds parts to segments, one after another; the path ends with the last of them. -/
def settle : List (List Char) → List (List Char) → List (List Char)
  | done, [] => done
  | done, [part] => addSegment .special done part true
  | done, part :: next :: rest =>
    settle (addSegment .special done part false) (next :: rest)

/-- Whether two dots stand where there is no segment before them. -/
def climbs : List (List Char) → List (List Char) → Bool
  | _, [] => false
  | done, part :: rest =>
    (done.isEmpty && isDoubleDot part) || climbs (addSegment .special done part false) rest

theorem settle_cons (h : parts ≠ []) (done : List (List Char)) (part : List Char) :
    settle done (part :: parts) = settle (addSegment .special done part false) parts := by
  cases parts with
  | nil => exact absurd rfl h
  | cons next rest => rfl

/-- **Reading a path is cutting it into parts and adding these.** -/
theorem readSegments_eq (done : List (List Char)) (part cs : List Char) :
    readSegments .special done part cs = (settle done (partsFrom part cs), afterPath cs) := by
  induction cs generalizing done part with
  | nil => rfl
  | cons c r ih =>
    rw [readSegments, partsFrom, afterPath_cons]
    by_cases hend : c = '?' ∨ c = '#'
    · rw [if_pos hend, if_pos hend, if_pos hend]
      rfl
    · rw [if_neg hend, if_neg hend, if_neg hend]
      split
      · rw [ih, settle_cons (partsFrom_ne_nil _ _)]
      · exact ih _ _

theorem readPath_eq (done : List (List Char)) (cs : List Char) :
    readPath .special done cs = (settle done (pathParts cs), afterPath cs) :=
  readSegments_eq done [] cs

theorem writtenSegment_special (first : Bool) (cs : List Char) :
    writtenSegment .special first cs = cs := by
  unfold writtenSegment
  split
  · exact if_neg (by simp)
  · rfl

theorem dropSegment_append (h : done ≠ []) (base : List (List Char)) :
    dropSegment (base ++ done) = base ++ dropSegment done := by
  have hlast : (base ++ done).getLast? = done.getLast? := by
    rw [List.getLast?_append, List.getLast?_eq_some_getLast h, Option.some_or]
  rw [dropSegment, dropSegment, hlast, List.dropLast_append_of_ne_nil h]
  split <;> rfl

theorem addSegment_append (h : (done.isEmpty && isDoubleDot part) = false)
    (base : List (List Char)) (last : Bool) :
    addSegment .special (base ++ done) part last =
      base ++ addSegment .special done part last := by
  rw [addSegment, addSegment, writtenSegment_special, writtenSegment_special]
  by_cases hdouble : isDoubleDot part = true
  · have hne : done ≠ [] := by
      rintro rfl
      rw [hdouble] at h
      cases h
    rw [if_pos hdouble, if_pos hdouble, dropSegment_append hne]
    cases last with
    | true => exact List.append_assoc ..
    | false => rfl
  · rw [if_neg hdouble, if_neg hdouble]
    split
    · cases last with
      | true => exact List.append_assoc ..
      | false => rfl
    · exact List.append_assoc ..

/-- **What does not climb leaves alone what it is added to.** -/
theorem settle_append (h : climbs done parts = false) (base : List (List Char)) :
    settle (base ++ done) parts = base ++ settle done parts := by
  induction parts generalizing done with
  | nil => rfl
  | cons part rest ih =>
    rw [climbs, Bool.or_eq_false_iff] at h
    cases rest with
    | nil => exact addSegment_append h.1 base true
    | cons next more => rw [settle, settle, addSegment_append h.1, ih h.2]

/-- **What climbs leaves nothing of a single segment that it is added to.** -/
theorem settle_of_climbs (h : climbs done parts = true) (hsegment : isDrive segment = false) :
    settle (segment :: done) parts = settle done parts := by
  have hdrop : dropSegment [segment] = [] := by
    rw [dropSegment, List.getLast?_singleton, Option.any_some, hsegment]
    rfl
  induction parts generalizing done with
  | nil => cases h
  | cons part rest ih =>
    by_cases hhere : (done.isEmpty && isDoubleDot part) = true
    · obtain ⟨hdone, hdouble⟩ := Bool.and_eq_true_iff.1 hhere
      obtain rfl := List.isEmpty_iff.1 hdone
      have hadd (last : Bool) :
          addSegment .special [segment] part last = addSegment .special [] part last := by
        rw [addSegment, addSegment, if_pos hdouble, if_pos hdouble, hdrop]
        rfl
      cases rest with
      | nil => exact hadd true
      | cons next more => rw [settle, settle, hadd]
    · rw [Bool.not_eq_true] at hhere
      rw [climbs, hhere, Bool.false_or] at h
      cases rest with
      | nil => cases h
      | cons next more =>
        rw [settle, settle, ← List.singleton_append, addSegment_append hhere]
        exact ih h

theorem addSegment_true_ne_nil (done : List (List Char)) (part : List Char) :
    addSegment .special done part true ≠ [] := by
  rw [addSegment]
  split
  · exact List.append_ne_nil_of_right_ne_nil _ (List.cons_ne_nil _ _)
  · split
    · exact List.append_ne_nil_of_right_ne_nil _ (List.cons_ne_nil _ _)
    · exact List.append_ne_nil_of_right_ne_nil _ (List.cons_ne_nil _ _)

/-- A path that has been read has a segment. -/
theorem settle_ne_nil (h : parts ≠ []) (done : List (List Char)) : settle done parts ≠ [] := by
  induction parts generalizing done with
  | nil => exact absurd rfl h
  | cons part rest ih =>
    cases rest with
    | nil => exact addSegment_true_ne_nil done part
    | cons next more => exact ih (List.cons_ne_nil _ _) _

/-! ## Segments as they are written -/

/-- A character that stands in a segment as it is. -/
def IsSegmentChar (c : Char) : Prop :=
  c.toNat < 128 ∧ keepsPath c = true ∧ endsSegment .special c = false

instance (c : Char) : Decidable (IsSegmentChar c) := inferInstanceAs (Decidable (_ ∧ _))

theorem IsSegmentChar.not_mark {c : Char} (h : IsSegmentChar c) : ¬(c = '?' ∨ c = '#') := by
  rintro (rfl | rfl) <;> exact absurd h.2.1 (by decide)

/-- What is read as a segment just as it is. -/
structure IsSegment (cs : List Char) : Prop where
  chars : ∀ c ∈ cs, IsSegmentChar c
  isDot_eq : isDot cs = false
  isDoubleDot_eq : isDoubleDot cs = false

theorem isSegment_nil : IsSegment [] := ⟨nofun, by decide, by decide⟩

theorem isSegmentChar_of_mem_encodeChar {c d : Char} (hc : endsSegment .special c = false)
    (h : d ∈ Text.Percent.encodeChar keepsPath c) : IsSegmentChar d := by
  have hescapes : ("%0123456789ABCDEF".toList.all fun d => IsSegmentChar d) = true := by decide
  rcases Text.Percent.mem_encodeChar h with hd | ⟨rfl, hlt, hkeeps⟩
  · exact of_decide_eq_true (List.all_eq_true.1 hescapes d hd)
  · exact ⟨hlt, hkeeps, hc⟩

theorem isSegmentChar_of_mem_partsFrom (hpart : ∀ c ∈ part, IsSegmentChar c)
    (h : segment ∈ partsFrom part cs) : ∀ c ∈ segment, IsSegmentChar c := by
  induction cs generalizing part with
  | nil =>
    obtain rfl := List.mem_singleton.1 h
    exact fun c hc => hpart c (List.mem_reverse.1 hc)
  | cons c r ih =>
    rw [partsFrom] at h
    split at h
    · obtain rfl := List.mem_singleton.1 h
      exact fun c hc => hpart c (List.mem_reverse.1 hc)
    · split at h
      · rcases List.mem_cons.1 h with rfl | h
        · exact fun c hc => hpart c (List.mem_reverse.1 hc)
        · exact ih (List.forall_mem_nil _) h
      · next hends =>
        rw [Bool.not_eq_true] at hends
        refine ih (fun d hd => ?_) h
        rcases List.mem_append.1 hd with hd | hd
        · exact isSegmentChar_of_mem_encodeChar hends (List.mem_reverse.1 hd)
        · exact hpart d hd

theorem mem_of_mem_dropSegment (h : segment ∈ dropSegment done) : segment ∈ done := by
  rw [dropSegment] at h
  split at h
  · exact h
  · exact List.dropLast_subset _ h

theorem mem_addSegment {last : Bool} (h : segment ∈ addSegment .special done part last) :
    segment ∈ done ∨ segment = [] ∨
      segment = part ∧ isDot segment = false ∧ isDoubleDot segment = false := by
  rw [addSegment, writtenSegment_special] at h
  split at h
  · dsimp only at h
    split at h
    · rcases List.mem_append.1 h with h | h
      · exact .inl (mem_of_mem_dropSegment h)
      · exact .inr (.inl (List.mem_singleton.1 h))
    · exact .inl (mem_of_mem_dropSegment h)
  · next hdouble =>
    split at h
    · split at h
      · rcases List.mem_append.1 h with h | h
        · exact .inl h
        · exact .inr (.inl (List.mem_singleton.1 h))
      · exact .inl h
    · next hdot =>
      rcases List.mem_append.1 h with h | h
      · exact .inl h
      · obtain rfl := List.mem_singleton.1 h
        exact .inr (.inr ⟨rfl, Bool.eq_false_iff.2 hdot, Bool.eq_false_iff.2 hdouble⟩)

/-- **Every segment that has been read is a segment as it is written.** -/
theorem isSegment_of_mem_settle (hdone : ∀ s ∈ done, IsSegment s)
    (hparts : ∀ p ∈ parts, ∀ c ∈ p, IsSegmentChar c) (h : segment ∈ settle done parts) :
    IsSegment segment := by
  have hadd {done : List (List Char)} {part : List Char} {last : Bool}
      (hdone : ∀ s ∈ done, IsSegment s) (hpart : ∀ c ∈ part, IsSegmentChar c) :
      ∀ s ∈ addSegment .special done part last, IsSegment s := by
    intro s hs
    rcases mem_addSegment hs with hs | rfl | ⟨rfl, hdot, hdouble⟩
    · exact hdone s hs
    · exact isSegment_nil
    · exact ⟨hpart, hdot, hdouble⟩
  induction parts generalizing done with
  | nil => exact hdone segment h
  | cons part rest ih =>
    obtain ⟨hpart, hrest⟩ := List.forall_mem_cons.1 hparts
    cases rest with
    | nil => exact hadd hdone hpart segment h
    | cons next more => exact ih (hadd hdone hpart) hrest h

/-! ## Reading a path again -/

theorem partsFrom_append (hsegment : ∀ c ∈ segment, IsSegmentChar c) (part r : List Char) :
    partsFrom part (segment ++ r) = partsFrom (segment.reverse ++ part) r := by
  induction segment generalizing part with
  | nil => rfl
  | cons c rest ih =>
    obtain ⟨hc, hrest⟩ := List.forall_mem_cons.1 hsegment
    rw [List.cons_append, partsFrom, if_neg hc.not_mark, hc.2.2, if_neg Bool.false_ne_true,
      Text.Percent.encodeChar_of_kept ⟨hc.1, hc.2.1⟩, ih hrest]
    simp only [List.reverse_cons, List.reverse_nil, List.nil_append, List.append_assoc]

theorem segmentsText_cons (segment : List Char) (segments : List (List Char)) (r : List Char) :
    segmentsText (segment :: segments) ++ r = '/' :: (segment ++ (segmentsText segments ++ r)) := by
  rw [segmentsText, List.flatMap_cons, List.append_assoc, List.cons_append]
  rfl

/-- The text of segments is cut into these segments again, whatever stands in front of the first
slash. -/
theorem partsFrom_segmentsText (hsegments : ∀ s ∈ segments, IsSegment s)
    (hcs : isPathless cs = true) (part : List Char) :
    partsFrom part (segmentsText segments ++ cs) = part.reverse :: segments := by
  induction segments generalizing part with
  | nil => exact partsFrom_of_isPathless hcs part
  | cons s rest ih =>
    obtain ⟨hs, hrest⟩ := List.forall_mem_cons.1 hsegments
    rw [segmentsText_cons, partsFrom, if_neg (by decide), if_pos (by decide),
      partsFrom_append hs.chars, ih hrest, List.append_nil, List.reverse_reverse]

theorem addSegment_of_isSegment (h : IsSegment part) (done : List (List Char)) (last : Bool) :
    addSegment .special done part last = done ++ [part] := by
  rw [addSegment, h.isDoubleDot_eq, h.isDot_eq, writtenSegment_special]
  rfl

theorem settle_of_isSegment (h : ∀ s ∈ parts, IsSegment s) (done : List (List Char)) :
    settle done parts = done ++ parts := by
  induction parts generalizing done with
  | nil => exact (List.append_nil done).symm
  | cons part rest ih =>
    obtain ⟨hpart, hrest⟩ := List.forall_mem_cons.1 h
    cases rest with
    | nil => exact addSegment_of_isSegment hpart done true
    | cons next more =>
      rw [settle, addSegment_of_isSegment hpart, ih hrest, List.append_assoc]
      rfl

theorem afterPath_append (hsegment : ∀ c ∈ segment, IsSegmentChar c) (r : List Char) :
    afterPath (segment ++ r) = afterPath r := by
  induction segment with
  | nil => rfl
  | cons c rest ih =>
    obtain ⟨hc, hrest⟩ := List.forall_mem_cons.1 hsegment
    rw [List.cons_append, afterPath_cons, if_neg hc.not_mark]
    exact ih hrest

theorem afterPath_segmentsText (hsegments : ∀ s ∈ segments, IsSegment s) (r : List Char) :
    afterPath (segmentsText segments ++ r) = afterPath r := by
  induction segments with
  | nil => rfl
  | cons s rest ih =>
    obtain ⟨hs, hrest⟩ := List.forall_mem_cons.1 hsegments
    rw [segmentsText_cons, afterPath_cons, if_neg (by decide)]
    exact (afterPath_append hs.chars _).trans (ih hrest)

/-- **The text of a path is cut into its segments.** -/
theorem pathParts_segmentsText (hsegment : IsSegment segment)
    (hsegments : ∀ s ∈ segments, IsSegment s) (hcs : isPathless cs = true) :
    pathParts (segment ++ (segmentsText segments ++ cs)) = segment :: segments := by
  rw [pathParts, partsFrom_append hsegment.chars, partsFrom_segmentsText hsegments hcs,
    List.append_nil, List.reverse_reverse]

/-- What follows the text of a path is what follows the path. -/
theorem afterPath_append_segmentsText (hsegment : IsSegment segment)
    (hsegments : ∀ s ∈ segments, IsSegment s) (hcs : isPathless cs = true) :
    afterPath (segment ++ (segmentsText segments ++ cs)) = cs := by
  rw [afterPath_append hsegment.chars, afterPath_segmentsText hsegments,
    afterPath_of_isPathless hcs]

end EntityQuery.Url
