import EntityQuery.Proofs.Filter.Innermost

/-!
# What a text says about its reading

A text may stand for several readings, but only one of them is innermost, so two readings with the
same text have the same innermost reading (`Filter.Reading.innermost_eq_of_joined_eq`).

The chunks of an innermost reading show what is outermost in it (`Filter.shapeOf`), and where they
are to be cut: at the last joint, at the first sign, before the last list, or behind the first
negation.  A single chunk is a word, or a word before parentheses (`Filter.applied`), and what
stands in these is a text of its own.
-/

set_option autoImplicit false

namespace EntityQuery.Filter

/-! ## What chunks show -/

/-- Where two lists are cut at their first element of a kind, both parts are the same. -/
theorem append_cons_inj_of_first {α : Type} {p : α → Prop} {xs xs' ys ys' : List α} {b b' : α}
    (hxs : ∀ a ∈ xs, ¬ p a) (hxs' : ∀ a ∈ xs', ¬ p a) (hb : p b) (hb' : p b')
    (h : xs ++ b :: ys = xs' ++ b' :: ys') : xs = xs' ∧ b = b' ∧ ys = ys' := by
  induction xs generalizing xs' with
  | nil =>
    cases xs' with
    | nil =>
      obtain ⟨rfl, rfl⟩ := List.cons.inj h
      exact ⟨rfl, rfl, rfl⟩
    | cons a rest =>
      obtain ⟨rfl, -⟩ := List.cons.inj h
      exact absurd hb (hxs' _ List.mem_cons_self)
  | cons a rest ih =>
    rw [List.forall_mem_cons] at hxs
    cases xs' with
    | nil =>
      obtain ⟨rfl, -⟩ := List.cons.inj h
      exact absurd hb' hxs.1
    | cons a' rest' =>
      rw [List.forall_mem_cons] at hxs'
      obtain ⟨rfl, hrest⟩ := List.cons.inj h
      obtain ⟨rfl, hbb, hys⟩ := ih hxs.2 hxs'.2 hrest
      exact ⟨rfl, hbb, hys⟩

/-- The same at their last one. -/
theorem append_cons_inj_of_last {α : Type} {p : α → Prop} {xs xs' ys ys' : List α} {b b' : α}
    (hys : ∀ a ∈ ys, ¬ p a) (hys' : ∀ a ∈ ys', ¬ p a) (hb : p b) (hb' : p b')
    (h : xs ++ b :: ys = xs' ++ b' :: ys') : xs = xs' ∧ b = b' ∧ ys = ys' := by
  have hreverse := congrArg List.reverse h
  simp only [List.reverse_append, List.reverse_cons, List.append_assoc, List.singleton_append]
    at hreverse
  obtain ⟨hy, hbb, hx⟩ := append_cons_inj_of_first (by simpa using hys) (by simpa using hys') hb hb'
    hreverse
  exact ⟨List.reverse_inj.1 hx, hbb, List.reverse_inj.1 hy⟩

/-- What a word is put before, and the word. -/
theorem applied_injective {w w' s s' : String} (hw : w.toList.all isWordChar = true)
    (hw' : w'.toList.all isWordChar = true) (h : applied w s = applied w' s') :
    w = w' ∧ s = s' := by
  have hlist (w s : String) : (applied w s).toList = w.toList ++ '(' :: (s.toList ++ [')']) := by
    simp [applied]
  have hnot {w : String} (hw : w.toList.all isWordChar = true) : ∀ c ∈ w.toList, ¬ c = '(' := by
    rintro c hc rfl
    exact absurd (List.all_eq_true.1 hw _ hc) (by decide)
  have hlists := congrArg String.toList h
  rw [hlist, hlist] at hlists
  obtain ⟨hww, -, hss⟩ := append_cons_inj_of_first (hnot hw) (hnot hw') rfl rfl hlists
  exact ⟨String.toList_inj.1 hww, String.toList_inj.1 (List.append_cancel_right hss)⟩

namespace Chunk

def isJoint : Chunk → Bool
  | joint _ => true
  | _ => false

def isSign : Chunk → Bool
  | sign _ => true
  | _ => false

/-- Whether a chunk may belong to what stands before a sign. -/
def isFlat : Chunk → Bool
  | atom _ | among _ => true
  | _ => false

theorem not_isSign_of_isFlat {x : Chunk} (h : x.isFlat = true) : ¬ x.isSign = true := by
  cases x with
  | sign c => cases h
  | _ => exact Bool.false_ne_true

end Chunk

/-- The outermost of a reading, as far as its chunks show it. -/
inductive Shape
  | joined
  | negated
  | compared
  | listed
  | single
deriving DecidableEq

/-- Joints are further outside than negations, and these than signs. -/
def shapeOf (xs : List Chunk) : Shape :=
  if xs.any Chunk.isJoint then .joined
  else if xs.head? = some .negation then .negated
  else if xs.any Chunk.isSign then .compared
  else if 1 < xs.length then .listed
  else .single

namespace Reading

def shape : Reading → Shape
  | compare c _ _ => if c.isFunction then .single else .compared
  | oneOf _ _ => .listed
  | negate r => if r.joint? = none then .negated else .single
  | join _ _ _ => .joined
  | _ => .single

theorem shape_compare (c : Comparison) (l r : Reading) :
    (compare c l r).shape = if c.isFunction then .single else .compared := rfl

theorem shape_negate (r : Reading) :
    (negate r).shape = if r.joint? = none then .negated else .single := rfl

/-- What a reading of a shape is put together from. -/
def Describes (r : Reading) : Shape → Prop
  | .joined => ∃ j l s, r = join j l s
  | .negated => ∃ s, r = negate s ∧ s.joint? = none
  | .compared => ∃ c l s, r = compare c l s ∧ c.isFunction = false
  | .listed => ∃ l items, r = oneOf l items
  | .single => True

theorem describes_shape (r : Reading) : Describes r r.shape := by
  cases r with
  | compare c l s =>
    rw [shape_compare]
    split
    · trivial
    · next hc => exact ⟨c, l, s, rfl, by simpa using hc⟩
  | oneOf l items => exact ⟨l, items, rfl⟩
  | negate s =>
    rw [shape_negate]
    split
    · next hj => exact ⟨s, rfl, hj⟩
    · trivial
  | join j l s => exact ⟨j, l, s, rfl⟩
  | _ => trivial

theorem describes_of_shape_eq {r : Reading} {k : Shape} (h : r.shape = k) : Describes r k :=
  h ▸ describes_shape r

/-- A grouped reading shows no joints. -/
theorem isJoint_of_mem_grouped {r : Reading}
    (h : r.joint? = none → ∀ x ∈ r.chunks, x.isJoint = false) :
    ∀ x ∈ groupedChunks r r.chunks, x.isJoint = false := by
  rw [groupedChunks]
  split
  · next hj => exact h hj
  · simp [Chunk.isJoint]

theorem isJoint_of_mem_chunks {r : Reading} (hj : r.joint? = none) :
    ∀ x ∈ r.chunks, x.isJoint = false := by
  induction r with
  | operand text => simp [chunks, Chunk.isJoint]
  | compare c l r ihl ihr =>
    rw [chunks]
    split
    · simp [Chunk.isJoint]
    · rw [List.forall_mem_append, List.forall_mem_cons]
      exact ⟨isJoint_of_mem_grouped ihl, rfl, isJoint_of_mem_grouped ihr⟩
  | oneOf l items ih =>
    rw [chunks, List.forall_mem_append]
    exact ⟨isJoint_of_mem_grouped ih, by simp [Chunk.isJoint]⟩
  | quantify q collection name body ih => simp [chunks, Chunk.isJoint]
  | negate r ih =>
    rw [chunks]
    split
    · next hr =>
      rw [List.forall_mem_cons]
      exact ⟨rfl, ih hr⟩
    · simp [Chunk.isJoint]
  | join j l r ihl ihr => cases hj

/-- Nor does a reading on the right of a joint that leans to the left. -/
theorem isJoint_of_mem_sided {j : Joint} {r : Reading} (hj : r.joint? ≠ some j) :
    ∀ x ∈ sidedChunks j r r.chunks, x.isJoint = false := by
  rw [sidedChunks, if_neg hj]
  exact isJoint_of_mem_grouped isJoint_of_mem_chunks

/-- What stands before a sign in an innermost reading. -/
theorem IsInnermost.isFlat {r : Reading} (h : r.IsInnermost) (ht : r.isTight = true) :
    ∀ x ∈ groupedChunks r r.chunks, x.isFlat = true := by
  induction r with
  | compare c l r ihl ihr =>
    have hc : c.isFunction = true := ht
    simp [groupedChunks, joint?, chunks, hc, Chunk.isFlat]
  | oneOf l items ih =>
    have hj : (oneOf l items).joint? = none := rfl
    rw [groupedChunks, if_pos hj, chunks, List.forall_mem_append]
    exact ⟨ih h.1 h.2, by simp [Chunk.isFlat]⟩
  | negate r ih =>
    have hr : r.joint? ≠ none := by simpa [isTight] using ht
    have hj : (negate r).joint? = none := rfl
    rw [groupedChunks, if_pos hj, chunks, if_neg hr]
    simp [Chunk.isFlat]
  | join j l r ihl ihr => simp [groupedChunks, joint?, Chunk.isFlat]
  | _ => simp [groupedChunks, joint?, chunks, Chunk.isFlat]

theorem any_isJoint_chunks {r : Reading} (hj : r.joint? = none) :
    r.chunks.any Chunk.isJoint = false := by
  rw [List.any_eq_false]
  intro x hx
  rw [isJoint_of_mem_chunks hj x hx]
  exact Bool.false_ne_true

theorem shapeOf_atom (text : String) : shapeOf [.atom text] = .single := rfl

theorem head?_append_of_isFlat {xs ys : List Chunk} (hxs : xs ≠ [])
    (h : ∀ x ∈ xs, x.isFlat = true) : (xs ++ ys).head? ≠ some .negation := by
  obtain ⟨x, rest, rfl⟩ := List.exists_cons_of_ne_nil hxs
  intro hhead
  obtain rfl := Option.some.inj hhead
  cases h _ List.mem_cons_self

/-- **What is outermost in an innermost reading can be told by its chunks.** -/
theorem IsInnermost.shapeOf_chunks {r : Reading} (h : r.IsInnermost) :
    shapeOf r.chunks = r.shape := by
  cases r with
  | operand text => rfl
  | compare c l r =>
    have hj := any_isJoint_chunks (r := compare c l r) rfl
    by_cases hc : c.isFunction = true
    · rw [chunks, if_pos hc, shape_compare, if_pos hc]
      rfl
    · have hflat := isFlat h.1 (h.2.2 (by simpa using hc))
      have hhead : (compare c l r).chunks.head? ≠ some .negation := by
        rw [chunks, if_neg hc]
        exact head?_append_of_isFlat (groupedChunks_ne_nil l.chunks_ne_nil) hflat
      have hsign : (compare c l r).chunks.any Chunk.isSign = true := by
        rw [chunks, if_neg hc]
        simp [Chunk.isSign]
      rw [shapeOf, if_neg (by simp [hj]), if_neg hhead, if_pos hsign, shape_compare, if_neg hc]
  | oneOf l items =>
    have hj := any_isJoint_chunks (r := oneOf l items) rfl
    have hflat := isFlat h.1 h.2
    have hhead : (oneOf l items).chunks.head? ≠ some .negation :=
      head?_append_of_isFlat (groupedChunks_ne_nil l.chunks_ne_nil) hflat
    have hsign : (oneOf l items).chunks.any Chunk.isSign = false := by
      rw [chunks, List.any_append, List.any_eq_false.2 fun x hx => Chunk.not_isSign_of_isFlat (hflat x hx)]
      rfl
    have hlength : 1 < (oneOf l items).chunks.length := by
      have hne := List.length_pos_iff.2 (groupedChunks_ne_nil (r := l) l.chunks_ne_nil)
      rw [chunks, List.length_append, List.length_singleton]
      omega
    rw [shapeOf, if_neg (by simp [hj]), if_neg hhead, if_neg (by simp [hsign]), if_pos hlength]
    rfl
  | quantify q collection name body => rfl
  | negate r =>
    by_cases hr : r.joint? = none
    · have hj := any_isJoint_chunks (r := negate r) rfl
      have hhead : (negate r).chunks.head? = some .negation := by
        rw [chunks, if_pos hr]
        rfl
      rw [shapeOf, if_neg (by simp [hj]), if_pos hhead, shape_negate, if_pos hr]
    · rw [chunks, if_neg hr, shapeOf_atom, shape_negate, if_neg hr]
  | join j l r =>
    have hj : (join j l r).chunks.any Chunk.isJoint = true := by
      rw [chunks]
      simp [Chunk.isJoint]
    rw [shapeOf, if_pos hj]
    rfl

end Reading

/-- What is written as a word before parentheses. -/
inductive Head
  | function (c : Comparison)
  | quantifier (q : Quantifier) (collection : String)
  | negation

def Head.word : Head → String
  | function c => c.word
  | quantifier q collection => collection ++ "/" ++ q.word
  | negation => "not"

theorem Head.word_injective {k k' : Head} (h : k.word = k'.word) : k = k' := by
  have hslash (q : Quantifier) (collection : String) :
      '/' ∈ (quantifier q collection).word.toList := by simp [word]
  have hnot : '/' ∉ negation.word.toList := by decide
  have hfunction (c : Comparison) : '/' ∉ (function c).word.toList := by cases c <;> decide
  have hne (c : Comparison) : (function c).word ≠ negation.word := by cases c <;> decide
  cases k with
  | function c =>
    cases k' with
    | function c' => rw [Comparison.word_injective h]
    | quantifier q' collection' => exact absurd (h ▸ hslash q' collection') (hfunction c)
    | negation => exact absurd h (hne c)
  | quantifier q collection =>
    cases k' with
    | function c' => exact absurd (h ▸ hslash q collection) (hfunction c')
    | quantifier q' collection' =>
      -- The quantifier stands behind the last slash.
      have hlast (q : Quantifier) : ∀ c ∈ q.word.toList, ¬ c = '/' := by
        cases q <;> simp [Quantifier.word]
      have hlist (q : Quantifier) (collection : String) : (quantifier q collection).word.toList =
          collection.toList ++ '/' :: q.word.toList := by simp [word]
      have hlists := congrArg String.toList h
      rw [hlist, hlist] at hlists
      obtain ⟨hcollection, -, hq⟩ := append_cons_inj_of_last (hlast q) (hlast q') rfl rfl hlists
      have hqq : q = q' := by
        revert hq
        cases q <;> cases q' <;> simp [Quantifier.word]
      rw [String.toList_inj.1 hcollection, hqq]
    | negation => exact absurd (h ▸ hslash q collection) hnot
  | negation =>
    cases k' with
    | function c' => exact absurd h.symm (hne c')
    | quantifier q' collection' => exact absurd (h ▸ hslash q' collection') hnot
    | negation => rfl

namespace Reading

/-- What stands before the parentheses of a reading that is written so, and what is in them. -/
def call? : Reading → Option (Head × String)
  | compare c l r => some (.function c, l.piece.reduce ++ "," ++ r.piece.reduce)
  | quantify q collection name body =>
    some (.quantifier q collection, name ++ ": " ++ body.piece.joined)
  | negate r => some (.negation, r.piece.joined)
  | _ => none

theorem joined_of_single {r : Reading} (hr : r.IsWorded) (h : r.shape = .single) :
    (r.call? = none ∧ IsWord r.piece.joined) ∨
      ∃ k inner, r.call? = some (k, inner) ∧ r.piece.joined = applied k.word inner ∧
        IsWord k.word := by
  cases r with
  | operand text => exact .inl ⟨rfl, hr⟩
  | compare c l r =>
    by_cases hc : c.isFunction = true
    · exact .inr ⟨_, _, rfl, joined_call hc l r, by cases c <;> decide⟩
    · rw [shape_compare, if_neg hc] at h
      cases h
  | oneOf l items => cases h
  | quantify q collection name body =>
    have hword : ("/" ++ q.word).toList.all isWordChar = true := by cases q <;> decide
    refine .inr ⟨_, _, rfl, joined_quantify q collection name body, ?_⟩
    rw [Head.word, String.append_assoc]
    exact IsWord.append hr.1 hword
  | negate r =>
    by_cases hj : r.joint? = none
    · rw [shape_negate, if_pos hj] at h
      cases h
    · exact .inr ⟨_, _, rfl, joined_negate hj, by decide⟩
  | join j l r => cases h

/-- A word has no parentheses. -/
theorem applied_ne_word {text word inner : String} (h : IsWord text) : text ≠ applied word inner := by
  rintro rfl
  exact absurd (List.all_eq_true.1 h.all_isWordChar '(' (by simp [applied])) (by decide)

theorem call?_eq {r s : Reading} (hr : r.IsWorded) (hs : s.IsWorded) (hrs : r.shape = .single)
    (hss : s.shape = .single) (h : r.chunks = s.chunks) : r.call? = s.call? := by
  have hjoined : r.piece.joined = s.piece.joined := by rw [← r.spell_chunks, ← s.spell_chunks, h]
  rcases joined_of_single hr hrs with ⟨hcr, hwr⟩ | ⟨k, i, hcr, hjr, hwr⟩ <;>
    rcases joined_of_single hs hss with ⟨hcs, hws⟩ | ⟨k', i', hcs, hjs, hws⟩
  · rw [hcr, hcs]
  · exact absurd (hjoined.trans hjs) (applied_ne_word hwr)
  · exact absurd (hjoined.symm.trans hjr) (applied_ne_word hws)
  · rw [hjr, hjs] at hjoined
    obtain ⟨hword, rfl⟩ := applied_injective hwr.all_isWordChar hws.all_isWordChar hjoined
    rw [hcr, hcs, Head.word_injective hword]

/-- Readings with the same text as operands have the same text. -/
theorem IsInnermost.chunks_eq_of_grouped {r s : Reading} (hr : r.IsInnermost) (hs : s.IsInnermost)
    (hwr : r.IsWorded) (hws : s.IsWorded)
    (h : groupedChunks r r.chunks = groupedChunks s s.chunks) : r.chunks = s.chunks := by
  -- A single chunk that is a group cannot be anything else.
  have hne {r : Reading} (hr : r.IsInnermost) (hwr : r.IsWorded) (inner : String) :
      r.chunks ≠ [.atom (applied "" inner)] := by
    intro hchunks
    have hshape := hr.shapeOf_chunks
    have hjoined := r.spell_chunks
    rw [hchunks, spell_atom] at hjoined
    rw [hchunks, shapeOf_atom] at hshape
    rcases joined_of_single hwr hshape.symm with ⟨-, hword⟩ | ⟨word, i, -, hj, hword⟩
    · exact applied_ne_word hword hjoined.symm
    · obtain ⟨hempty, -⟩ := applied_injective rfl hword.all_isWordChar (hjoined.trans hj)
      exact hword.ne_empty hempty.symm
  by_cases hjr : r.joint? = none <;> by_cases hjs : s.joint? = none
  · rwa [groupedChunks, groupedChunks, if_pos hjr, if_pos hjs] at h
  · rw [groupedChunks, groupedChunks, if_pos hjr, if_neg hjs, reduce_of_joint hjs] at h
    exact absurd h (hne hr hwr _)
  · rw [groupedChunks, groupedChunks, if_neg hjr, if_pos hjs, reduce_of_joint hjr] at h
    exact absurd h.symm (hne hs hws _)
  · rw [groupedChunks, groupedChunks, if_neg hjr, if_neg hjs, reduce_of_joint hjr,
      reduce_of_joint hjs] at h
    obtain ⟨-, hjoined⟩ := applied_injective rfl rfl (Chunk.atom.inj (List.cons.inj h).1)
    exact chunks_eq_of_joined_eq hwr hws hjoined

section Unique

variable {r s : Reading} (hr : r.IsInnermost) (hs : s.IsInnermost) (hwr : r.IsWorded)
  (hws : s.IsWorded)

include hr hs hwr hws

theorem IsInnermost.chunks_eq_of_reduce (h : r.piece.reduce = s.piece.reduce) :
    r.chunks = s.chunks := by
  refine hr.chunks_eq_of_grouped hs hwr hws ?_
  refine (isOperandRow_grouped hwr.isOperandRow).isRow.eq_of_spell
    (isOperandRow_grouped hws.isOperandRow).isRow ?_
  rw [spell_groupedChunks r.spell_chunks, spell_groupedChunks s.spell_chunks, h]

theorem IsInnermost.chunks_eq_of_sided (j : Joint)
    (h : sidedChunks j r r.chunks = sidedChunks j s s.chunks) : r.chunks = s.chunks := by
  -- Only what is joined by `j` itself shows a joint on one side of `j`.
  have hne {r s : Reading} (hr : r.joint? = some j) (hs : s.joint? ≠ some j) :
      sidedChunks j r r.chunks ≠ sidedChunks j s s.chunks := by
    intro h
    cases r with
    | join k a b =>
      have hmem : Chunk.joint k ∈ sidedChunks j (join k a b) (join k a b).chunks := by
        rw [sidedChunks, if_pos hr, chunks]
        simp
      rw [h] at hmem
      exact absurd (isJoint_of_mem_sided hs _ hmem) (by simp [Chunk.isJoint])
    | _ => cases hr
  by_cases hjr : r.joint? = some j <;> by_cases hjs : s.joint? = some j
  · rwa [sidedChunks, sidedChunks, if_pos hjr, if_pos hjs] at h
  · exact absurd h (hne hjr hjs)
  · exact absurd h.symm (hne hjs hjr)
  · rw [sidedChunks, sidedChunks, if_neg hjr, if_neg hjs] at h
    exact hr.chunks_eq_of_grouped hs hwr hws h

end Unique

/-- Texts with a comma between them can be told apart. -/
theorem reduce_eq_of_comma {l r l' r' : Reading} (hl : l.IsWorded) (hr : r.IsWorded)
    (hl' : l'.IsWorded) (hr' : r'.IsWorded)
    (h : l.piece.reduce ++ "," ++ r.piece.reduce = l'.piece.reduce ++ "," ++ r'.piece.reduce) :
    l.piece.reduce = l'.piece.reduce ∧ r.piece.reduce = r'.piece.reduce := by
  have hlist (s t : String) : (s ++ "," ++ t).toList = [','].intercalate [s.toList, t.toList] := by
    simp
  have hclosed {l r : Reading} (hl : l.IsWorded) (hr : r.IsWorded) :
      ∀ x ∈ [l.piece.reduce.toList, r.piece.reduce.toList], IsClosed [','] x := by
    simp only [List.forall_mem_cons]
    exact ⟨isClosed_reduce hl.isOperandRow (List.Subset.refl _),
      isClosed_reduce hr.isOperandRow (List.Subset.refl _), nofun⟩
  have hlists := congrArg String.toList h
  have hopening : ',' ≠ '(' := by decide
  rw [hlist, hlist] at hlists
  have hboth := intercalate_injective hopening List.mem_cons_self (hclosed hl hr)
    (hclosed hl' hr') (List.cons_ne_nil _ _) (List.cons_ne_nil _ _) hlists
  obtain ⟨hs, ht⟩ := List.cons.inj hboth
  exact ⟨String.toList_inj.1 hs, String.toList_inj.1 (List.cons.inj ht).1⟩

/-- A range variable ends before the first space. -/
theorem name_eq_of_space {name name' body body' : String} (hn : IsWord name) (hn' : IsWord name')
    (h : name ++ ": " ++ body = name' ++ ": " ++ body') : name = name' ∧ body = body' := by
  have hlist (s t : String) : (s ++ ": " ++ t).toList = (s ++ ":").toList ++ ' ' :: t.toList := by
    simp
  have hnot {s : String} (hs : IsWord s) : ∀ c ∈ (s ++ ":").toList, ¬ c = ' ' := by
    rintro c hc rfl
    have hword := hs.append (t := ":") (by decide)
    exact absurd (List.all_eq_true.1 hword.all_isWordChar _ hc) (by decide)
  have hlists := congrArg String.toList h
  rw [hlist, hlist] at hlists
  obtain ⟨hname, -, hbody⟩ := append_cons_inj_of_first (hnot hn) (hnot hn') rfl rfl hlists
  exact ⟨(String.append_left_inj ":").1 (String.toList_inj.1 hname), String.toList_inj.1 hbody⟩

theorem IsInnermost.shape_eq {r s : Reading} (hr : r.IsInnermost) (hs : s.IsInnermost)
    (h : r.chunks = s.chunks) : s.shape = r.shape := by
  rw [← hr.shapeOf_chunks, ← hs.shapeOf_chunks, h]

/-- **An innermost reading is determined by its chunks.** -/
theorem IsInnermost.eq_of_chunks_eq {r s : Reading} (hr : r.IsInnermost) (hs : s.IsInnermost)
    (hwr : r.IsWorded) (hws : s.IsWorded) (h : r.chunks = s.chunks) : r = s := by
  induction r generalizing s with
  | operand text =>
    have hshape := hr.shape_eq hs h
    have hcall := call?_eq hwr hws rfl hshape h
    cases s with
    | operand text' => rw [Chunk.atom.inj (List.cons.inj h).1]
    | oneOf l' items' => cases hshape
    | join j' l' r' => cases hshape
    | _ => cases hcall
  | compare c l r ihl ihr =>
    have hshape := hr.shape_eq hs h
    by_cases hc : c.isFunction = true
    · rw [shape_compare, if_pos hc] at hshape
      have hcall := call?_eq hwr hws (if_pos hc) hshape h
      cases s with
      | compare d l' r' =>
        simp only [call?, Option.some.injEq, Prod.mk.injEq, Head.function.injEq] at hcall
        obtain ⟨rfl, hinner⟩ := hcall
        obtain ⟨hl, hr'⟩ := reduce_eq_of_comma hwr.1 hwr.2 hws.1 hws.2 hinner
        rw [ihl hr.1 hs.1 hwr.1 hws.1 (hr.1.chunks_eq_of_reduce hs.1 hwr.1 hws.1 hl),
          ihr hr.2.1 hs.2.1 hwr.2 hws.2 (hr.2.1.chunks_eq_of_reduce hs.2.1 hwr.2 hws.2 hr')]
      | _ => cases hcall
    · rw [shape_compare, if_neg hc] at hshape
      obtain ⟨d, l', r', rfl, hd⟩ := describes_of_shape_eq hshape
      -- The left operands are tight, so the first sign is the outermost.
      have hflat {t : Reading} (h : ∀ x ∈ groupedChunks t t.chunks, x.isFlat = true) :
          ∀ x ∈ groupedChunks t t.chunks, ¬ x.isSign = true :=
        fun x hx => Chunk.not_isSign_of_isFlat (h x hx)
      rw [chunks, chunks, if_neg hc, if_neg (by simp [hd])] at h
      obtain ⟨hl, hsign, hr'⟩ := append_cons_inj_of_first
        (hflat (hr.1.isFlat (hr.2.2 (by simpa using hc)))) (hflat (hs.1.isFlat (hs.2.2 hd))) rfl rfl h
      rw [ihl hr.1 hs.1 hwr.1 hws.1 (hr.1.chunks_eq_of_grouped hs.1 hwr.1 hws.1 hl),
        ihr hr.2.1 hs.2.1 hwr.2 hws.2 (hr.2.1.chunks_eq_of_grouped hs.2.1 hwr.2 hws.2 hr'),
        Chunk.sign.inj hsign]
  | oneOf l items ih =>
    obtain ⟨l', items', rfl⟩ := describes_of_shape_eq (hr.shape_eq hs h)
    obtain ⟨hl, hitems⟩ := List.append_inj' h rfl
    rw [ih hr.1 hs.1 hwr.1 hws.1 (hr.1.chunks_eq_of_grouped hs.1 hwr.1 hws.1 hl),
      Chunk.among.inj (List.cons.inj hitems).1]
  | quantify q collection name body ih =>
    have hshape := hr.shape_eq hs h
    have hcall := call?_eq hwr hws rfl hshape h
    cases s with
    | quantify q' collection' name' body' =>
      simp only [call?, Option.some.injEq, Prod.mk.injEq, Head.quantifier.injEq] at hcall
      obtain ⟨⟨rfl, rfl⟩, hinner⟩ := hcall
      obtain ⟨rfl, hjoined⟩ := name_eq_of_space hwr.2.1 hws.2.1 hinner
      have hbody : body.IsInnermost := hr
      have hbody' : body'.IsInnermost := hs
      rw [ih hbody hbody' hwr.2.2 hws.2.2 (chunks_eq_of_joined_eq hwr.2.2 hws.2.2 hjoined)]
    | _ => cases hcall
  | negate r ih =>
    have hshape := hr.shape_eq hs h
    have hr' : r.IsInnermost := hr
    have hwr' : r.IsWorded := hwr
    by_cases hj : r.joint? = none
    · rw [shape_negate, if_pos hj] at hshape
      obtain ⟨s, rfl, hjs⟩ := describes_of_shape_eq hshape
      have hs' : s.IsInnermost := hs
      have hws' : s.IsWorded := hws
      rw [chunks, chunks, if_pos hj, if_pos hjs] at h
      rw [ih hr' hs' hwr' hws' (List.cons.inj h).2]
    · rw [shape_negate, if_neg hj] at hshape
      have hcall := call?_eq hwr hws (if_neg hj) hshape h
      cases s with
      | negate s =>
        simp only [call?, Option.some.injEq, Prod.mk.injEq, true_and] at hcall
        have hs' : s.IsInnermost := hs
        have hws' : s.IsWorded := hws
        rw [ih hr' hs' hwr' hws' (chunks_eq_of_joined_eq hwr' hws' hcall)]
      | _ => cases hcall
  | join j l r ihl ihr =>
    obtain ⟨k, l', r', rfl⟩ := describes_of_shape_eq (hr.shape_eq hs h)
    -- Equal joints lean to the left, so the last joint is the outermost.
    have hlast {j : Joint} {t : Reading} (ht : t.joint? ≠ some j) :
        ∀ x ∈ sidedChunks j t t.chunks, ¬ x.isJoint = true := by
      intro x hx
      rw [isJoint_of_mem_sided ht x hx]
      exact Bool.false_ne_true
    obtain ⟨hl, hjoint, hr'⟩ :=
      append_cons_inj_of_last (hlast hr.2.2) (hlast hs.2.2) rfl rfl h
    obtain rfl := Chunk.joint.inj hjoint
    rw [ihl hr.1 hs.1 hwr.1 hws.1 (hr.1.chunks_eq_of_sided hs.1 hwr.1 hws.1 j hl),
      ihr hr.2.1 hs.2.1 hwr.2 hws.2 (hr.2.1.chunks_eq_of_sided hs.2.1 hwr.2 hws.2 j hr')]

/-- **Two readings have the same text only if their innermost readings are the same.** -/
theorem innermost_eq_of_joined_eq {r s : Reading} (hr : r.IsWorded) (hs : s.IsWorded)
    (h : r.piece.joined = s.piece.joined) : r.innermost = s.innermost := by
  have hwr : r.innermost.IsWorded := r.isMadeOf_innermost.2 hr
  have hws : s.innermost.IsWorded := s.isMadeOf_innermost.2 hs
  refine r.isInnermost_innermost.eq_of_chunks_eq s.isInnermost_innermost hwr hws ?_
  refine chunks_eq_of_joined_eq hwr hws ?_
  rw [r.piece_innermost, s.piece_innermost, h]

end Reading

end EntityQuery.Filter
