import EntityQuery.Proofs.Filter.Closed
import EntityQuery.Proofs.Filter.Writing

/-!
# A filter text as a row of chunks

Without what stands in parentheses, the text of a reading is a row of chunks with spaces between
them: operands, signs, and the words for joints and negations (`Filter.Reading.chunks`).  A reader
who cuts the text at the spaces outside of parentheses has the texts of the chunks, but not what they
are, since fields may well be called `not` or `eq`.

Still there is only one way to take them.  Behind an operand, only a sign or a joint may follow, and
behind these, or a negation, only an operand (`Filter.IsRow`).  So a row of texts has one row of
chunks (`Filter.IsRow.eq`), and readings with the same text have the same chunks
(`Filter.Reading.chunks_eq_of_joined_eq`).
-/

set_option autoImplicit false

namespace EntityQuery

theorem Comparison.word_injective {c d : Comparison} (h : c.word = d.word) : c = d := by
  revert h
  cases c <;> cases d <;> simp [word]

theorem Comparison.word_ne_in (c : Comparison) : c.word ≠ "in" := by cases c <;> decide

theorem Comparison.word_ne_keyword (c : Comparison) (j : Joint) : c.word ≠ j.keyword := by
  cases c <;> cases j <;> decide

theorem Joint.keyword_injective {j k : Joint} (h : j.keyword = k.keyword) : j = k := by
  revert h
  cases j <;> cases k <;> simp [keyword]

theorem Joint.keyword_ne_in (j : Joint) : j.keyword ≠ "in" := by cases j <;> decide

namespace Filter

/-! ## Readings of words -/

/-- A text that is a word wherever it stands. -/
structure IsWord (s : String) : Prop where
  ne_empty : s ≠ ""
  all_isWordChar : s.toList.all isWordChar = true

instance (s : String) : Decidable (IsWord s) :=
  decidable_of_iff (s ≠ "" ∧ s.toList.all isWordChar = true)
    ⟨fun h => ⟨h.1, h.2⟩, fun h => ⟨h.ne_empty, h.all_isWordChar⟩⟩

theorem IsWord.isClosed {s : String} (h : IsWord s) : IsClosed [' ', ','] s.toList :=
  .of_word h.all_isWordChar

theorem IsWord.append {s t : String} (hs : IsWord s) (ht : t.toList.all isWordChar = true) :
    IsWord (s ++ t) := by
  refine ⟨fun h => hs.ne_empty (String.append_eq_empty_iff.1 h).1, ?_⟩
  rw [String.toList_append, List.all_append, hs.all_isWordChar, ht, Bool.and_self]

namespace Reading

/-- Whether the texts that a reading is made of are of given kinds: those of its leaves, of its
collections and of its range variables. -/
def IsMadeOf (leaf collection name : String → Prop) : Reading → Prop
  | operand text => leaf text
  | compare _ l r => l.IsMadeOf leaf collection name ∧ r.IsMadeOf leaf collection name
  | oneOf l items => l.IsMadeOf leaf collection name ∧ ∀ t ∈ items, leaf t
  | quantify _ c n body => collection c ∧ name n ∧ body.IsMadeOf leaf collection name
  | negate r => r.IsMadeOf leaf collection name
  | join _ l r => l.IsMadeOf leaf collection name ∧ r.IsMadeOf leaf collection name

theorem IsMadeOf.mono {leaf collection name leaf' collection' name' : String → Prop} {r : Reading}
    (h : r.IsMadeOf leaf collection name) (hleaf : ∀ t, leaf t → leaf' t)
    (hcollection : ∀ t, collection t → collection' t) (hname : ∀ t, name t → name' t) :
    r.IsMadeOf leaf' collection' name' := by
  induction r with
  | operand text => exact hleaf text h
  | compare c l r ihl ihr => exact ⟨ihl h.1, ihr h.2⟩
  | oneOf l items ih => exact ⟨ih h.1, fun t ht => hleaf t (h.2 t ht)⟩
  | quantify q c n body ih => exact ⟨hcollection c h.1, hname n h.2.1, ih h.2.2⟩
  | negate r ih => exact ih h
  | join j l r ihl ihr => exact ⟨ihl h.1, ihr h.2⟩

/-- A reading in which all texts are words. -/
abbrev IsWorded (r : Reading) : Prop := r.IsMadeOf IsWord IsWord IsWord

end Reading

/-! ## Chunks -/

/-- What a text consists of, apart from what stands in parentheses. -/
inductive Chunk
  | negation
  /-- An operand: a word, or something that ends with a parenthesis. -/
  | atom (text : String)
  | sign (c : Comparison)
  | among (items : List String)
  | joint (j : Joint)
deriving DecidableEq

/-- The texts of a chunk. -/
def Chunk.texts : Chunk → List String
  | negation => ["not"]
  | atom text => [text]
  | sign c => [c.word]
  | among items => ["in", "(" ++ ",".intercalate items ++ ")"]
  | joint j => [j.keyword]

/-- The text of chunks. -/
def spell (xs : List Chunk) : String := " ".intercalate (xs.flatMap Chunk.texts)

theorem texts_ne_nil {xs : List Chunk} (h : xs ≠ []) : xs.flatMap Chunk.texts ≠ [] := by
  obtain ⟨x, rest, rfl⟩ := List.exists_cons_of_ne_nil h
  cases x <;> exact List.cons_ne_nil _ _

theorem spell_append {xs ys : List Chunk} (hx : xs ≠ []) (hy : ys ≠ []) :
    spell (xs ++ ys) = spell xs ++ " " ++ spell ys := by
  rw [spell, List.flatMap_append,
    String.intercalate_append_of_ne_nil (texts_ne_nil hx) (texts_ne_nil hy)]
  rfl

theorem spell_atom (text : String) : spell [.atom text] = text := String.intercalate_singleton

/-- The chunks of a reading inside another: a single one, if it is joined. -/
def groupedChunks (r : Reading) (xs : List Chunk) : List Chunk :=
  if r.joint? = none then xs else [.atom r.piece.reduce]

/-- The chunks of a reading on one side of a joint. -/
def sidedChunks (j : Joint) (r : Reading) (xs : List Chunk) : List Chunk :=
  if r.joint? = some j then xs else groupedChunks r xs

/-- The chunks of a reading. -/
def Reading.chunks : Reading → List Chunk
  | .operand text => [.atom text]
  | .compare c l r =>
    if c.isFunction then [.atom (Reading.compare c l r).piece.joined]
    else groupedChunks l l.chunks ++ .sign c :: groupedChunks r r.chunks
  | .oneOf l items => groupedChunks l l.chunks ++ [.among items]
  | .quantify q collection name body => [.atom (quantify q collection name body).piece.joined]
  | .negate r =>
    if r.joint? = none then .negation :: r.chunks else [.atom (Reading.negate r).piece.joined]
  | .join j l r => sidedChunks j l l.chunks ++ .joint j :: sidedChunks j r r.chunks

section Spelling

variable {r : Reading}

theorem groupedChunks_ne_nil {xs : List Chunk} (h : xs ≠ []) : groupedChunks r xs ≠ [] := by
  rw [groupedChunks]
  split
  · exact h
  · exact List.cons_ne_nil _ _

theorem Reading.chunks_ne_nil (r : Reading) : r.chunks ≠ [] := by
  cases r with
  | compare c l r =>
    rw [chunks]
    split
    · exact List.cons_ne_nil _ _
    · exact List.append_ne_nil_of_right_ne_nil _ (List.cons_ne_nil _ _)
  | negate r =>
    rw [chunks]
    split <;> exact List.cons_ne_nil _ _
  | oneOf l items => exact List.append_ne_nil_of_right_ne_nil _ (List.cons_ne_nil _ _)
  | join j l r => exact List.append_ne_nil_of_right_ne_nil _ (List.cons_ne_nil _ _)
  | _ => exact List.cons_ne_nil _ _

theorem spell_groupedChunks {xs : List Chunk} (h : spell xs = r.piece.joined) :
    spell (groupedChunks r xs) = r.piece.reduce := by
  rw [groupedChunks]
  split
  · next hj => rw [h, r.isSound_piece.reduce_of_none (r.joint_piece.trans hj)]
  · exact spell_atom _

theorem spell_sidedChunks {xs : List Chunk} (h : spell xs = r.piece.joined) (j : Joint) :
    spell (sidedChunks j r xs) = r.piece.sideText j := by
  rw [sidedChunks, Fragment.sideText_eq, r.joint_piece]
  split
  · exact h
  · exact spell_groupedChunks h

/-- **The text of a reading is that of its chunks.** -/
theorem Reading.spell_chunks (r : Reading) : spell r.chunks = r.piece.joined := by
  induction r with
  | compare c l r ihl ihr =>
    have hl := groupedChunks_ne_nil (r := l) l.chunks_ne_nil
    have hr := groupedChunks_ne_nil (r := r) r.chunks_ne_nil
    rw [chunks]
    split
    · exact spell_atom _
    · next hc =>
      have hsign : spell [.sign c] = c.word := String.intercalate_singleton
      rw [spell_append hl (List.cons_ne_nil _ _), ← List.singleton_append,
        spell_append (List.cons_ne_nil _ _) hr, spell_groupedChunks ihl, spell_groupedChunks ihr,
        hsign, piece, Fragment.joined_atom, Comparison.write, if_neg hc]
      simp only [String.append_assoc]
  | oneOf l items ih =>
    have hl := groupedChunks_ne_nil (r := l) l.chunks_ne_nil
    have hamong : spell [.among items] = "in" ++ " " ++ ("(" ++ ",".intercalate items ++ ")") :=
      String.intercalate_cons_cons.trans (congrArg _ String.intercalate_singleton)
    rw [chunks, spell_append hl (List.cons_ne_nil _ _), spell_groupedChunks ih, hamong, piece,
      Fragment.joined_atom]
    simp only [String.append_assoc]
    rfl
  | negate r ih =>
    rw [chunks]
    split
    · next hj =>
      have hnot : spell [.negation] = "not" := String.intercalate_singleton
      rw [← List.singleton_append, spell_append (List.cons_ne_nil _ _) r.chunks_ne_nil, ih, hnot,
        piece, r.isSound_piece.negate_of_none (r.joint_piece.trans hj), Fragment.joined_atom]
      rfl
    · exact spell_atom _
  | join j l r ihl ihr =>
    have hside (t : Reading) : sidedChunks j t t.chunks ≠ [] := by
      rw [sidedChunks]
      split
      · exact t.chunks_ne_nil
      · exact groupedChunks_ne_nil t.chunks_ne_nil
    have hjoint : spell [.joint j] = j.keyword := String.intercalate_singleton
    rw [chunks, spell_append (hside l) (List.cons_ne_nil _ _), ← List.singleton_append,
      spell_append (List.cons_ne_nil _ _) (hside r), spell_sidedChunks ihl, spell_sidedChunks ihr,
      hjoint, piece, l.isSound_piece.joined_join r.isSound_piece]
    simp only [String.append_assoc]
  | _ => exact spell_atom _

end Spelling

/-! ## Rows -/

/-- What may come next in a row of chunks. -/
inductive Place
  | operand
  /-- A sign or a joint, if anything. -/
  | sign

/-- Chunks in an order that makes sense, with texts that can be cut at spaces. -/
inductive IsRow : Place → List Chunk → Prop
  | done : IsRow .sign []
  | negation {xs : List Chunk} (h : IsRow .operand xs) : IsRow .operand (.negation :: xs)
  | atom {text : String} {xs : List Chunk} (htext : IsClosed [' ', ','] text.toList)
      (h : IsRow .sign xs) : IsRow .operand (.atom text :: xs)
  | sign {c : Comparison} {xs : List Chunk} (hc : c.isFunction = false) (h : IsRow .operand xs) :
      IsRow .sign (.sign c :: xs)
  | among {items : List String} {xs : List Chunk} (hitems : ∀ t ∈ items, IsWord t)
      (h : IsRow .sign xs) : IsRow .sign (.among items :: xs)
  | joint (j : Joint) {xs : List Chunk} (h : IsRow .operand xs) : IsRow .sign (.joint j :: xs)

/-- Lists of words can be told apart. -/
theorem intercalate_comma_injective {xs ys : List String} (hxs : ∀ x ∈ xs, IsWord x)
    (hys : ∀ y ∈ ys, IsWord y) (h : ",".intercalate xs = ",".intercalate ys) : xs = ys := by
  have hne {zs : List String} (hzs : ∀ z ∈ zs, IsWord z) (hnil : ",".intercalate zs = "") :
      zs = [] := by
    cases zs with
    | nil => rfl
    | cons z rest =>
      have hz := (hzs z List.mem_cons_self).ne_empty
      cases rest with
      | nil => exact absurd (String.intercalate_singleton.symm.trans hnil) hz
      | cons w rest => simp [String.intercalate_cons_cons] at hnil
  by_cases hx : xs = []
  · subst hx
    exact (hne hys h.symm).symm
  by_cases hy : ys = []
  · subst hy
    exact hne hxs h
  have hclosed {zs : List String} (hzs : ∀ z ∈ zs, IsWord z) :
      ∀ z ∈ zs.map String.toList, IsClosed [' ', ','] z := by
    intro z hz
    obtain ⟨t, ht, rfl⟩ := List.mem_map.1 hz
    exact (hzs t ht).isClosed
  have hlists := congrArg String.toList h
  have hcomma : ",".toList = [','] := rfl
  have hopening : ',' ≠ '(' := by decide
  rw [String.toList_intercalate, String.toList_intercalate, hcomma] at hlists
  refine (List.map_inj_right fun s t hst => String.toList_inj.1 hst).1 ?_
  exact intercalate_injective hopening (by simp) (hclosed hxs) (hclosed hys) (by simpa using hx)
    (by simpa using hy) hlists

/-- What stands in parentheses is closed. -/
theorem IsClosed.parenthesized {seps : List Char} {s : String} (h : IsClosed [] s.toList) :
    IsClosed seps ("(" ++ s ++ ")").toList := by
  have hs : ("(" ++ s ++ ")").toList = '(' :: (s.toList ++ [')']) := by simp
  rw [hs]
  exact h.group

theorem isClosed_listing {items : List String} (h : ∀ t ∈ items, IsWord t) :
    IsClosed [' ', ','] ("(" ++ ",".intercalate items ++ ")").toList := by
  refine IsClosed.parenthesized ?_
  have hcomma : ",".toList = [','] := rfl
  rw [String.toList_intercalate, hcomma]
  refine IsClosed.intercalate (by decide) (by decide) (by simp) fun t ht => ?_
  obtain ⟨s, hs, rfl⟩ := List.mem_map.1 ht
  exact (h s hs).isClosed.mono (List.nil_subset _)

namespace IsRow

variable {p : Place} {xs ys : List Chunk}

/-- A row of chunks is cut at its spaces. -/
theorem isClosed (h : IsRow p xs) {t : String} (ht : t ∈ xs.flatMap Chunk.texts) :
    IsClosed [' ', ','] t.toList := by
  induction h with
  | done => cases ht
  | @negation xs h ih =>
    have hword : IsWord "not" := by decide
    rcases List.mem_cons.1 ht with rfl | ht
    · exact hword.isClosed
    · exact ih ht
  | @atom text xs htext h ih =>
    rcases List.mem_cons.1 ht with rfl | ht
    · exact htext
    · exact ih ht
  | @sign c xs hc h ih =>
    have hword : IsWord c.word := by cases c <;> decide
    rcases List.mem_cons.1 ht with rfl | ht
    · exact hword.isClosed
    · exact ih ht
  | @among items xs hitems h ih =>
    have hword : IsWord "in" := by decide
    rcases List.mem_cons.1 ht with rfl | ht
    · exact hword.isClosed
    rcases List.mem_cons.1 ht with rfl | ht
    · exact isClosed_listing hitems
    · exact ih ht
  | @joint j xs h ih =>
    have hword : IsWord j.keyword := by cases j <;> decide
    rcases List.mem_cons.1 ht with rfl | ht
    · exact hword.isClosed
    · exact ih ht

/-- Where an operand may come, a row begins with a negation or with an operand. -/
theorem operand_begins (h : IsRow .operand xs) : ∃ t ts, xs.flatMap Chunk.texts = t :: ts ∧
    (t ≠ "not" → ∃ zs, IsRow .sign zs ∧ zs.flatMap Chunk.texts = ts) := by
  cases h with
  | negation h => exact ⟨"not", _, rfl, fun hne => absurd rfl hne⟩
  | @atom text zs htext h => exact ⟨text, _, rfl, fun _ => ⟨zs, h, rfl⟩⟩

/-- Where a sign may come, a row begins with a word that an operand follows, or with one that a list
in parentheses follows. -/
theorem sign_begins (h : IsRow .sign xs) {t : String} {ts : List String}
    (ht : xs.flatMap Chunk.texts = t :: ts) : IsWord t ∧ t ≠ "not" ∧
      ((∃ zs, IsRow .operand zs ∧ zs.flatMap Chunk.texts = ts) ∨
        ∃ s rest, ts = ("(" ++ s ++ ")") :: rest) := by
  cases h with
  | done => cases ht
  | @sign c zs hc h =>
    obtain ⟨rfl, rfl⟩ := List.cons.inj ht
    exact ⟨by cases c <;> decide, by cases c <;> decide, .inl ⟨zs, h, rfl⟩⟩
  | among hitems h =>
    obtain ⟨rfl, rfl⟩ := List.cons.inj ht
    exact ⟨by decide, by decide, .inr ⟨_, _, rfl⟩⟩
  | @joint j zs h =>
    obtain ⟨rfl, rfl⟩ := List.cons.inj ht
    exact ⟨by cases j <;> decide, by cases j <;> decide, .inl ⟨zs, h, rfl⟩⟩

theorem not_isWord_parenthesized (s : String) : ¬ IsWord ("(" ++ s ++ ")") := by
  intro h
  have hall := List.all_eq_true.1 h.all_isWordChar '(' (by simp)
  exact absurd hall (by decide)

/-- The texts of a row cannot be taken in both ways: what is an operand in the one would be a sign in
the other, until one of them has to end and the other one cannot. -/
theorem texts_ne (hx : IsRow .operand xs) (hy : IsRow .sign ys) :
    xs.flatMap Chunk.texts ≠ ys.flatMap Chunk.texts := by
  intro h
  generalize hts : xs.flatMap Chunk.texts = ts at h
  induction ts generalizing xs ys with
  | nil =>
    obtain ⟨t, ts, ht, -⟩ := hx.operand_begins
    rw [hts] at ht
    cases ht
  | cons t ts ih =>
    obtain ⟨hword, hnot, hnext⟩ := hy.sign_begins h.symm
    obtain ⟨u, us, hu, hrest⟩ := hx.operand_begins
    obtain ⟨rfl, rfl⟩ := List.cons.inj (hts.symm.trans hu)
    obtain ⟨zs, hzs, htexts⟩ := hrest hnot
    rcases hnext with ⟨ws, hws, heq⟩ | ⟨s, rest, heq⟩
    · exact ih hws hzs heq htexts.symm
    · obtain ⟨hs, -⟩ := hzs.sign_begins (htexts.trans heq)
      exact not_isWord_parenthesized s hs

/-- **A row is determined by its texts.** -/
theorem eq_of_texts (hx : IsRow p xs) (hy : IsRow p ys)
    (h : xs.flatMap Chunk.texts = ys.flatMap Chunk.texts) : xs = ys := by
  induction hx generalizing ys with
  | done =>
    cases hy with
    | done => rfl
    | _ => cases h
  | negation hx ih =>
    cases hy with
    | negation hy => rw [ih hy (List.cons.inj h).2]
    | atom htext hy => exact absurd (List.cons.inj h).2 (hx.texts_ne hy)
  | atom htext hx ih =>
    cases hy with
    | negation hy => exact absurd (List.cons.inj h).2.symm (hy.texts_ne hx)
    | atom htext hy =>
      obtain ⟨rfl, hrest⟩ := List.cons.inj h
      rw [ih hy hrest]
  | @sign c xs hc hx ih =>
    cases hy with
    | done => cases h
    | @sign d ys hd hy =>
      obtain ⟨hword, hrest⟩ := List.cons.inj h
      rw [Comparison.word_injective hword, ih hy hrest]
    | among hitems hy => exact absurd (List.cons.inj h).1 c.word_ne_in
    | joint j hy => exact absurd (List.cons.inj h).1 (c.word_ne_keyword j)
  | @among items xs hitems hx ih =>
    cases hy with
    | done => cases h
    | @sign d ys hd hy => exact absurd (List.cons.inj h).1.symm d.word_ne_in
    | @among items' ys hitems' hy =>
      obtain ⟨hlist, hrest⟩ := List.cons.inj (List.cons.inj h).2
      rw [String.append_left_inj, String.append_right_inj] at hlist
      rw [intercalate_comma_injective hitems hitems' hlist, ih hy hrest]
    | joint j hy => exact absurd (List.cons.inj h).1.symm j.keyword_ne_in
  | joint j hx ih =>
    cases hy with
    | done => cases h
    | @sign d ys hd hy => exact absurd (List.cons.inj h).1.symm (d.word_ne_keyword j)
    | among hitems hy => exact absurd (List.cons.inj h).1 j.keyword_ne_in
    | joint k hy =>
      obtain ⟨hword, hrest⟩ := List.cons.inj h
      rw [Joint.keyword_injective hword, ih hy hrest]

/-- **So is one that begins with an operand, by its whole text.** -/
theorem eq_of_spell (hx : IsRow .operand xs) (hy : IsRow .operand ys) (h : spell xs = spell ys) :
    xs = ys := by
  refine hx.eq_of_texts hy ?_
  have hne {zs : List Chunk} (hz : IsRow .operand zs) : zs.flatMap Chunk.texts ≠ [] := by
    obtain ⟨t, ts, hts, -⟩ := hz.operand_begins
    rw [hts]
    exact List.cons_ne_nil _ _
  have hclosed {zs : List Chunk} (hz : IsRow .operand zs) :
      ∀ t ∈ (zs.flatMap Chunk.texts).map String.toList, IsClosed [' ', ','] t := by
    intro t ht
    obtain ⟨s, hs, rfl⟩ := List.mem_map.1 ht
    exact hz.isClosed hs
  have hlists := congrArg String.toList h
  have hspace : " ".toList = [' '] := rfl
  have hopening : ' ' ≠ '(' := by decide
  rw [spell, spell, String.toList_intercalate, String.toList_intercalate, hspace] at hlists
  refine (List.map_inj_right fun s t hst => String.toList_inj.1 hst).1 ?_
  exact intercalate_injective hopening (by simp) (hclosed hx) (hclosed hy)
    (mt List.map_eq_nil_iff.1 (hne hx)) (mt List.map_eq_nil_iff.1 (hne hy)) hlists

/-- The text of a row has commas in parentheses only. -/
theorem isClosed_spell (h : IsRow p xs) : IsClosed [','] (spell xs).toList := by
  have hspace : " ".toList = [' '] := rfl
  rw [spell, String.toList_intercalate, hspace]
  refine IsClosed.intercalate (by decide) (by decide) (by decide) fun t ht => ?_
  obtain ⟨s, hs, rfl⟩ := List.mem_map.1 ht
  exact (h.isClosed hs).mono (by simp)

end IsRow

/-! ## The rows of readings -/

/-- The chunks of an operand: whatever may follow an operand may follow them. -/
def IsOperandRow (xs : List Chunk) : Prop := ∀ rest, IsRow .sign rest → IsRow .operand (xs ++ rest)

theorem IsOperandRow.isRow {xs : List Chunk} (h : IsOperandRow xs) : IsRow .operand xs :=
  xs.append_nil ▸ h [] .done

theorem isOperandRow_atom {text : String} (h : IsClosed [' ', ','] text.toList) :
    IsOperandRow [.atom text] := fun _ hrest => .atom h hrest

/-- A text in parentheses, behind a word. -/
def applied (word inner : String) : String := word ++ "(" ++ inner ++ ")"

theorem isOperandRow_applied {word inner : String} (hword : word.toList.all isWordChar = true)
    (hinner : IsClosed [] inner.toList) : IsOperandRow [.atom (applied word inner)] := by
  have ht : (applied word inner).toList = word.toList ++ ("(" ++ inner ++ ")").toList := by
    simp [applied]
  refine isOperandRow_atom ?_
  rw [ht]
  exact (IsClosed.of_word hword).append (.parenthesized hinner)

namespace Reading

variable {r : Reading}

theorem joined_call {c : Comparison} (hc : c.isFunction = true) (l r : Reading) :
    (compare c l r).piece.joined =
      applied c.word (l.piece.reduce ++ "," ++ r.piece.reduce) := by
  rw [piece, Fragment.joined_atom, Comparison.write, if_pos hc, applied]
  simp only [String.append_assoc]

theorem joined_quantify (q : Quantifier) (collection name : String) (body : Reading) :
    (quantify q collection name body).piece.joined =
      applied (collection ++ "/" ++ q.word) (name ++ ": " ++ body.piece.joined) := by
  rw [piece, Fragment.joined_atom, applied]
  simp only [String.append_assoc]

theorem joined_negate (h : r.joint? ≠ none) :
    (negate r).piece.joined = applied "not" r.piece.joined := by
  obtain ⟨j, hj⟩ := Option.ne_none_iff_exists'.1 h
  rw [piece, r.isSound_piece.negate_of_some (r.joint_piece.trans hj), Fragment.joined_atom]
  rfl

theorem reduce_of_joint (h : r.joint? ≠ none) : r.piece.reduce = applied "" r.piece.joined := by
  obtain ⟨j, hj⟩ := Option.ne_none_iff_exists'.1 h
  rw [r.isSound_piece.reduce_of_some (r.joint_piece.trans hj)]
  rfl

theorem isClosed_joined {seps : List Char} (h : IsOperandRow r.chunks) (hseps : seps ⊆ [',']) :
    IsClosed seps r.piece.joined.toList :=
  r.spell_chunks ▸ h.isRow.isClosed_spell.mono hseps

theorem isClosed_reduce {seps : List Char} (h : IsOperandRow r.chunks) (hseps : seps ⊆ [',']) :
    IsClosed seps r.piece.reduce.toList := by
  by_cases hj : r.joint? = none
  · rw [r.isSound_piece.reduce_of_none (r.joint_piece.trans hj)]
    exact isClosed_joined h hseps
  · have happlied : applied "" r.piece.joined = "(" ++ r.piece.joined ++ ")" := rfl
    rw [reduce_of_joint hj, happlied]
    exact .parenthesized (isClosed_joined h (List.nil_subset _))

theorem isOperandRow_grouped (h : IsOperandRow r.chunks) :
    IsOperandRow (groupedChunks r r.chunks) := by
  rw [groupedChunks]
  split
  · exact h
  · next hj =>
    rw [reduce_of_joint hj]
    exact isOperandRow_applied rfl (isClosed_joined h (List.nil_subset _))

theorem isOperandRow_sided (h : IsOperandRow r.chunks) (j : Joint) :
    IsOperandRow (sidedChunks j r r.chunks) := by
  rw [sidedChunks]
  split
  · exact h
  · exact isOperandRow_grouped h

/-- **The chunks of a reading of words are a row.** -/
theorem IsMadeOf.isOperandRow (h : r.IsWorded) : IsOperandRow r.chunks := by
  induction r with
  | operand text => exact isOperandRow_atom (IsWord.isClosed h)
  | compare c l r ihl ihr =>
    rw [chunks]
    split
    · next hc =>
      have hword : c.word.toList.all isWordChar = true := by cases c <;> decide
      have hcomma : IsClosed [] ",".toList := .char (by decide) (by decide) List.not_mem_nil
      rw [joined_call hc]
      refine isOperandRow_applied hword ?_
      rw [String.toList_append, String.toList_append]
      exact ((isClosed_reduce (ihl h.1) (List.nil_subset _)).append hcomma).append
        (isClosed_reduce (ihr h.2) (List.nil_subset _))
    · next hc =>
      intro rest hrest
      rw [List.append_assoc]
      refine isOperandRow_grouped (ihl h.1) _ (.sign (by simpa using hc) ?_)
      exact isOperandRow_grouped (ihr h.2) _ hrest
  | oneOf l items ih =>
    intro rest hrest
    rw [chunks, List.append_assoc]
    exact isOperandRow_grouped (ih h.1) _ (.among h.2 hrest)
  | quantify q collection name body ih =>
    obtain ⟨hcollection, hname, hbody⟩ := h
    have hword : ("/" ++ q.word).toList.all isWordChar = true := by cases q <;> decide
    have hcolon : IsClosed [] ": ".toList := .of_forall (by simp)
    rw [chunks, joined_quantify]
    refine isOperandRow_applied ?_ ?_
    · rw [String.append_assoc]
      exact (hcollection.append hword).all_isWordChar
    · rw [String.toList_append, String.toList_append]
      exact ((hname.isClosed.mono (List.nil_subset _)).append hcolon).append
        (isClosed_joined (ih hbody) (List.nil_subset _))
  | negate r ih =>
    rw [chunks]
    split
    · exact fun rest hrest => .negation (ih h rest hrest)
    · next hj =>
      rw [joined_negate hj]
      exact isOperandRow_applied (by decide) (isClosed_joined (ih h) (List.nil_subset _))
  | join j l r ihl ihr =>
    intro rest hrest
    rw [chunks, List.append_assoc]
    refine isOperandRow_sided (ihl h.1) j _ (.joint j ?_)
    exact isOperandRow_sided (ihr h.2) j _ hrest

/-- **Readings with the same text have the same chunks.** -/
theorem chunks_eq_of_joined_eq {s : Reading} (hr : r.IsWorded) (hs : s.IsWorded)
    (h : r.piece.joined = s.piece.joined) : r.chunks = s.chunks := by
  refine hr.isOperandRow.isRow.eq_of_spell hs.isOperandRow.isRow ?_
  rw [spell_chunks, spell_chunks, h]

end Reading

end Filter

end EntityQuery
