import EntityQuery.Condition
import EntityQuery.Filter.Render
import EntityQuery.Proofs.Except
import EntityQuery.Proofs.Filter.Reading

/-!
# Operands are words

An operand of a condition is written as one word, so that a reader finds it whole.  For a string
that is so because literals end where they were ended.  All other constants consist of characters
that words are made of, and the words with a meaning of their own (`Filter.keywords`) each have a
letter that no constant has.

The exception is a text that is declared an identifier: it goes out as it stands, whatever it is
(`Literal.IsRaw`).

Names are up to the caller.  `Filter.IsName` asks of a segment what identifiers have: at least one
character, none that ends a word, and no meaning of its own.
-/

set_option autoImplicit false

namespace EntityQuery

namespace Filter

/-- A text that is one word, and has no other meaning. -/
structure IsOperand (text : String) : Prop where
  spells : Spells text.toList [.word text]
  not_keyword : text ∉ keywords

/-- Characters of constants other than strings, null and the booleans. -/
def isLiteralChar (c : Char) : Bool :=
  c.isDigit || (('a' ≤ c && c ≤ 'f') || "+-.:ETZ".toList.contains c)

theorem toNat_of_isLiteralChar {c : Char} (h : isLiteralChar c = true) :
    c.toNat = 43 ∨ (45 ≤ c.toNat ∧ c.toNat ≤ 102) := by
  simp only [isLiteralChar, Bool.or_eq_true, Bool.and_eq_true, decide_eq_true_eq] at h
  rcases h with h | h | h
  · simp only [Char.isDigit, Bool.and_eq_true, decide_eq_true_eq, ge_iff_le] at h
    have h1 : 48 ≤ c.toNat := h.1
    have h2 : c.toNat ≤ 57 := h.2
    omega
  · have h1 : 97 ≤ c.toNat := h.1
    have h2 : c.toNat ≤ 102 := h.2
    omega
  · have hm : c ∈ ['+', '-', '.', ':', 'E', 'T', 'Z'] := by simpa using h
    simp only [List.mem_cons, List.not_mem_nil, or_false] at hm
    rcases hm with rfl | rfl | rfl | rfl | rfl | rfl | rfl <;> decide

theorem isWordChar_of_isLiteralChar {c : Char} (h : isLiteralChar c = true) :
    isWordChar c = true := by
  have hn := toNat_of_isLiteralChar h
  have hne (d : Char) (hd : d.toNat < 43 ∨ d.toNat = 44) : c ≠ d := by
    rintro rfl
    omega
  have hs : Text.isSpace c = false := by
    simp only [Text.isSpace, Bool.or_eq_false_iff, Bool.and_eq_false_iff, decide_eq_false_iff_not,
      beq_eq_false_iff_ne]
    omega
  simp only [isWordChar, hs, Bool.not_false, Bool.true_and, Bool.and_eq_true, bne_iff_ne]
  exact ⟨⟨⟨hne '\'' (by decide), hne '(' (by decide)⟩, hne ')' (by decide)⟩, hne ',' (by decide)⟩

/-- No keyword consists of such characters alone. -/
theorem keywords_not_literal : ∀ k ∈ keywords, k.toList.all isLiteralChar = false := by decide

theorem all_isWordChar {cs : List Char} (h : cs.all isLiteralChar = true) :
    cs.all isWordChar = true := by
  rw [List.all_eq_true] at h ⊢
  exact fun c hc => isWordChar_of_isLiteralChar (h c hc)

theorem IsOperand.ofLiteralChars {text : String} (hne : text ≠ "")
    (h : text.toList.all isLiteralChar = true) : IsOperand text := by
  refine ⟨Spells.word hne (all_isWordChar h), fun hk => ?_⟩
  rw [keywords_not_literal text hk] at h
  cases h

theorem IsOperand.quote (s : String) : IsOperand (Text.Quoted.quote s) := by
  refine ⟨Spells.quoted s, fun hk => ?_⟩
  have h : ∀ k ∈ keywords, k.toList.head? ≠ some '\'' := by decide
  exact h _ hk (by rw [Text.Quoted.toList_quote]; rfl)

/-! ## Characters of constants -/

theorem all_repr (n : Nat) : (Nat.repr n).toList.all isLiteralChar = true := by
  rw [Nat.toList_repr, List.all_eq_true]
  intro c hc
  simp [isLiteralChar, Nat.isDigit_of_mem_toDigits (by decide) (by decide) hc]

theorem repr_ne_nil (n : Nat) : (Nat.repr n).toList ≠ [] := by
  rw [Nat.toList_repr]
  exact Nat.toDigits_ne_nil

theorem all_replicate_zero (n : Nat) : (List.replicate n '0').all isLiteralChar = true := by
  rw [List.all_eq_true]
  intro c hc
  rw [List.eq_of_mem_replicate hc]
  decide

theorem all_take {cs : List Char} (h : cs.all isLiteralChar = true) (n : Nat) :
    (cs.take n).all isLiteralChar = true := by
  rw [List.all_eq_true] at h ⊢
  exact fun c hc => h c (List.mem_of_mem_take hc)

theorem all_drop {cs : List Char} (h : cs.all isLiteralChar = true) (n : Nat) :
    (cs.drop n).all isLiteralChar = true := by
  rw [List.all_eq_true] at h ⊢
  exact fun c hc => h c (List.mem_of_mem_drop hc)

theorem isLiteralChar_zero : isLiteralChar '0' = true := by decide

theorem isLiteralChar_dash : isLiteralChar '-' = true := by decide

theorem isLiteralChar_point : isLiteralChar '.' = true := by decide

theorem all_padded (width n : Nat) : (Date.padded width n).toList.all isLiteralChar = true := by
  simp only [Date.padded, String.toList_append, String.toList_ofList, List.all_append,
    all_replicate_zero, all_repr, Bool.and_self]

theorem all_fractionText {ds : List Char} (h : ds.all isLiteralChar = true) (scale : Nat) :
    (Decimal.fractionText ds scale).all isLiteralChar = true := by
  unfold Decimal.fractionText
  split
  · simp only [List.all_append, List.all_cons, all_take h, all_drop h, isLiteralChar_point,
      Bool.and_self]
  · split
    · simp only [List.all_append, List.all_cons, all_replicate_zero, h, isLiteralChar_zero,
        isLiteralChar_point, Bool.and_self]
    · have hE : isLiteralChar 'E' = true := by decide
      cases ds with
      | nil => rfl
      | cons d rest =>
        rw [List.all_cons, Bool.and_eq_true] at h
        cases rest with
        | nil => simp only [List.all_cons, h.1, hE, isLiteralChar_dash, all_repr, Bool.and_self]
        | cons e more =>
          simp only [List.all_append, List.all_cons] at h ⊢
          simp only [h.1, h.2, hE, isLiteralChar_dash, isLiteralChar_point, all_repr,
            Bool.and_self]

theorem fractionText_ne_nil {ds : List Char} (h : ds ≠ []) (scale : Nat) :
    Decimal.fractionText ds scale ≠ [] := by
  unfold Decimal.fractionText
  split
  · simp
  · split
    · simp
    · rcases ds with _ | ⟨d, _ | ⟨e, more⟩⟩
      · exact absurd rfl h
      · simp
      · simp

theorem all_wholeText {ds : List Char} (h : ds.all isLiteralChar = true) (zeros : Nat) :
    (Decimal.wholeText ds zeros).all isLiteralChar = true := by
  have he : isLiteralChar 'e' = true := by decide
  have hp : isLiteralChar '+' = true := by decide
  unfold Decimal.wholeText
  split
  · simp only [List.all_append, h, all_replicate_zero, Bool.and_self]
  · simp only [List.all_append, List.all_cons, h, he, hp, all_repr, Bool.and_self]

theorem wholeText_ne_nil {ds : List Char} (h : ds ≠ []) (zeros : Nat) :
    Decimal.wholeText ds zeros ≠ [] := by
  unfold Decimal.wholeText
  split <;> simp [h]

theorem all_positionalText {ds : List Char} (h : ds.all isLiteralChar = true) (leading : Int) :
    (FloatLayout.positionalText false ds leading).all isLiteralChar = true := by
  unfold FloatLayout.positionalText
  split
  · simp only [List.all_append, List.all_cons, all_replicate_zero, h, isLiteralChar_zero,
      isLiteralChar_point, Bool.and_self]
  · dsimp only
    split
    · rw [if_neg Bool.false_ne_true, List.append_nil, List.all_append, h, all_replicate_zero,
        Bool.and_self]
    · simp only [List.all_append, List.all_cons, all_take h, all_drop h, isLiteralChar_point,
        Bool.and_self]

theorem positionalText_ne_nil {ds : List Char} (h : ds ≠ []) (leading : Int) :
    FloatLayout.positionalText false ds leading ≠ [] := by
  unfold FloatLayout.positionalText
  split
  · simp
  · dsimp only
    split <;> simp [h]

theorem all_hexDigits (width n : Nat) : (Text.hexDigits width n).all isLiteralChar = true := by
  have hex : ∀ k < 16, isLiteralChar (Text.hexLower k) = true := by decide
  induction width generalizing n with
  | zero => rfl
  | succ w ih =>
    simp only [Text.hexDigits, List.all_append, ih, List.all_cons, List.all_nil,
      hex _ (Nat.mod_lt n (by decide)), Bool.and_self]

theorem all_yearText (year : Int) : (Date.yearText year).toList.all isLiteralChar = true := by
  have hp : "+".toList.all isLiteralChar = true := by decide
  have hm : "-".toList.all isLiteralChar = true := by decide
  unfold Date.yearText
  split
  · exact all_padded _ _
  · split <;>
      simp only [String.toList_append, List.all_append, all_padded, hp, hm, Bool.and_self]

theorem all_dateText (d : Date) : d.text.toList.all isLiteralChar = true := by
  have hm : "-".toList.all isLiteralChar = true := by decide
  simp only [Date.text, String.toList_append, List.all_append, all_padded, all_yearText, hm,
    Bool.and_self]

theorem all_secondsText (c : Clock) : c.secondsText.toList.all isLiteralChar = true := by
  have hc : ":".toList.all isLiteralChar = true := by decide
  simp only [Clock.secondsText, String.toList_append, List.all_append, all_padded, hc,
    Bool.and_self]

theorem all_clockFraction (nano : Nat) :
    (Clock.fractionText nano).toList.all isLiteralChar = true := by
  have hp : ".".toList.all isLiteralChar = true := by decide
  unfold Clock.fractionText
  split
  · rfl
  · split
    · simp only [String.toList_append, List.all_append, all_padded, hp, Bool.and_self]
    · split <;> simp only [String.toList_append, List.all_append, all_padded, hp, Bool.and_self]

/-! ### Whole constants -/

theorem all_decimalText (n : Decimal) : n.text.toList.all isLiteralChar = true := by
  have hds := all_repr n.digits.natAbs
  have hmag : ∀ cs : List Char, cs.all isLiteralChar = true →
      (if n.digits < 0 then '-' :: cs else cs).all isLiteralChar = true := by
    intro cs hall
    split <;> simp only [List.all_cons, hall, isLiteralChar_dash, Bool.and_self]
  rw [Decimal.text, String.toList_ofList]
  refine hmag _ ?_
  split
  · rfl
  · split
    · exact all_fractionText hds _
    · exact all_wholeText hds _

end Filter

theorem Binary64.isNaN_of_isFinite (x : Binary64) (h : x.isFinite = true) : x.isNaN = false := by
  have he : (x.exponentField == 2047) = false := by simpa [Binary64.isFinite] using h
  rw [Binary64.isNaN, he, Bool.false_and]

namespace Filter

theorem all_floatText {x : Binary64} (h : x.isFinite = true) :
    (FloatLayout.literal.text x).toList.all isLiteralChar = true := by
  have hsign : (if x.isNegative then "-" else "").toList.all isLiteralChar = true := by
    split <;> decide
  simp only [FloatLayout.text, x.isNaN_of_isFinite h, h, FloatLayout.literal, if_true,
    Bool.false_eq_true, if_false]
  rw [String.toList_append, String.toList_ofList, List.all_append, hsign,
    all_positionalText (all_repr _), Bool.and_self]

theorem all_uuidText (u : Uuid) : u.text.toList.all isLiteralChar = true := by
  have hds := all_hexDigits 32 u.number.val
  simp only [Uuid.text, String.toList_ofList, List.all_append, List.all_cons,
    all_take (all_drop hds _), isLiteralChar_dash, Bool.and_self]

theorem all_clockText (c : Clock) : c.text.toList.all isLiteralChar = true := by
  rw [Clock.text, String.toList_append, List.all_append, all_secondsText, all_clockFraction,
    Bool.and_self]

theorem all_timestampText (t : Timestamp) : t.text.toList.all isLiteralChar = true := by
  have hT : "T".toList.all isLiteralChar = true := by decide
  have hZ : "Z".toList.all isLiteralChar = true := by decide
  have hp : ".".toList.all isLiteralChar = true := by decide
  simp only [Timestamp.text, Clock.millisecondText, String.toList_append, List.all_append,
    all_dateText, all_secondsText, all_padded, hT, hZ, hp, Bool.and_self]

end Filter

open EntityQuery.Filter

/-! ## Constants -/

theorem Decimal.isOperand_text (n : Decimal) : IsOperand n.text := by
  have hne := repr_ne_nil n.digits.natAbs
  refine .ofLiteralChars ?_ (all_decimalText n)
  have hmag : ∀ cs : List Char, cs ≠ [] →
      String.ofList (if n.digits < 0 then '-' :: cs else cs) ≠ "" := by
    intro cs hcs
    rw [Ne, ← String.toList_eq_nil_iff, String.toList_ofList]
    split <;> simp [hcs]
  unfold Decimal.text
  refine hmag _ ?_
  split
  · simp
  · split
    · exact fractionText_ne_nil hne _
    · exact wholeText_ne_nil hne _

theorem Binary64.isOperand_text {x : Binary64} (h : x.isFinite = true) :
    IsOperand (FloatLayout.literal.text x) := by
  refine .ofLiteralChars ?_ (all_floatText h)
  simp only [FloatLayout.text, x.isNaN_of_isFinite h, h, FloatLayout.literal, if_true,
    Bool.false_eq_true, if_false]
  rw [Ne, ← String.toList_eq_nil_iff, String.toList_append, String.toList_ofList,
    List.append_eq_nil_iff]
  exact fun hnil => positionalText_ne_nil (repr_ne_nil _) _ hnil.2

theorem Uuid.isOperand_text (u : Uuid) : IsOperand u.text := by
  refine .ofLiteralChars ?_ (all_uuidText u)
  rw [Ne, ← String.toList_eq_nil_iff, Uuid.text, String.toList_ofList]
  simp

theorem Date.isOperand_text (d : Date) : IsOperand d.text := by
  refine .ofLiteralChars ?_ (all_dateText d)
  simp [Date.text, ← String.toList_eq_nil_iff]

theorem Clock.isOperand_text (c : Clock) : IsOperand c.text := by
  refine .ofLiteralChars ?_ (all_clockText c)
  simp [Clock.text, Clock.secondsText, ← String.toList_eq_nil_iff]

theorem Timestamp.isOperand_text (t : Timestamp) : IsOperand t.text := by
  refine .ofLiteralChars ?_ (all_timestampText t)
  simp [Timestamp.text, ← String.toList_eq_nil_iff]

/-- **A value is written as one word.** -/
theorem Value.isOperand_of_render {v : Value} {s : String} (h : v.render = .ok s) :
    IsOperand s := by
  cases v with
  | null =>
    obtain rfl := Except.ok.inj h
    exact ⟨.word (by decide) (by decide), by decide⟩
  | bool b =>
    obtain rfl := Except.ok.inj h
    cases b
    · exact ⟨.word (by decide) (by decide), by decide⟩
    · exact ⟨.word (by decide) (by decide), by decide⟩
  | number n => exact Except.ok.inj h ▸ n.isOperand_text
  | float x =>
    rw [Value.render] at h
    split at h
    · next hx => exact Except.ok.inj h ▸ Binary64.isOperand_text hx
    · cases h
  | text s => exact Except.ok.inj h ▸ .quote s
  | uuid u => exact Except.ok.inj h ▸ u.isOperand_text
  | timestamp t => exact Except.ok.inj h ▸ t.isOperand_text
  | date d => exact Except.ok.inj h ▸ d.isOperand_text
  | time c => exact Except.ok.inj h ▸ c.isOperand_text

/-- A text that is declared an identifier. -/
def Literal.IsRaw (l : Literal) : Prop := l.type = .guid ∧ ∃ s, l.value = .text s

/-- **So is a literal, unless it is a text that goes out as it stands.** -/
theorem Literal.isOperand_of_render {l : Literal} {s : String} (h : l.render = .ok s)
    (hraw : ¬ l.IsRaw) : IsOperand s := by
  obtain ⟨v, type⟩ := l
  rw [Literal.render] at h
  split at h
  · exact Value.isOperand_of_render (v := .null) h
  · obtain ⟨d, _, rfl⟩ := map_eq_ok.1 h
    exact d.isOperand_text
  · exact absurd ⟨by assumption, _, by assumption⟩ hraw
  · exact Value.isOperand_of_render h

/-! ## Names -/

namespace Filter

/-- A segment of a path that can be told apart from everything else in a filter. -/
structure IsName (s : String) : Prop where
  ne_empty : s ≠ ""
  all_isWordChar : s.toList.all isWordChar = true
  not_keyword : s ∉ keywords

instance (s : String) : Decidable (IsName s) :=
  decidable_of_iff (s ≠ "" ∧ s.toList.all isWordChar = true ∧ s ∉ keywords)
    ⟨fun h => ⟨h.1, h.2.1, h.2.2⟩, fun h => ⟨h.ne_empty, h.all_isWordChar, h.not_keyword⟩⟩

theorem isBlank_of_isWordChar {s : String} (hne : s ≠ "")
    (h : s.toList.all isWordChar = true) : Text.isBlank s = false := by
  cases hs : s.toList with
  | nil => exact absurd (String.toList_eq_nil_iff.1 hs) hne
  | cons c r =>
    have hc := List.all_eq_true.1 h c (hs ▸ List.mem_cons_self)
    simp only [isWordChar, Bool.and_eq_true, Bool.not_eq_true'] at hc
    rw [Text.isBlank, hs, List.all_cons, hc.1.1.1.1, Bool.false_and]

theorem IsName.isBlank_eq {s : String} (h : IsName s) : Text.isBlank s = false :=
  isBlank_of_isWordChar h.ne_empty h.all_isWordChar

/-- The variables that are given out to quantifiers are names. -/
theorem isName_variableName (n : Nat) : IsName (variableName n) := by
  have hp : (variableName n).toList = 'p' :: (Nat.repr n).toList := String.toList_append
  refine ⟨?_, ?_, fun hk => ?_⟩
  · rw [Ne, ← String.toList_eq_nil_iff, hp]
    exact List.cons_ne_nil _ _
  · have hword : isWordChar 'p' = true := by decide
    rw [hp, List.all_cons, hword, all_isWordChar (all_repr n), Bool.and_self]
  · have hp' : ∀ k ∈ keywords, k.toList.head? ≠ some 'p' := by decide
    exact hp' _ hk (by rw [hp]; rfl)

theorem all_isWordChar_intercalate {ss : List String}
    (h : ∀ s ∈ ss, s.toList.all isWordChar = true) :
    ("/".intercalate ss).toList.all isWordChar = true := by
  have hslash : "/".toList.all isWordChar = true := by decide
  induction ss with
  | nil => rfl
  | cons s rest ih =>
    have hs := h s List.mem_cons_self
    have hrest := ih fun t ht => h t (List.mem_cons_of_mem _ ht)
    cases rest with
    | nil => rwa [String.intercalate_singleton]
    | cons t more =>
      rw [String.intercalate_cons_cons, String.toList_append, String.toList_append,
        List.all_append, List.all_append, hs, hslash, hrest]
      rfl

end Filter

/-- A path of names. -/
structure Field.IsNamed (f : Field) : Prop where
  ne_nil : f.path ≠ []
  isName : ∀ s ∈ f.path, IsName s

instance (f : Field) : Decidable f.IsNamed :=
  decidable_of_iff (f.path ≠ [] ∧ ∀ s ∈ f.path, IsName s)
    ⟨fun h => ⟨h.1, h.2⟩, fun h => ⟨h.ne_nil, h.isName⟩⟩

namespace Field.IsNamed

variable {f : Field}

/-- Such a path is valid. -/
theorem written_eq (h : f.IsNamed) : f.written = .ok f.text := by
  have hany : f.path.any Text.isBlank = false := by
    rw [List.any_eq_false]
    intro s hs
    simp [(h.isName s hs).isBlank_eq]
  have hvalid : f.isValid = true := by
    simp [Field.isValid, hany, h.ne_nil]
  rw [Field.written, Field.validate, if_pos hvalid]
  rfl

theorem all_isWordChar_text (h : f.IsNamed) : f.text.toList.all isWordChar = true :=
  all_isWordChar_intercalate fun s hs => (h.isName s hs).all_isWordChar

theorem text_ne_empty (h : f.IsNamed) : f.text ≠ "" := by
  obtain ⟨path⟩ := f
  cases path with
  | nil => exact absurd rfl h.ne_nil
  | cons s rest =>
    have hs := (h.isName s List.mem_cons_self).ne_empty
    rw [Ne, ← String.toList_eq_nil_iff] at hs
    cases rest with
    | nil => simpa [Field.text, ← String.toList_eq_nil_iff] using hs
    | cons t more =>
      rw [Field.text, String.intercalate_cons_cons, Ne, ← String.toList_eq_nil_iff]
      simp [hs]

/-- Written out it is one word, and none with another meaning: if there is a slash in it, it is not
a keyword, and otherwise it is a single name. -/
theorem isOperand_text (h : f.IsNamed) : IsOperand f.text := by
  refine ⟨.word h.text_ne_empty h.all_isWordChar_text, fun hk => ?_⟩
  obtain ⟨path⟩ := f
  rcases path with _ | ⟨s, _ | ⟨t, more⟩⟩
  · exact absurd rfl h.ne_nil
  · rw [Field.text, String.intercalate_singleton] at hk
    exact (h.isName s List.mem_cons_self).not_keyword hk
  · have hslash : ∀ k ∈ keywords, '/' ∉ k.toList := by decide
    refine hslash _ hk ?_
    rw [Field.text, String.intercalate_cons_cons]
    simp

end Field.IsNamed

end EntityQuery
