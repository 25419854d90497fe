import EntityQuery.Text.Percent
import Mathlib.Tactic.IntervalCases

/-!
# Texts survive their encodings

A text goes into a URL in two steps: its characters become bytes, and some of the bytes become
escapes.  Both can be undone, whatever the text.

* `Utf8.decode_encodeChars`: reading the bytes of a text gives its characters, without a gap.  The reader
  is a machine that narrows the range of a second byte after some first bytes, so the proof says what
  each first byte opens (`lead_two`, `lead_three`, `lead_four`) and what a byte in range does to that
  (`decodeFrom_some`).  That no character is a surrogate is what keeps bytes behind `ED` in range.
* `Percent.decode_encodeChars`: resolving escapes gives the bytes of the text, as long as percent
  signs are escaped themselves.  Which other characters are kept does not matter.

`Percent.text?` takes both steps at once, and `Percent.hasEscape` tells the texts that would not
stand for themselves if they were read in this way without having been encoded.
-/

set_option autoImplicit false

namespace EntityQuery.Text

/-! ## Bytes of a character -/

namespace Utf8

theorem lead_one {n : Nat} (h : n < 0x80) : lead (UInt8.ofNat n) = .whole (Char.ofNat n) := by
  have hn : (UInt8.ofNat n).toNat = n := by
    rw [UInt8.toNat_ofNat', Nat.mod_eq_of_lt (by omega)]
  simp only [lead, hn]
  rw [if_pos h]

theorem lead_two {n : Nat} (h : 0xC2 ≤ n) (h' : n ≤ 0xDF) :
    lead (UInt8.ofNat n) = .start ⟨1, n - 0xC0, 0x80, 0xBF⟩ := by
  interval_cases n <;> rfl

theorem lead_three {n : Nat} (h : 0xE0 ≤ n) (h' : n ≤ 0xEF) :
    lead (UInt8.ofNat n) =
      .start ⟨2, n - 0xE0, if n = 0xE0 then 0xA0 else 0x80, if n = 0xED then 0x9F else 0xBF⟩ := by
  interval_cases n <;> rfl

theorem lead_four {n : Nat} (h : 0xF0 ≤ n) (h' : n ≤ 0xF4) :
    lead (UInt8.ofNat n) =
      .start ⟨3, n - 0xF0, if n = 0xF0 then 0x90 else 0x80, if n = 0xF4 then 0x8F else 0xBF⟩ := by
  interval_cases n <;> rfl

/-- Between characters, the first byte decides. -/
theorem decodeFrom_none_cons (b : UInt8) (r : List UInt8) :
    decodeFrom none (b :: r) =
      match lead b with
      | .whole c => some c :: decodeFrom none r
      | .start s => decodeFrom (some s) r
      | .stray => none :: decodeFrom none r := rfl

/-- A byte in range carries an unfinished sequence on. -/
theorem decodeFrom_some {needed value n : Nat} {low high : UInt8} (hn : n < 256)
    (hlow : low.toNat ≤ n) (hhigh : n ≤ high.toNat) (r : List UInt8) :
    decodeFrom (some ⟨needed, value, low, high⟩) (UInt8.ofNat n :: r) =
      if needed ≤ 1 then some (Char.ofNat (value * 64 + (n - 0x80))) :: decodeFrom none r
      else decodeFrom (some ⟨needed - 1, value * 64 + (n - 0x80), 0x80, 0xBF⟩) r := by
  have hb : (UInt8.ofNat n).toNat = n := by
    rw [UInt8.toNat_ofNat', Nat.mod_eq_of_lt (by omega)]
  have hrange : (decide (low ≤ UInt8.ofNat n) && decide (UInt8.ofNat n ≤ high)) = true := by
    simp only [UInt8.le_iff_toNat_le, hb, hlow, hhigh, decide_true, Bool.and_self]
  rw [decodeFrom, if_pos hrange, hb]

/-- After the second byte, any byte that carries on does. -/
theorem decodeFrom_tail (needed value k : Nat) (r : List UInt8) :
    decodeFrom (some ⟨needed, value, 0x80, 0xBF⟩) (UInt8.ofNat (k % 64 + 0x80) :: r) =
      if needed ≤ 1 then some (Char.ofNat (value * 64 + k % 64)) :: decodeFrom none r
      else decodeFrom (some ⟨needed - 1, value * 64 + k % 64, 0x80, 0xBF⟩) r := by
  have hlow : (0x80 : UInt8).toNat ≤ k % 64 + 0x80 := Nat.le_add_left ..
  have hhigh : k % 64 + 0x80 ≤ (0xBF : UInt8).toNat := by
    have h : (0xBF : UInt8).toNat = 0xBF := rfl
    omega
  rw [decodeFrom_some (by omega) hlow hhigh, Nat.add_sub_cancel]

section Sequences

variable {v : Nat} (r : List UInt8)

theorem decodeFrom_two (hv : 0x80 ≤ v) (hv' : v < 0x800) :
    decodeFrom none (UInt8.ofNat (v / 64 % 32 + 0xC0) :: UInt8.ofNat (v % 64 + 0x80) :: r) =
      some (Char.ofNat v) :: decodeFrom none r := by
  have hfirst : v / 64 % 32 = v / 64 := Nat.mod_eq_of_lt (by omega)
  have hsum : v / 64 * 64 + v % 64 = v := by omega
  rw [hfirst, decodeFrom_none_cons, lead_two (by omega) (by omega), Nat.add_sub_cancel]
  simp only [decodeFrom_tail, Nat.le_refl, if_true, hsum]

/-- The second byte is in range, as no character is a surrogate. -/
theorem decodeFrom_three (hv : 0x800 ≤ v) (hv' : v < 0x10000)
    (hvalid : v < 0xD800 ∨ 0xDFFF < v) :
    decodeFrom none (UInt8.ofNat (v / 4096 % 16 + 0xE0) :: UInt8.ofNat (v / 64 % 64 + 0x80) ::
        UInt8.ofNat (v % 64 + 0x80) :: r) =
      some (Char.ofNat v) :: decodeFrom none r := by
  have hfirst : v / 4096 % 16 = v / 4096 := Nat.mod_eq_of_lt (by omega)
  have hsum : (v / 4096 * 64 + v / 64 % 64) * 64 + v % 64 = v := by omega
  have hlow : (if v / 4096 + 0xE0 = 0xE0 then (0xA0 : UInt8) else 0x80).toNat ≤
      v / 64 % 64 + 0x80 := by
    split
    · have h : (0xA0 : UInt8).toNat = 0xA0 := rfl
      omega
    · exact Nat.le_add_left ..
  have hhigh : v / 64 % 64 + 0x80 ≤
      (if v / 4096 + 0xE0 = 0xED then (0x9F : UInt8) else 0xBF).toNat := by
    split
    · have h : (0x9F : UInt8).toNat = 0x9F := rfl
      omega
    · have h : (0xBF : UInt8).toNat = 0xBF := rfl
      omega
  rw [hfirst, decodeFrom_none_cons, lead_three (by omega) (by omega), Nat.add_sub_cancel]
  simp only [decodeFrom_some (show v / 64 % 64 + 0x80 < 256 by omega) hlow hhigh,
    Nat.add_sub_cancel, decodeFrom_tail, Nat.reduceLeDiff, Nat.reduceSub, if_false, if_true, hsum]

/-- The second byte is in range, as no character is past the last one. -/
theorem decodeFrom_four (hv : 0x10000 ≤ v) (hv' : v < 0x110000) :
    decodeFrom none (UInt8.ofNat (v / 262144 % 8 + 0xF0) :: UInt8.ofNat (v / 4096 % 64 + 0x80) ::
        UInt8.ofNat (v / 64 % 64 + 0x80) :: UInt8.ofNat (v % 64 + 0x80) :: r) =
      some (Char.ofNat v) :: decodeFrom none r := by
  have hfirst : v / 262144 % 8 = v / 262144 := Nat.mod_eq_of_lt (by omega)
  have hsum : ((v / 262144 * 64 + v / 4096 % 64) * 64 + v / 64 % 64) * 64 + v % 64 = v := by omega
  have hlow : (if v / 262144 + 0xF0 = 0xF0 then (0x90 : UInt8) else 0x80).toNat ≤
      v / 4096 % 64 + 0x80 := by
    split
    · have h : (0x90 : UInt8).toNat = 0x90 := rfl
      omega
    · exact Nat.le_add_left ..
  have hhigh : v / 4096 % 64 + 0x80 ≤
      (if v / 262144 + 0xF0 = 0xF4 then (0x8F : UInt8) else 0xBF).toNat := by
    split
    · have h : (0x8F : UInt8).toNat = 0x8F := rfl
      omega
    · have h : (0xBF : UInt8).toNat = 0xBF := rfl
      omega
  rw [hfirst, decodeFrom_none_cons, lead_four (by omega) (by omega), Nat.add_sub_cancel]
  simp only [decodeFrom_some (show v / 4096 % 64 + 0x80 < 256 by omega) hlow hhigh,
    Nat.add_sub_cancel, decodeFrom_tail, Nat.reduceLeDiff, Nat.reduceSub, if_false, if_true, hsum]

end Sequences

/-- **The bytes of a character are read as that character**, whatever follows them. -/
theorem decodeFrom_encodeChar (c : Char) (r : List UInt8) :
    decodeFrom none (String.utf8EncodeChar c ++ r) = some c :: decodeFrom none r := by
  have hvalid : c.toNat < 0xD800 ∨ (0xDFFF < c.toNat ∧ c.toNat < 0x110000) := c.valid
  have hval : c.val.toNat = c.toNat := rfl
  have hc : some c = some (Char.ofNat c.toNat) := by rw [Char.ofNat_toNat]
  rw [String.utf8EncodeChar.eq_def, hval, hc]
  dsimp only
  split
  · rw [List.singleton_append, decodeFrom_none_cons, lead_one (by omega)]
  · split
    · exact decodeFrom_two r (by omega) (by omega)
    · split
      · exact decodeFrom_three r (by omega) (by omega) (by omega)
      · exact decodeFrom_four r (by omega) (by omega)

/-- Reading the bytes of characters gives them back, without a gap. -/
theorem decode_encodeChars (cs : List Char) :
    decode (cs.flatMap String.utf8EncodeChar) = cs.map some := by
  induction cs with
  | nil => rfl
  | cons c r ih =>
    rw [decode] at ih ⊢
    rw [List.flatMap_cons, decodeFrom_encodeChar, ih, List.map_cons]

theorem strict?_encodeChars (cs : List Char) :
    strict? (cs.flatMap String.utf8EncodeChar) = some (String.ofList cs) := by
  have hall : (cs.map some).mapM id = some cs := by
    induction cs with
    | nil => rfl
    | cons c r ih =>
      rw [List.map_cons, List.mapM_cons, ih]
      rfl
  rw [strict?, decode_encodeChars, hall]
  rfl

end Utf8

/-! ## Escapes -/

namespace Percent

/-- The text that a text with escapes stands for, if that is one. -/
def text? (cs : List Char) : Option String := Utf8.strict? (decode cs)

theorem hexValue?_hexUpper : ∀ n < 16, hexValue? (hexUpper n) = some n := by decide

theorem decode_percent (a b : Char) (r : List Char) :
    decode ('%' :: a :: b :: r) =
      match hexValue? a, hexValue? b with
      | some x, some y => (x * 16 + y).toUInt8 :: decode r
      | _, _ => '%'.toNat.toUInt8 :: decode (a :: b :: r) := rfl

theorem decode_escape (b : UInt8) (r : List Char) : decode (escape b ++ r) = b :: decode r := by
  have hb := b.toNat_lt
  have hsum : b.toNat / 16 * 16 + b.toNat % 16 = b.toNat := by omega
  have hescape : escape b ++ r = '%' :: hexUpper (b.toNat / 16) :: hexUpper (b.toNat % 16) :: r :=
    rfl
  rw [hescape, decode_percent, hexValue?_hexUpper _ (by omega), hexValue?_hexUpper _ (by omega)]
  simp only [hsum]
  rw [Nat.toUInt8_eq, UInt8.ofNat_toNat]

theorem decode_escapes (bs : List UInt8) (r : List Char) :
    decode (bs.flatMap escape ++ r) = bs ++ decode r := by
  induction bs with
  | nil => rfl
  | cons b rest ih => rw [List.flatMap_cons, List.append_assoc, decode_escape, ih, List.cons_append]

theorem decode_cons_of_ne {c : Char} (h : c ≠ '%') (r : List Char) :
    decode (c :: r) = String.utf8EncodeChar c ++ decode r := by
  rw [decode]
  rintro a b r' rfl
  exact absurd rfl h

section Keeps

variable {keeps : Char → Bool}

theorem decode_encodeChar (h : keeps '%' = false) (c : Char) (r : List Char) :
    decode (encodeChar keeps c ++ r) = String.utf8EncodeChar c ++ decode r := by
  rw [encodeChar]
  split
  · next hc =>
    have hne : c ≠ '%' := by
      rintro rfl
      rw [h, Bool.and_false] at hc
      cases hc
    exact decode_cons_of_ne hne r
  · exact decode_escapes _ r

/-- **Escapes stand for the bytes of what was escaped**, if percent signs are among it. -/
theorem decode_encodeChars (h : keeps '%' = false) (cs : List Char) :
    decode (encodeChars keeps cs) = cs.flatMap String.utf8EncodeChar := by
  induction cs with
  | nil => rfl
  | cons c r ih =>
    have hcons : encodeChars keeps (c :: r) = encodeChar keeps c ++ encodeChars keeps r :=
      List.flatMap_cons ..
    rw [hcons, decode_encodeChar h, ih, List.flatMap_cons]

theorem text?_encode (h : keeps '%' = false) (s : String) :
    text? (encode keeps s).toList = some s := by
  rw [text?, encode, String.toList_ofList, decode_encodeChars h, Utf8.strict?_encodeChars,
    String.ofList_toList]

/-- What a character is written as: itself, if it is kept, or percent signs and digits of bytes. -/
theorem mem_encodeChar {c d : Char} (h : d ∈ encodeChar keeps c) :
    d ∈ "%0123456789ABCDEF".toList ∨ d = c ∧ c.toNat < 128 ∧ keeps c = true := by
  have hhex : ∀ n < 16, hexUpper n ∈ "%0123456789ABCDEF".toList := by decide
  rw [encodeChar] at h
  split at h
  · next hkept =>
    simp only [Bool.and_eq_true, decide_eq_true_eq] at hkept
    exact .inr ⟨List.mem_singleton.1 h, hkept⟩
  · obtain ⟨b, -, hb⟩ := List.mem_flatMap.1 h
    have hlt := b.toNat_lt
    simp only [escape, List.mem_cons, List.not_mem_nil, or_false] at hb
    rcases hb with rfl | rfl | rfl
    · exact .inl (by decide)
    · exact .inl (hhex _ (by omega))
    · exact .inl (hhex _ (by omega))

/-- What an encoded text consists of: percent signs, digits of bytes, and characters of ASCII that
are kept. -/
theorem mem_encodeChars {c : Char} {cs : List Char} (h : c ∈ encodeChars keeps cs) :
    c ∈ "%0123456789ABCDEF".toList ∨ (c.toNat < 128 ∧ keeps c = true) := by
  obtain ⟨d, -, hd⟩ := List.mem_flatMap.1 h
  rcases mem_encodeChar hd with hc | ⟨rfl, hkept⟩
  · exact .inl hc
  · exact .inr hkept

/-- What an encoding leaves as it is. -/
def IsKept (keeps : Char → Bool) (cs : List Char) : Prop := ∀ c ∈ cs, c.toNat < 128 ∧ keeps c = true

theorem encodeChar_of_kept {c : Char} (h : c.toNat < 128 ∧ keeps c = true) :
    encodeChar keeps c = [c] := by
  rw [encodeChar, h.2, decide_eq_true h.1]
  rfl

theorem encodeChars_of_isKept {cs : List Char} (h : IsKept keeps cs) :
    encodeChars keeps cs = cs := by
  induction cs with
  | nil => rfl
  | cons c r ih =>
    obtain ⟨hc, hr⟩ := List.forall_mem_cons.1 h
    have hcons : encodeChars keeps (c :: r) = encodeChar keeps c ++ encodeChars keeps r :=
      List.flatMap_cons ..
    rw [hcons, encodeChar_of_kept hc, ih hr]
    rfl

/-- **An encoding that keeps its own escapes leaves what it has written as it is.** -/
theorem isKept_encodeChars (h : "%0123456789ABCDEF".toList.all keeps = true) (cs : List Char) :
    IsKept keeps (encodeChars keeps cs) := by
  have hascii : ("%0123456789ABCDEF".toList.all fun c => c.toNat < 128) = true := by decide
  intro c hc
  rcases mem_encodeChars hc with hc | hc
  · exact ⟨of_decide_eq_true (List.all_eq_true.1 hascii c hc), List.all_eq_true.1 h c hc⟩
  · exact hc

end Keeps

/-- Whether a text begins with the digits of a byte. -/
def beginsWithByte : List Char → Bool
  | a :: b :: _ => (hexValue? a).isSome && (hexValue? b).isSome
  | _ => false

/-- Whether there is an escape in a text. -/
def hasEscape : List Char → Bool
  | [] => false
  | c :: r => (c == '%' && beginsWithByte r) || hasEscape r

theorem hasEscape_cons_of_ne {c : Char} (h : c ≠ '%') (r : List Char) :
    hasEscape (c :: r) = hasEscape r := by
  rw [hasEscape, beq_eq_false_iff_ne.2 h, Bool.false_and, Bool.false_or]

theorem hasEscape_of_not_mem {cs : List Char} (h : '%' ∉ cs) : hasEscape cs = false := by
  induction cs with
  | nil => rfl
  | cons c r ih =>
    obtain ⟨hc, hr⟩ := not_or.1 (mt List.mem_cons.2 h)
    rw [hasEscape_cons_of_ne (Ne.symm hc), ih hr]

/-- A character that does not begin an escape. -/
theorem hasEscape_cons {c : Char} {r : List Char}
    (h : ∀ a b r', c = '%' → r = a :: b :: r' →
      ∀ x y, hexValue? a = some x → hexValue? b = some y → False) :
    hasEscape (c :: r) = hasEscape r := by
  by_cases hc : c = '%'
  · have hbyte : beginsWithByte r = false := by
      rcases r with _ | ⟨a, _ | ⟨b, r'⟩⟩
      · rfl
      · rfl
      · cases ha : hexValue? a with
        | none => rw [beginsWithByte, ha]; rfl
        | some x =>
          cases hb : hexValue? b with
          | none => rw [beginsWithByte, ha, hb]; rfl
          | some y => exact (h a b r' hc rfl x y ha hb).elim
    rw [hasEscape, hbyte, Bool.and_false, Bool.false_or]
  · exact hasEscape_cons_of_ne hc r

/-- Resolving escapes loses bytes, and nothing else does. -/
theorem length_decode_le (cs : List Char) :
    (decode cs).length + (if hasEscape cs then 1 else 0) ≤
      (cs.flatMap String.utf8EncodeChar).length := by
  have hpercent : String.utf8EncodeChar '%' = ['%'.toNat.toUInt8] := by decide
  fun_induction decode cs with
  | case1 => exact Nat.le_refl 0
  | case2 a b r x y ha hb ih =>
    have hpos (c : Char) : 0 < (String.utf8EncodeChar c).length := by
      rw [String.length_utf8EncodeChar]
      exact c.utf8Size_pos
    have h1 := hpos '%'
    have h2 := hpos a
    simp only [List.flatMap_cons, List.length_append, List.length_cons]
    split <;> omega
  | case3 a b r h ih =>
    rw [hasEscape_cons (fun _ _ _ _ heq => by cases heq; exact h), List.flatMap_cons, hpercent,
      List.length_cons, List.length_append, List.length_singleton]
    omega
  | case4 c r h ih =>
    rw [hasEscape_cons (fun a b r' hc hr => (h a b r' hc hr).elim), List.flatMap_cons,
      List.length_append, List.length_append]
    omega

/-- **A text stands for itself exactly if there is no escape in it.** -/
theorem decode_eq_iff {cs : List Char} :
    decode cs = cs.flatMap String.utf8EncodeChar ↔ hasEscape cs = false := by
  refine ⟨fun h => ?_, fun h => ?_⟩
  · have hlen := length_decode_le cs
    rw [h] at hlen
    cases hcs : hasEscape cs with
    | false => rfl
    | true =>
      rw [hcs, if_pos rfl] at hlen
      omega
  · have hpercent : String.utf8EncodeChar '%' = ['%'.toNat.toUInt8] := by decide
    fun_induction decode cs with
    | case1 => rfl
    | case2 a b r x y ha hb ih =>
      rw [hasEscape, beginsWithByte, ha, hb] at h
      cases h
    | case3 a b r hex ih =>
      rw [hasEscape_cons (fun _ _ _ _ heq => by cases heq; exact hex)] at h
      have hcons : ('%' :: a :: b :: r).flatMap String.utf8EncodeChar =
          String.utf8EncodeChar '%' ++ (a :: b :: r).flatMap String.utf8EncodeChar :=
        List.flatMap_cons ..
      rw [ih h, hcons, hpercent, List.singleton_append]
    | case4 c r hc ih =>
      rw [hasEscape_cons (fun a b r' hp hr => (hc a b r' hp hr).elim)] at h
      rw [ih h, List.flatMap_cons]

end Percent

end EntityQuery.Text
