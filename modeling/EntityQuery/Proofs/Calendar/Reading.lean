import EntityQuery.Proofs.Calendar.Days
import EntityQuery.Proofs.Calendar.Text

/-!
# Reading internet timestamps

An `InternetTimestamp` is a date, a time of day and an offset, with the text that they are written as.
Exactly these texts are read (`Calendar.internetTimestamp?_text`,
`Calendar.exists_of_internetTimestamp?`), and what is read is the day that the instant lies in.

The readers take a list of characters and leave the rest, so each of them has a lemma that says what it
takes away: numbers of fixed width (`Calendar.number_eq_some`), fractions, of which nine digits
count (`Calendar.fraction_append`), and offsets (`Calendar.offset_eq_some`).
-/

set_option autoImplicit false

namespace EntityQuery

namespace Calendar

variable {cs r : List Char}

/-! ## Numbers -/

/-- Nothing but digits. -/
def IsDigits (cs : List Char) : Prop := ∀ c ∈ cs, c.isDigit = true

/-- A text that does not begin with a digit. -/
def EndsNumber (cs : List Char) : Prop := ∀ c ∈ cs.head?, c.isDigit = false

theorem takeDigits_append {ds : List Char} (hds : IsDigits ds) {limit : Nat}
    (hlimit : ds.length ≤ limit) (hr : ds.length = limit ∨ EndsNumber r) (n : Nat) :
    takeDigits limit n (ds ++ r) = (ds.length, Nat.ofDigitChars 10 ds n, r) := by
  induction ds generalizing limit n with
  | nil =>
    cases limit with
    | zero => rfl
    | succ limit =>
      cases r with
      | nil => rfl
      | cons c r =>
        have hc : c.isDigit = false := (hr.resolve_left (by simp)) c rfl
        rw [List.nil_append, takeDigits, if_neg (by rw [hc]; exact Bool.false_ne_true)]
        rfl
  | cons c ds ih =>
    obtain ⟨hc, hds⟩ := List.forall_mem_cons.1 hds
    cases limit with
    | zero => cases hlimit
    | succ limit =>
      rw [List.length_cons] at hlimit hr
      rw [List.cons_append, takeDigits, if_pos hc,
        ih hds (by omega) (hr.imp_left (by omega)), Nat.ofDigitChars_cons, Nat.mul_comm n]
      rfl

/-- What is taken is a run of digits that the text begins with. -/
theorem exists_of_takeDigits {limit n count m : Nat} (h : takeDigits limit n cs = (count, m, r)) :
    ∃ ds, cs = ds ++ r ∧ ds.length = count ∧ count ≤ limit ∧ IsDigits ds ∧
      m = Nat.ofDigitChars 10 ds n := by
  induction limit generalizing n cs count with
  | zero =>
    obtain ⟨rfl, rfl, rfl⟩ := h
    exact ⟨[], rfl, rfl, Nat.le_refl 0, nofun, rfl⟩
  | succ limit ih =>
    cases cs with
    | nil =>
      obtain ⟨rfl, rfl, rfl⟩ := h
      exact ⟨[], rfl, rfl, Nat.zero_le _, nofun, rfl⟩
    | cons c rest =>
      rw [takeDigits] at h
      split at h
      · next hc =>
        obtain ⟨count', hrest⟩ : ∃ count', takeDigits limit (n * 10 + (c.toNat - '0'.toNat)) rest =
            (count', m, r) ∧ count = count' + 1 := by
          obtain ⟨rfl, rfl, rfl⟩ := h
          exact ⟨_, rfl, rfl⟩
        obtain ⟨hrest, rfl⟩ := hrest
        obtain ⟨ds, rfl, hlength, hle, hds, hm⟩ := ih hrest
        refine ⟨c :: ds, rfl, by rw [List.length_cons, hlength], by omega,
          List.forall_mem_cons.2 ⟨hc, hds⟩, ?_⟩
        rw [Nat.ofDigitChars_cons, Nat.mul_comm 10 n]
        exact hm
      · obtain ⟨rfl, rfl, rfl⟩ := h
        exact ⟨[], rfl, rfl, Nat.zero_le _, nofun, rfl⟩

theorem number_append {ds : List Char} (hds : IsDigits ds) {least most : Nat}
    (hleast : least ≤ ds.length) (hmost : ds.length ≤ most)
    (hr : ds.length = most ∨ EndsNumber r) :
    number least most (ds ++ r) = some (Nat.ofDigitChars 10 ds 0, r) := by
  rw [number, takeDigits_append hds hmost hr]
  exact if_pos hleast

theorem isDigits_padded (width n : Nat) : IsDigits (Date.padded width n).toList :=
  fun _ hc => Date.isDigit_of_mem_padded hc

/-- A number of fixed width is read up to its end, whatever follows. -/
theorem number_padded {width n : Nat} (hwidth : 0 < width) (hn : n < 10 ^ width) {least : Nat}
    (hleast : least ≤ width) (r : List Char) :
    number least width ((Date.padded width n).toList ++ r) = some (n, r) := by
  have hlength := Date.length_padded hwidth hn
  rw [number_append (isDigits_padded width n) (by omega) (by omega) (.inl hlength),
    Date.ofDigitChars_padded]

theorem toNat_of_isDigit {c : Char} (h : c.isDigit = true) : 48 ≤ c.toNat ∧ c.toNat ≤ 57 := by
  simpa [Char.isDigit, UInt32.le_iff_toNat_le] using h

theorem ofDigitChars_cons_zero (c : Char) (ds : List Char) :
    Nat.ofDigitChars 10 (c :: ds) 0 =
      10 ^ ds.length * (c.toNat - '0'.toNat) + Nat.ofDigitChars 10 ds 0 := by
  rw [Nat.ofDigitChars_cons, Nat.mul_zero, Nat.zero_add, Nat.ofDigitChars_eq_ofDigitChars_zero]

theorem ofDigitChars_lt {ds : List Char} (hds : IsDigits ds) :
    Nat.ofDigitChars 10 ds 0 < 10 ^ ds.length := by
  induction ds with
  | nil => exact Nat.one_pos
  | cons c ds ih =>
    obtain ⟨hc, hds⟩ := List.forall_mem_cons.1 hds
    have hrest := ih hds
    have hdigit : c.toNat - '0'.toNat ≤ 9 := Nat.sub_le_of_le_add (toNat_of_isDigit hc).2
    have hfirst := Nat.mul_le_mul_left (10 ^ ds.length) hdigit
    rw [ofDigitChars_cons_zero, List.length_cons, Nat.pow_succ]
    omega

/-- Runs of digits of one length are known from their numbers. -/
theorem eq_of_ofDigitChars_eq {ds es : List Char} (hds : IsDigits ds) (hes : IsDigits es)
    (hlength : ds.length = es.length)
    (h : Nat.ofDigitChars 10 ds 0 = Nat.ofDigitChars 10 es 0) : ds = es := by
  induction ds generalizing es with
  | nil => exact (List.eq_nil_of_length_eq_zero hlength.symm).symm
  | cons c ds ih =>
    cases es with
    | nil => cases hlength
    | cons d es =>
      obtain ⟨hc, hds⟩ := List.forall_mem_cons.1 hds
      obtain ⟨hd, hes⟩ := List.forall_mem_cons.1 hes
      have hlength : ds.length = es.length := Nat.succ.inj hlength
      have hdlt := ofDigitChars_lt hds
      have helt := ofDigitChars_lt hes
      rw [ofDigitChars_cons_zero, ofDigitChars_cons_zero, hlength] at h
      rw [hlength] at hdlt
      have hpos : 0 < 10 ^ es.length := Nat.lt_of_le_of_lt (Nat.zero_le _) helt
      have hfirst := congrArg (· / 10 ^ es.length) h
      have hrest := congrArg (· % 10 ^ es.length) h
      simp only [Nat.mul_add_div hpos, Nat.div_eq_of_lt hdlt, Nat.div_eq_of_lt helt,
        Nat.add_zero] at hfirst
      simp only [Nat.mul_add_mod_self_left, Nat.mod_eq_of_lt hdlt, Nat.mod_eq_of_lt helt] at hrest
      have hzero : '0'.toNat = 48 := rfl
      have hc' := toNat_of_isDigit hc
      have hd' := toNat_of_isDigit hd
      rw [ih hds hes hlength hrest, Char.toNat_inj.1 (show c.toNat = d.toNat by omega)]

/-- **A number of fixed width is read exactly where one is written.** -/
theorem number_eq_some {width n : Nat} (hwidth : 0 < width) :
    number width width cs = some (n, r) ↔
      n < 10 ^ width ∧ cs = (Date.padded width n).toList ++ r := by
  constructor
  · intro h
    rw [number] at h
    obtain ⟨⟨count, m, rest⟩, htake⟩ : ∃ taken, takeDigits width 0 cs = taken := ⟨_, rfl⟩
    rw [htake] at h
    dsimp only at h
    split at h
    · next hle =>
      obtain ⟨rfl, rfl⟩ := Prod.mk.inj (Option.some.inj h)
      obtain ⟨ds, rfl, hcount, hle', hds, rfl⟩ := exists_of_takeDigits htake
      have hlength : ds.length = width := by omega
      have hlt := ofDigitChars_lt hds
      rw [hlength] at hlt
      refine ⟨hlt, congrArg (· ++ rest) ?_⟩
      refine eq_of_ofDigitChars_eq hds (isDigits_padded _ _) ?_
        (Date.ofDigitChars_padded _ _).symm
      rw [hlength, Date.length_padded hwidth hlt]
    · cases h
  · intro h
    rw [h.2]
    exact number_padded hwidth h.1 (Nat.le_refl _) r

theorem char_eq_some {c : Char} : char c cs = some ((), r) ↔ cs = c :: r := by
  cases cs with
  | nil => exact iff_of_false nofun nofun
  | cons d rest =>
    rw [char]
    by_cases h : d = c
    · simp [h]
    · simp [h]

theorem char_cons (c : Char) (r : List Char) : char c (c :: r) = some ((), r) :=
  char_eq_some.2 rfl

/-- The marks between the date and the time. -/
def separators : List Char := ['T', 't', ' ']

theorem separator_eq_some : separator cs = some ((), r) ↔ ∃ c ∈ separators, cs = c :: r := by
  constructor
  · intro h
    rw [separator.eq_def] at h
    split at h
    · exact ⟨'T', by decide, by rw [(Prod.mk.inj (Option.some.inj h)).2]⟩
    · exact ⟨'t', by decide, by rw [(Prod.mk.inj (Option.some.inj h)).2]⟩
    · exact ⟨' ', by decide, by rw [(Prod.mk.inj (Option.some.inj h)).2]⟩
    · cases h
  · rintro ⟨c, hc, rfl⟩
    simp only [separators, List.mem_cons, List.not_mem_nil, or_false] at hc
    rcases hc with rfl | rfl | rfl <;> rfl

/-! ## Fractions and offsets -/

/-- The fraction of a second, behind a point if there is one. -/
def fractionPart : Option (List Char) → List Char
  | none => []
  | some ds => '.' :: ds

/-- The digits behind a point, of which there is one at least. -/
def IsFraction (digits : Option (List Char)) : Prop := ∀ ds ∈ digits, IsDigits ds ∧ ds ≠ []

theorem nano_lt {ds : List Char} (hds : IsDigits ds) (hlength : ds.length ≤ 9) :
    Nat.ofDigitChars 10 ds 0 * Nat.pow 10 (9 - ds.length) < 1000000000 := by
  have hpow : 10 ^ ds.length * 10 ^ (9 - ds.length) = 1000000000 := by
    rw [← Nat.pow_add, Nat.add_sub_cancel' hlength]
  have hpos : 0 < 10 ^ (9 - ds.length) := Nat.pow_pos (by decide)
  calc Nat.ofDigitChars 10 ds 0 * Nat.pow 10 (9 - ds.length)
      < 10 ^ ds.length * 10 ^ (9 - ds.length) := Nat.mul_lt_mul_of_pos_right (ofDigitChars_lt hds) hpos
    _ = 1000000000 := hpow

theorem dropWhile_of_endsNumber (hr : EndsNumber r) : r.dropWhile Char.isDigit = r := by
  cases r with
  | nil => rfl
  | cons c r => exact List.dropWhile_cons_of_neg (by rw [hr c rfl]; exact Bool.false_ne_true)

/-- Nine digits count, and those behind them are skipped. -/
theorem fraction_append {ds : List Char} (hds : IsDigits ds) (hne : ds ≠ []) (hr : EndsNumber r) :
    ∃ nano < 1000000000, fraction (ds ++ r) = some (nano, r) := by
  have hfront : IsDigits (ds.take 9) := fun c hc => hds c (List.mem_of_mem_take hc)
  have hback : ∀ c ∈ ds.drop 9, c.isDigit = true := fun c hc => hds c (List.mem_of_mem_drop hc)
  have hlimit : (ds.take 9).length ≤ 9 := by
    rw [List.length_take]
    omega
  have hends : (ds.take 9).length = 9 ∨ EndsNumber (ds.drop 9 ++ r) := by
    by_cases hlength : ds.length ≤ 9
    · rw [List.drop_eq_nil_of_le hlength]
      exact .inr hr
    · rw [List.length_take]
      exact .inl (by omega)
  have hcount : 1 ≤ (ds.take 9).length := by
    have := List.length_pos_iff.2 hne
    rw [List.length_take]
    omega
  have htake := takeDigits_append hfront hlimit hends 0
  rw [← List.append_assoc, List.take_append_drop] at htake
  refine ⟨_, nano_lt hfront hlimit, ?_⟩
  rw [fraction, htake]
  dsimp only
  rw [if_pos hcount, List.dropWhile_append_of_pos hback, dropWhile_of_endsNumber hr]

theorem exists_of_fraction {nano : Nat} (h : fraction cs = some (nano, r)) :
    nano < 1000000000 ∧ ∃ ds, IsDigits ds ∧ ds ≠ [] ∧ cs = ds ++ r := by
  rw [fraction] at h
  obtain ⟨⟨count, n, rest⟩, htake⟩ : ∃ taken, takeDigits 9 0 cs = taken := ⟨_, rfl⟩
  rw [htake] at h
  dsimp only at h
  split at h
  · next hcount =>
    obtain ⟨rfl, rfl⟩ := Prod.mk.inj (Option.some.inj h)
    obtain ⟨front, rfl, rfl, hlimit, hfront, rfl⟩ := exists_of_takeDigits htake
    refine ⟨nano_lt hfront hlimit, front ++ rest.takeWhile Char.isDigit, ?_, ?_, ?_⟩
    · intro c hc
      rcases List.mem_append.1 hc with hc | hc
      · exact hfront c hc
      · exact List.all_eq_true.1 List.all_takeWhile c hc
    · exact List.append_ne_nil_of_left_ne_nil (List.ne_nil_of_length_pos hcount) _
    · rw [List.append_assoc, List.takeWhile_append_dropWhile]
  · cases h

theorem optionalFraction_of_ne {c : Char} (h : c ≠ '.') (rest : List Char) :
    optionalFraction (c :: rest) = some (0, c :: rest) := by
  rw [optionalFraction]
  rintro r' heq
  exact h (List.cons.inj heq).1

theorem optionalFraction_append {digits : Option (List Char)} (hdigits : IsFraction digits)
    (hr : EndsNumber r) (hpoint : ∀ c ∈ r.head?, c ≠ '.') :
    ∃ nano < 1000000000, optionalFraction (fractionPart digits ++ r) = some (nano, r) := by
  cases digits with
  | none =>
    refine ⟨0, by decide, ?_⟩
    cases r with
    | nil => rfl
    | cons c rest => exact optionalFraction_of_ne (hpoint c rfl) rest
  | some ds =>
    obtain ⟨hds, hne⟩ := hdigits ds rfl
    exact fraction_append hds hne hr

theorem exists_of_optionalFraction {nano : Nat} (h : optionalFraction cs = some (nano, r)) :
    nano < 1000000000 ∧ ∃ digits, IsFraction digits ∧ cs = fractionPart digits ++ r := by
  rw [optionalFraction.eq_def] at h
  split at h
  · obtain ⟨hnano, ds, hds, hne, rfl⟩ := exists_of_fraction h
    exact ⟨hnano, some ds, fun ds' h' => Option.some.inj h' ▸ ⟨hds, hne⟩, rfl⟩
  · obtain ⟨rfl, rfl⟩ := Prod.mk.inj (Option.some.inj h)
    exact ⟨by decide, none, nofun, rfl⟩

/-- The signs of an offset, of which the last two say the same. -/
def signs : List Char := ['+', '-', '\u2212']

/-- An offset from Coordinated Universal Time, as it may be written. -/
inductive OffsetPart
  | none (mark : Char) (mark_mem : mark ∈ ['Z', 'z'])
  | clock (sign : Char) (sign_mem : sign ∈ signs) (hours minutes : Nat) (hours_lt : hours < 24)
    (minutes_lt : minutes < 60)

namespace OffsetPart

def text : OffsetPart → List Char
  | none mark _ => [mark]
  | clock sign _ hours minutes _ _ =>
    sign :: ((Date.padded 2 hours).toList ++ ':' :: (Date.padded 2 minutes).toList)

/-- How far local time is ahead, in seconds. -/
def seconds : OffsetPart → Int
  | none _ _ => 0
  | clock sign _ hours minutes _ _ =>
    if sign = '+' then hours * 3600 + minutes * 60 else -(hours * 3600 + minutes * 60)

theorem seconds_mem (o : OffsetPart) : -86400 ≤ o.seconds ∧ o.seconds ≤ 86400 := by
  cases o with
  | none mark mark_mem =>
    rw [seconds]
    omega
  | clock sign sign_mem hours minutes hours_lt minutes_lt =>
    rw [seconds]
    split <;> omega

end OffsetPart

/-- What is read behind the sign of an offset. -/
def clockOffset (negative : Bool) : Reads Int := fun cs => do
  let (hours, r) ← number 2 2 cs
  let ((), r) ← char ':' r
  let (minutes, r) ← number 2 2 r
  if hours < 24 ∧ minutes < 60 then
    let seconds : Int := hours * 3600 + minutes * 60
    some (if negative then -seconds else seconds, r)
  else none

theorem offset_sign {sign : Char} (h : sign ∈ signs) (rest : List Char) :
    offset (sign :: rest) = clockOffset (sign ≠ '+') rest := by
  simp only [signs, List.mem_cons, List.not_mem_nil, or_false] at h
  rcases h with rfl | rfl | rfl <;> rfl

theorem clockOffset_eq_some {negative : Bool} {seconds : Int} :
    clockOffset negative cs = some (seconds, r) ↔
      ∃ hours minutes : Nat, hours < 24 ∧ minutes < 60 ∧
        seconds = (if negative then -(hours * 3600 + minutes * 60 : Int)
          else hours * 3600 + minutes * 60) ∧
        cs = (Date.padded 2 hours).toList ++ ':' :: ((Date.padded 2 minutes).toList ++ r) := by
  constructor
  · intro h
    obtain ⟨⟨hours, rest₁⟩, hhours, h⟩ := Option.bind_eq_some_iff.1 h
    obtain ⟨⟨_, rest₂⟩, hcolon, h⟩ := Option.bind_eq_some_iff.1 h
    obtain ⟨⟨minutes, rest₃⟩, hminutes, h⟩ := Option.bind_eq_some_iff.1 h
    dsimp only at hcolon hminutes h
    split at h
    · next hrange =>
      obtain ⟨rfl, rfl⟩ := Prod.mk.inj (Option.some.inj h)
      have h1 := ((number_eq_some Nat.two_pos).1 hhours).2
      have h2 := char_eq_some.1 hcolon
      have h3 := ((number_eq_some Nat.two_pos).1 hminutes).2
      exact ⟨hours, minutes, hrange.1, hrange.2, rfl, by rw [h1, h2, h3]⟩
    · cases h
  · rintro ⟨hours, minutes, hh, hm, hseconds, hcs⟩
    rw [hcs, hseconds, clockOffset, number_padded Nat.two_pos (by omega) (Nat.le_refl _)]
    simp only [Option.bind_eq_bind, Option.bind_some, char_cons]
    rw [number_padded Nat.two_pos (by omega) (Nat.le_refl _)]
    simp only [Option.bind_some, if_pos (And.intro hh hm)]

theorem offset_eq_some {seconds : Int} :
    offset cs = some (seconds, r) ↔ ∃ o : OffsetPart, o.seconds = seconds ∧ cs = o.text ++ r := by
  constructor
  · intro h
    cases cs with
    | nil => cases h
    | cons c rest =>
      by_cases hsign : c ∈ signs
      · rw [offset_sign hsign] at h
        obtain ⟨hours, minutes, hh, hm, hseconds, hrest⟩ := clockOffset_eq_some.1 h
        refine ⟨.clock c hsign hours minutes hh hm, ?_, ?_⟩
        · rw [hseconds, OffsetPart.seconds]
          by_cases hplus : c = '+' <;> simp [hplus]
        · rw [hrest, OffsetPart.text, List.cons_append, List.append_assoc, List.cons_append]
      · simp only [signs, List.mem_cons, List.not_mem_nil, or_false, not_or] at hsign
        rw [offset.eq_def] at h
        split at h
        · obtain ⟨rfl, rfl⟩ := Prod.mk.inj (Option.some.inj h)
          next heq => exact ⟨.none 'Z' (by decide), rfl, heq⟩
        · obtain ⟨rfl, rfl⟩ := Prod.mk.inj (Option.some.inj h)
          next heq => exact ⟨.none 'z' (by decide), rfl, heq⟩
        · next heq =>
          obtain ⟨rfl, rfl⟩ := List.cons.inj heq
          dsimp only at h
          rw [if_neg hsign.1, if_neg (not_or.2 hsign.2)] at h
          cases h
        · cases h
  · rintro ⟨o, hseconds, hcs⟩
    cases o with
    | none mark mark_mem =>
      simp only [List.mem_cons, List.not_mem_nil, or_false] at mark_mem
      rw [hcs, ← hseconds]
      rcases mark_mem with rfl | rfl <;> rfl
    | clock sign sign_mem hours minutes hours_lt minutes_lt =>
      rw [OffsetPart.text, List.cons_append, List.append_assoc, List.cons_append] at hcs
      rw [hcs, offset_sign sign_mem]
      refine clockOffset_eq_some.2 ⟨hours, minutes, hours_lt, minutes_lt, ?_, rfl⟩
      rw [← hseconds, OffsetPart.seconds]
      by_cases hplus : sign = '+' <;> simp [hplus]

/-! ## Internet timestamps -/

/-- The second of a minute that a clock reads; a leap second counts with the one before it. -/
theorem exists_clockOf? {hour minute second nano : Nat} (hhour : hour < 24) (hminute : minute < 60)
    (hsecond : second ≤ 60) (hnano : nano < 1000000000) :
    ∃ clock : Clock, clockOf? hour minute second nano = some clock ∧
      clock.second = hour * 3600 + minute * 60 + min second 59 := by
  rw [clockOf?]
  by_cases hleap : second = 60
  · rw [if_pos hleap, Clock.ofNumbers?, if_pos ⟨hhour, hminute, by decide⟩, Clock.ofSecond?,
      dif_pos ⟨by omega, by omega, by omega⟩]
    exact ⟨_, rfl, by subst hleap; rfl⟩
  · rw [if_neg hleap, Clock.ofNumbers?, if_pos ⟨hhour, hminute, by omega⟩, Clock.ofSecond?,
      dif_pos ⟨by omega, by omega, by omega⟩]
    refine ⟨_, rfl, ?_⟩
    show hour * 3600 + minute * 60 + second = _
    omega

theorem clockOf?_eq_some {hour minute second nano : Nat} {clock : Clock}
    (h : clockOf? hour minute second nano = some clock) :
    hour < 24 ∧ minute < 60 ∧ second ≤ 60 ∧
      clock.second = hour * 3600 + minute * 60 + min second 59 := by
  have hnumbers {s n : Nat} (h : Clock.ofNumbers? hour minute s n = some clock) :
      hour < 24 ∧ minute < 60 ∧ s < 60 ∧ clock.second = hour * 3600 + minute * 60 + s := by
    rw [Clock.ofNumbers?] at h
    split at h
    · next hrange =>
      rw [Clock.ofSecond?] at h
      split at h
      · obtain rfl := Option.some.inj h
        exact ⟨hrange.1, hrange.2.1, hrange.2.2, rfl⟩
      · cases h
    · cases h
  rw [clockOf?] at h
  split at h
  · obtain ⟨hhour, hminute, -, hclock⟩ := hnumbers h
    omega
  · obtain ⟨hhour, hminute, hsecond, hclock⟩ := hnumbers h
    omega

end Calendar

open Calendar

/-- An internet timestamp, taken apart: a date with a year of four digits, a time of day that may
have a fraction, and an offset. -/
structure InternetTimestamp where
  date : Date
  year_mem : 0 ≤ date.year ∧ date.year ≤ 9999
  mark : Char
  mark_mem : mark ∈ separators
  hour : Nat
  minute : Nat
  /-- Up to 60, which is a leap second. -/
  second : Nat
  hour_lt : hour < 24
  minute_lt : minute < 60
  second_le : second ≤ 60
  /-- The digits behind the point, if there is one. -/
  fraction : Option (List Char)
  isFraction : IsFraction fraction
  offset : OffsetPart

namespace InternetTimestamp

/-- A timestamp as it is written. -/
def text (t : InternetTimestamp) : List Char :=
  t.date.text.toList ++ t.mark :: ((Date.padded 2 t.hour).toList ++ ':' ::
    ((Date.padded 2 t.minute).toList ++ ':' :: ((Date.padded 2 t.second).toList ++
      (fractionPart t.fraction ++ t.offset.text))))

/-- The instant of a timestamp, in seconds from the beginning of year 1. -/
def instant (t : InternetTimestamp) : Int :=
  Calendar.instant t.date (t.hour * 3600 + t.minute * 60 + min t.second 59) t.offset.seconds

end InternetTimestamp

namespace Calendar

variable {d : Date}

/-- A date of which the year has four digits and no sign. -/
theorem toList_text_of_year (h : 0 ≤ d.year ∧ d.year ≤ 9999) :
    d.text.toList = (Date.padded 4 d.year.toNat).toList ++
      '-' :: ((Date.padded 2 d.month).toList ++ '-' :: (Date.padded 2 d.day).toList) := by
  have hdash : ("-" : String).toList = ['-'] := rfl
  simp only [Date.text, String.toList_append, Date.toList_yearText, if_pos h, hdash,
    List.append_assoc, List.cons_append, List.nil_append]

theorem endsNumber_offset (o : OffsetPart) : EndsNumber o.text ∧ ∀ c ∈ o.text.head?, c ≠ '.' := by
  have hmarks : (['Z', 'z'].all fun c => c.isDigit = false ∧ c ≠ '.') = true := by decide
  have hsigns : (signs.all fun c => c.isDigit = false ∧ c ≠ '.') = true := by decide
  have hhead (c : Char) (rest : List Char) (h : c.isDigit = false ∧ c ≠ '.') :
      EndsNumber (c :: rest) ∧ ∀ d ∈ (c :: rest).head?, d ≠ '.' :=
    ⟨fun d hd => Option.some.inj hd ▸ h.1, fun d hd => Option.some.inj hd ▸ h.2⟩
  cases o with
  | none mark mark_mem => exact hhead mark [] (of_decide_eq_true (List.all_eq_true.1 hmarks mark mark_mem))
  | clock sign sign_mem hours minutes _ _ =>
    exact hhead sign _ (of_decide_eq_true (List.all_eq_true.1 hsigns sign sign_mem))

/-- **An internet timestamp is read as the day of its instant.** -/
theorem internetTimestamp?_text (t : InternetTimestamp) :
    ∃ d, internetTimestamp? t.text = some d ∧ Holds d t.instant := by
  obtain ⟨nano, hnano, hfraction⟩ := optionalFraction_append t.isFraction
    (endsNumber_offset t.offset).1 (endsNumber_offset t.offset).2
  obtain ⟨clock, hclock, hsecond⟩ := exists_clockOf? t.hour_lt t.minute_lt t.second_le hnano
  have hdate : dateOf? (t.date.year.toNat : Int) t.date.month t.date.day = some t.date := by
    have hsupported : minYear ≤ 0 ∧ 9999 ≤ maxYear := by decide
    have := t.year_mem
    exact dateOf?_eq_some.2 ⟨⟨by omega, by omega⟩, by omega, rfl, rfl⟩
  have hoffset : offset t.offset.text = some (t.offset.seconds, []) :=
    offset_eq_some.2 ⟨t.offset, rfl, (List.append_nil _).symm⟩
  have hmark (r : List Char) : separator (t.mark :: r) = some ((), r) :=
    separator_eq_some.2 ⟨t.mark, t.mark_mem, rfl⟩
  have hyear : t.date.year.toNat < 10 ^ 4 := by
    have := t.year_mem
    omega
  have hhour : t.hour < 10 ^ 2 := Nat.lt_trans t.hour_lt (by decide)
  have hminute : t.minute < 10 ^ 2 := Nat.lt_trans t.minute_lt (by decide)
  have hsecond' : t.second < 10 ^ 2 := Nat.lt_of_le_of_lt t.second_le (by decide)
  refine ⟨utcDay t.date clock t.offset.seconds, ?_, ?_⟩
  · simp only [internetTimestamp?, InternetTimestamp.text, toList_text_of_year t.year_mem,
      List.append_assoc, List.cons_append]
    refine Option.bind_eq_some_iff.2 ⟨_, number_padded (by decide) hyear (Nat.le_refl _) _, ?_⟩
    refine Option.bind_eq_some_iff.2 ⟨_, char_cons _ _, ?_⟩
    refine Option.bind_eq_some_iff.2
      ⟨_, number_padded Nat.two_pos t.date.month_lt (Nat.le_refl _) _, ?_⟩
    refine Option.bind_eq_some_iff.2 ⟨_, char_cons _ _, ?_⟩
    refine Option.bind_eq_some_iff.2
      ⟨_, number_padded Nat.two_pos t.date.day_lt (Nat.le_refl _) _, ?_⟩
    refine Option.bind_eq_some_iff.2 ⟨_, hmark _, ?_⟩
    refine Option.bind_eq_some_iff.2 ⟨_, number_padded Nat.two_pos hhour (Nat.le_refl _) _, ?_⟩
    refine Option.bind_eq_some_iff.2 ⟨_, char_cons _ _, ?_⟩
    refine Option.bind_eq_some_iff.2 ⟨_, number_padded Nat.two_pos hminute (Nat.le_refl _) _, ?_⟩
    refine Option.bind_eq_some_iff.2 ⟨_, char_cons _ _, ?_⟩
    refine Option.bind_eq_some_iff.2 ⟨_, number_padded Nat.two_pos hsecond' (Nat.le_refl _) _, ?_⟩
    refine Option.bind_eq_some_iff.2 ⟨_, hfraction, ?_⟩
    refine Option.bind_eq_some_iff.2 ⟨_, hoffset, ?_⟩
    simp only [List.isEmpty_nil, if_true, hdate, hclock, Option.bind_eq_bind, Option.bind_some]
  · rw [InternetTimestamp.instant, ← hsecond]
    exact holds_utcDay _ _ _

/-- **Nothing else is read as an internet timestamp.**  The day is in the range of years, although it
need not have a year of four digits. -/
theorem exists_of_internetTimestamp? {cs : List Char} (h : internetTimestamp? cs = some d) :
    ∃ t : InternetTimestamp, cs = t.text ∧ Holds d t.instant ∧ IsSupported d := by
  obtain ⟨⟨year, r₁⟩, hyear, h⟩ := Option.bind_eq_some_iff.1 h
  obtain ⟨⟨_, r₂⟩, hdash₁, h⟩ := Option.bind_eq_some_iff.1 h
  obtain ⟨⟨month, r₃⟩, hmonth, h⟩ := Option.bind_eq_some_iff.1 h
  obtain ⟨⟨_, r₄⟩, hdash₂, h⟩ := Option.bind_eq_some_iff.1 h
  obtain ⟨⟨day, r₅⟩, hday, h⟩ := Option.bind_eq_some_iff.1 h
  obtain ⟨⟨_, r₆⟩, hmark, h⟩ := Option.bind_eq_some_iff.1 h
  obtain ⟨⟨hour, r₇⟩, hhour, h⟩ := Option.bind_eq_some_iff.1 h
  obtain ⟨⟨_, r₈⟩, hcolon₁, h⟩ := Option.bind_eq_some_iff.1 h
  obtain ⟨⟨minute, r₉⟩, hminute, h⟩ := Option.bind_eq_some_iff.1 h
  obtain ⟨⟨_, r₁₀⟩, hcolon₂, h⟩ := Option.bind_eq_some_iff.1 h
  obtain ⟨⟨second, r₁₁⟩, hsecond, h⟩ := Option.bind_eq_some_iff.1 h
  obtain ⟨⟨nano, r₁₂⟩, hnano, h⟩ := Option.bind_eq_some_iff.1 h
  obtain ⟨⟨seconds, r₁₃⟩, hoffset, h⟩ := Option.bind_eq_some_iff.1 h
  dsimp only at *
  split at h
  · next hend =>
    obtain ⟨date, hdate, h⟩ := Option.bind_eq_some_iff.1 h
    obtain ⟨clock, hclock, h⟩ := Option.bind_eq_some_iff.1 h
    obtain ⟨mark, mark_mem, hmark⟩ := separator_eq_some.1 hmark
    obtain ⟨hyear_lt, hyear⟩ := (number_eq_some (by decide)).1 hyear
    obtain ⟨-, hnumbers⟩ := dateOf?_eq_some.1 hdate
    obtain ⟨hnano_lt, digits, isFraction, hfraction⟩ := exists_of_optionalFraction hnano
    obtain ⟨hour_lt, minute_lt, second_le, hclock⟩ := clockOf?_eq_some hclock
    obtain ⟨o, ho, hoffset⟩ := offset_eq_some.1 hoffset
    have year_mem : 0 ≤ date.year ∧ date.year ≤ 9999 := by omega
    have hd : utcDay date clock seconds = d := Option.some.inj h
    refine ⟨⟨date, year_mem, mark, mark_mem, hour, minute, second, hour_lt, minute_lt, second_le,
      digits, isFraction, o⟩, ?_, ?_, ?_⟩
    · have hyear' : date.year.toNat = year := by omega
      rw [InternetTimestamp.text, toList_text_of_year year_mem, hyear', hnumbers.2.1, hnumbers.2.2,
        hyear, char_eq_some.1 hdash₁, ((number_eq_some Nat.two_pos).1 hmonth).2,
        char_eq_some.1 hdash₂, ((number_eq_some Nat.two_pos).1 hday).2, hmark,
        ((number_eq_some Nat.two_pos).1 hhour).2, char_eq_some.1 hcolon₁,
        ((number_eq_some Nat.two_pos).1 hminute).2, char_eq_some.1 hcolon₂,
        ((number_eq_some Nat.two_pos).1 hsecond).2, hfraction, hoffset, List.isEmpty_iff.1 hend]
      simp only [List.append_assoc, List.cons_append, List.append_nil]
    · rw [← hd, InternetTimestamp.instant, ← hclock, ho]
      exact holds_utcDay _ _ _
    · rw [← hd, ← ho]
      exact isSupported_utcDay year_mem clock o.seconds_mem
  · cases h

end Calendar

end EntityQuery
