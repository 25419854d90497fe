import EntityQuery.Literal.Render
import EntityQuery.Proofs.Calendar.Reading
import EntityQuery.Proofs.Except

/-!
# Days survive being written and read

A literal of the date type is written as a day, `2020-01-02`, and such a text may be read as a day
again.  **What is read is the day that was written** (`Literal.ofText?_render_date`), whether it came
from a date, an instant or a text.

* Three readers are tried in order.  A day as it is written is nothing to the first of them, as there is
  no time behind it (`Calendar.internetTimestamp?_dateText`), and the second reads it to the end
  (`Calendar.plainDate?_dateText`): the sign of a year tells it how many digits to expect.
* A text with an offset names a day that may lie in another year, even in one with a sign.  Whatever a
  text names is in the range of years that is read again (`Calendar.isSupported_of_ofText?`).
-/

set_option autoImplicit false

namespace EntityQuery

open Calendar

namespace Calendar

variable {d : Date}

/-! ## Days as they are written -/

theorem toList_text (d : Date) :
    d.text.toList = (Date.yearText d.year).toList ++
      '-' :: ((Date.padded 2 d.month).toList ++ '-' :: (Date.padded 2 d.day).toList) := by
  have hdash : ("-" : String).toList = ['-'] := rfl
  simp only [Date.text, String.toList_append, hdash, List.append_assoc, List.cons_append,
    List.nil_append]

/-- A date is written without letters and spaces. -/
theorem not_mem_text {c : Char} (h : c ∈ separators) (d : Date) : c ∉ d.text.toList := by
  have hother : (separators.all fun c => c.isDigit = false ∧ c ≠ '-' ∧ c ≠ '+') = true := by decide
  obtain ⟨hdigit, hminus, hplus⟩ := of_decide_eq_true (List.all_eq_true.1 hother c h)
  have hpadded (width n : Nat) : c ∉ (Date.padded width n).toList := by
    intro hc
    rw [Date.isDigit_of_mem_padded hc] at hdigit
    cases hdigit
  have hyear : c ∉ (Date.yearText d.year).toList := by
    rw [Date.toList_yearText]
    split
    · exact hpadded _ _
    · rw [List.mem_cons, not_or]
      exact ⟨by split <;> assumption, hpadded _ _⟩
  rw [toList_text, List.mem_append, List.mem_cons, List.mem_append, List.mem_cons]
  rintro (hc | hc | hc | hc | hc)
  · exact hyear hc
  · exact hminus hc
  · exact hpadded _ _ hc
  · exact hminus hc
  · exact hpadded _ _ hc

/-- A date alone is no internet timestamp, as there is no time behind it. -/
theorem internetTimestamp?_dateText (d : Date) : internetTimestamp? d.text.toList = none := by
  cases h : internetTimestamp? d.text.toList with
  | none => rfl
  | some e =>
    obtain ⟨t, htext, -, -⟩ := exists_of_internetTimestamp? h
    refine absurd ?_ (not_mem_text t.mark_mem d)
    rw [htext]
    exact List.mem_append_right _ List.mem_cons_self

theorem trimStart_of_isDigit {c : Char} (hc : c.isDigit = true) (r : List Char) :
    Text.trimStart (c :: r) = c :: r := by
  have := toNat_of_isDigit hc
  refine List.dropWhile_cons_of_neg ?_
  simp only [Text.isSpace, Bool.or_eq_true, Bool.and_eq_true, decide_eq_true_eq, beq_iff_eq]
  omega

theorem exists_toList_padded (width n : Nat) :
    ∃ c rest, (Date.padded width n).toList = c :: rest ∧ c.isDigit = true := by
  cases h : (Date.padded width n).toList with
  | nil =>
    rw [Date.toList_padded, List.append_eq_nil_iff] at h
    exact absurd h.2 Nat.toDigits_ne_nil
  | cons c rest => exact ⟨c, rest, rfl, isDigits_padded width n c (h ▸ List.mem_cons_self)⟩

theorem looseYear_minus (r : List Char) :
    looseYear ('-' :: r) = (number 1 r.length r).map fun (n, rest) => (-(n : Int), rest) := rfl

theorem looseYear_plus (r : List Char) :
    looseYear ('+' :: r) = (number 1 r.length r).map fun (n, rest) => ((n : Int), rest) := rfl

/-- A year is read as it is written, up to where the digits end. -/
theorem looseYear_yearText (year : Int) {r : List Char} (hr : EndsNumber r) :
    looseYear ((Date.yearText year).toList ++ r) = some (year, r) := by
  have hsigned : number 1 ((Date.padded 4 year.natAbs).toList ++ r).length
      ((Date.padded 4 year.natAbs).toList ++ r) = some (year.natAbs, r) := by
    obtain ⟨c, rest, hpadded, -⟩ := exists_toList_padded 4 year.natAbs
    rw [number_append (isDigits_padded 4 _) (by rw [hpadded]; exact Nat.succ_pos _)
      (by rw [List.length_append]; exact Nat.le_add_right _ _) (.inr hr), Date.ofDigitChars_padded]
  rw [Date.toList_yearText]
  split
  · next hyear =>
    obtain ⟨c, rest, hpadded, hc⟩ := exists_toList_padded 4 year.toNat
    have hnumber : number 1 4 ((Date.padded 4 year.toNat).toList ++ r) = some (year.toNat, r) :=
      number_padded (by decide) (by omega) (by decide) r
    rw [hpadded, List.cons_append] at hnumber
    rw [hpadded, List.cons_append, looseYear, trimStart_of_isDigit hc]
    split
    · next heq => exact absurd hc ((List.cons.inj heq).1 ▸ by decide)
    · next heq => exact absurd hc ((List.cons.inj heq).1 ▸ by decide)
    · rw [hnumber, Option.map_some]
      dsimp only
      rw [Int.toNat_of_nonneg hyear.1]
  · next hyear =>
    by_cases hneg : year < 0
    · have hnat : -(year.natAbs : Int) = year := by omega
      rw [if_pos hneg, List.cons_append, looseYear_minus, hsigned, Option.map_some]
      dsimp only
      rw [hnat]
    · have hnat : (year.natAbs : Int) = year := by omega
      rw [if_neg hneg, List.cons_append, looseYear_plus, hsigned, Option.map_some]
      dsimp only
      rw [hnat]

theorem looseNumber_padded {n : Nat} (hn : n < 10 ^ 2) (r : List Char) :
    looseNumber ((Date.padded 2 n).toList ++ r) = some (n, r) := by
  obtain ⟨c, rest, hpadded, hc⟩ := exists_toList_padded 2 n
  have hnumber := number_padded Nat.two_pos hn (by decide : 1 ≤ 2) r
  rw [hpadded, List.cons_append] at hnumber ⊢
  rw [looseNumber, trimStart_of_isDigit hc, hnumber]

theorem plainDate?_dateText (h : IsSupported d) : plainDate? d.text.toList = some d := by
  have hdash (r : List Char) : EndsNumber ('-' :: r) := fun c hc => Option.some.inj hc ▸ rfl
  have hday := looseNumber_padded d.day_lt []
  rw [List.append_nil] at hday
  rw [toList_text]
  simp only [plainDate?, looseDay, looseYear_yearText d.year (hdash _), char_cons,
    looseNumber_padded d.month_lt, hday, Option.bind_eq_bind, Option.bind_some, List.isEmpty_nil,
    if_true]
  exact dateOf?_eq_some.2 ⟨h, rfl, rfl, rfl⟩

/-- **A date is read as it is written**, in every year of the range. -/
theorem ofText?_text (h : IsSupported d) : Date.ofText? d.text = some d := by
  rw [Date.ofText?, internetTimestamp?_dateText, plainDate?_dateText h]
  rfl

theorem ofText?_eq_some {s : String} :
    Date.ofText? s = some d ↔ internetTimestamp? s.toList = some d ∨
      internetTimestamp? s.toList = none ∧ (plainDate? s.toList = some d ∨
        plainDate? s.toList = none ∧ localTimestamp? s.toList = some d) := by
  rw [Date.ofText?]
  cases internetTimestamp? s.toList <;> cases plainDate? s.toList <;> simp

/-- What is read is in the range. -/
theorem isSupported_of_ofText? {s : String} (h : Date.ofText? s = some d) : IsSupported d := by
  rcases ofText?_eq_some.1 h with h | ⟨-, h | ⟨-, h⟩⟩
  · obtain ⟨t, -, -, hd⟩ := exists_of_internetTimestamp? h
    exact hd
  · obtain ⟨⟨⟨year, month, day⟩, r⟩, -, h⟩ := Option.bind_eq_some_iff.1 h
    dsimp only at h
    split at h
    · exact (dateOf?_eq_some.1 h).1
    · cases h
  · obtain ⟨⟨⟨year, month, day⟩, r₁⟩, -, h⟩ := Option.bind_eq_some_iff.1 h
    obtain ⟨⟨_, r₂⟩, -, h⟩ := Option.bind_eq_some_iff.1 h
    obtain ⟨⟨hour, r₃⟩, -, h⟩ := Option.bind_eq_some_iff.1 h
    obtain ⟨⟨_, r₄⟩, -, h⟩ := Option.bind_eq_some_iff.1 h
    obtain ⟨⟨minute, r₅⟩, -, h⟩ := Option.bind_eq_some_iff.1 h
    obtain ⟨⟨_, r₆⟩, -, h⟩ := Option.bind_eq_some_iff.1 h
    obtain ⟨⟨second, r₇⟩, -, h⟩ := Option.bind_eq_some_iff.1 h
    obtain ⟨⟨nano, r₈⟩, -, h⟩ := Option.bind_eq_some_iff.1 h
    dsimp only at h
    split at h
    · obtain ⟨date, hdate, h⟩ := Option.bind_eq_some_iff.1 h
      obtain ⟨clock, -, h⟩ := Option.bind_eq_some_iff.1 h
      exact Option.some.inj h ▸ (dateOf?_eq_some.1 hdate).1
    · cases h

end Calendar

/-! ## Literals of the date type -/

/-- Values that may be written under the date type: dates and instants in the range of years, and
texts. -/
def Value.IsDated : Value → Prop
  | .date d => IsSupported d
  | .timestamp t => IsSupported t.date
  | .text _ => True
  | _ => False

/-- The day that a value names.  A text that is an internet timestamp names the day that its instant lies
in. -/
def Value.Names : Value → Date → Prop
  | .date e, d => d = e
  | .timestamp t, d => d = t.date
  | .text s, d => Date.ofText? s = some d ∧
      ∀ t : InternetTimestamp, s.toList = t.text → ∀ e, Holds e t.instant ↔ e = d
  | _, _ => False

theorem Value.names_of_ofText? {s : String} {d : Date} (h : Date.ofText? s = some d) :
    (Value.text s).Names d := by
  refine ⟨h, fun t htext e => ?_⟩
  obtain ⟨day, hday, hholds⟩ := internetTimestamp?_text t
  have hd : day = d := by
    rcases ofText?_eq_some.1 h with hd | ⟨hnone, -⟩
    · rw [htext, hday] at hd
      exact Option.some.inj hd
    · rw [htext, hday] at hnone
      cases hnone
  exact ⟨fun he => he.unique (hd ▸ hholds), fun he => he ▸ hd ▸ hholds⟩

theorem Value.day_text_eq_ok {s : String} {d : Date} :
    (Value.text s).day = .ok d ↔ Date.ofText? s = some d := by
  rw [day]
  cases Date.ofText? s with
  | some e => rw [Except.ok.injEq, Option.some.injEq]
  | none => exact iff_of_false (fun h => by cases h) (fun h => by cases h)

/-- What a value is written as under the date type. -/
theorem Value.exists_day {v : Value} (hv : v.IsDated) {text : String}
    (h : (Literal.mk v .date).render = .ok text) :
    ∃ d, v.Names d ∧ IsSupported d ∧ text = d.text := by
  cases v with
  | date d => exact ⟨d, rfl, hv, (Except.ok.inj h).symm⟩
  | timestamp t => exact ⟨t.date, rfl, hv, (Except.ok.inj h).symm⟩
  | text s =>
    obtain ⟨d, hd, htext⟩ := map_eq_ok.1 (show (Value.text s).day.map Date.text = .ok text from h)
    have hread := day_text_eq_ok.1 hd
    exact ⟨d, names_of_ofText? hread, isSupported_of_ofText? hread, htext.symm⟩
  | _ => exact hv.elim

/-- **A literal of the date type survives being written and read.**  Whatever is written, a date, an
instant or a text that names a day, its text is read as exactly the day that was meant, and so is
written as itself again. -/
theorem Literal.ofText?_render_date {v : Value} (hv : v.IsDated) {text : String}
    (h : (Literal.mk v .date).render = .ok text) :
    ∃ d, v.Names d ∧ text = d.text ∧ Date.ofText? text = some d ∧
      (Literal.mk (.text text) .date).render = .ok text := by
  obtain ⟨d, hnames, hsupported, rfl⟩ := Value.exists_day hv h
  have hread := ofText?_text hsupported
  refine ⟨d, hnames, rfl, hread, ?_⟩
  show (Value.text d.text).day.map Date.text = _
  rw [Value.day_text_eq_ok.2 hread]
  rfl

/-- Half an hour into the year 0, an hour ahead of Coordinated Universal Time. -/
theorem Literal.ofText?_render_date_yearZero :
    (Value.text "0000-01-01T00:30:00.5+01:00").IsDated ∧
      (Literal.mk (.text "0000-01-01T00:30:00.5+01:00") .date).render = .ok "-0001-12-31" ∧
      ∃ d, (Value.text "0000-01-01T00:30:00.5+01:00").Names d ∧ "-0001-12-31" = d.text ∧
        Date.ofText? "-0001-12-31" = some d ∧
        (Literal.mk (.text "-0001-12-31") .date).render = .ok "-0001-12-31" := by
  have hrender : (Literal.mk (.text "0000-01-01T00:30:00.5+01:00") .date).render =
      .ok "-0001-12-31" := by rfl
  exact ⟨trivial, hrender,
    ofText?_render_date (v := .text "0000-01-01T00:30:00.5+01:00") trivial hrender⟩

end EntityQuery
