import EntityQuery.Chain
import EntityQuery.Proofs.Filter.Operand
import EntityQuery.Proofs.Request.Parameters

/-!
# Keys in the path of a request

The key of an entity goes into the path of a URL between parentheses, in front of `/$value` and the
query string.  A reader who cuts the URL at its first question mark should find the path and that key
on the left, and the query string on the right (`Segments.KeepsKey`).

Texts in the query string are encoded; a key is not.  It is written as the literal it is.  So the
reader finds it exactly if the literal holds no character that ends or divides a path, and nothing
that reads as an escape (`Segments.IsPathText`).  Only keys that are texts can hold such, and texts
under the date type cannot: `Segments.isPathText_render_iff`.
-/

set_option autoImplicit false

namespace EntityQuery

open EntityQuery.Filter

namespace Segments

/-- Characters that end a path, or divide it. -/
def pathDelimiters : List Char := ['?', '#', '/']

/-- A text that stands for itself in one segment of a path. -/
structure IsPathText (cs : List Char) : Prop where
  not_delimiter : ∀ c ∈ cs, c ∉ pathDelimiters
  hasEscape_eq : Text.Percent.hasEscape cs = false

theorem isPathText_iff {cs : List Char} :
    IsPathText cs ↔
      cs.all (· ∉ pathDelimiters) = true ∧ Text.Percent.hasEscape cs = false := by
  simp only [List.all_eq_true, decide_eq_true_eq]
  exact ⟨fun h => ⟨h.not_delimiter, h.hasEscape_eq⟩, fun h => ⟨h.1, h.2⟩⟩

instance (cs : List Char) : Decidable (IsPathText cs) := decidable_of_iff' _ isPathText_iff

/-- The URL holds a key, and is otherwise as it would be with any key: up to its first question mark
it is the path with the key `k` in it, and behind that it is the query string.  `k` is the key once
its escapes are resolved, and part of a single segment. -/
def KeepsKey (s : Segments) (endpoint key : String) : Prop :=
  ∃ k : List Char,
    Text.cut '?' (s.url endpoint).toList =
        (endpoint.toList ++ '(' :: k ++ ')' :: (if s.value then "/$value".toList else []),
          if s.queryString = "" then none else some s.queryString.toList) ∧
      Text.Percent.decode k = Text.Utf8.encode key ∧
      ∀ c ∈ k, c ∉ pathDelimiters

/-! ## Keys that are kept -/

theorem toList_url (s : Segments) (endpoint : String) :
    (s.url endpoint).toList = (s.pathText endpoint).toList ++
      (if s.queryString = "" then [] else '?' :: s.queryString.toList) := by
  rw [url]
  by_cases h : s.queryString = ""
  · simp [h]
  · simp [h, String.isEmpty_iff]

section Key

variable {s : Segments} {endpoint key : String} (hkey : s.key = some key)

include hkey

theorem toList_pathText :
    (s.pathText endpoint).toList =
      endpoint.toList ++ '(' :: key.toList ++ ')' :: (if s.value then "/$value".toList else []) := by
  rw [pathText, hkey]
  cases s.value <;> simp

variable (hendpoint : '?' ∉ endpoint.toList)

include hendpoint

/-- Without a question mark in the key, the first one begins the query string. -/
theorem cut_url (h : '?' ∉ key.toList) :
    Text.cut '?' (s.url endpoint).toList =
      (endpoint.toList ++ '(' :: key.toList ++ ')' :: (if s.value then "/$value".toList else []),
        if s.queryString = "" then none else some s.queryString.toList) := by
  have hvalue : '?' ∉ (if s.value then "/$value".toList else []) := by
    cases s.value <;> decide
  have hpath : '?' ∉ endpoint.toList ++ '(' :: key.toList ++
      ')' :: (if s.value then "/$value".toList else []) := by
    rw [List.mem_append, List.mem_append, List.mem_cons, List.mem_cons]
    rintro ((h1 | h1 | h1) | h1 | h1)
    · exact hendpoint h1
    · cases h1
    · exact h h1
    · cases h1
    · exact hvalue h1
  rw [toList_url, toList_pathText hkey]
  by_cases hquery : s.queryString = ""
  · rw [if_pos hquery, if_pos hquery, List.append_nil, Text.cut_of_not_mem hpath]
  · rw [if_neg hquery, if_neg hquery, Text.cut_append hpath]

theorem keepsKey_of_isPathText (h : IsPathText key.toList) : s.KeepsKey endpoint key := by
  have hmark : '?' ∉ key.toList := fun hmem => h.not_delimiter _ hmem (by decide)
  exact ⟨key.toList, cut_url hkey hendpoint hmark,
    Text.Percent.decode_eq_iff.2 h.hasEscape_eq, h.not_delimiter⟩

/-- With a question mark in the key, what is behind the first one is longer than the query string. -/
theorem KeepsKey.not_mem (h : s.KeepsKey endpoint key) : '?' ∉ key.toList := by
  intro hmem
  obtain ⟨before, behind, hsplit, hbefore⟩ := List.eq_append_cons_of_mem hmem
  obtain ⟨k, hcut, -, -⟩ := h
  have hopen : '?' ∉ endpoint.toList ++ '(' :: before := by
    rw [List.mem_append, List.mem_cons]
    rintro (h1 | h1 | h1)
    · exact hendpoint h1
    · cases h1
    · exact hbefore h1
  have hurl : (s.url endpoint).toList =
      (endpoint.toList ++ '(' :: before) ++ '?' :: (behind ++
        ')' :: (if s.value then "/$value".toList else []) ++
          (if s.queryString = "" then [] else '?' :: s.queryString.toList)) := by
    rw [toList_url, toList_pathText hkey, hsplit]
    simp only [List.append_assoc, List.cons_append]
  rw [hurl, Text.cut_append hopen] at hcut
  -- The key cannot be told from what is read, but the right side is too long for a query string.
  have hright := congrArg Prod.snd hcut
  by_cases hquery : s.queryString = ""
  · rw [if_pos hquery, if_pos hquery] at hright
    cases hright
  · rw [if_neg hquery, if_neg hquery] at hright
    have hlen := congrArg List.length (Option.some.inj hright)
    simp only [List.length_append, List.length_cons] at hlen
    omega

/-- **A key is kept exactly if it stands for itself in a path.** -/
theorem keepsKey_iff_isPathText : s.KeepsKey endpoint key ↔ IsPathText key.toList := by
  refine ⟨fun h => ?_, keepsKey_of_isPathText hkey hendpoint⟩
  have hmark := h.not_mem hkey hendpoint
  obtain ⟨k, hcut, hdecode, hfree⟩ := h
  rw [cut_url hkey hendpoint hmark] at hcut
  have hleft := congrArg Prod.fst hcut
  simp only [List.append_assoc, List.cons_append, List.append_cancel_left_eq, List.cons.injEq,
    true_and] at hleft
  obtain rfl : key.toList = k := List.append_cancel_right hleft
  exact ⟨hfree, Text.Percent.decode_eq_iff.1 hdecode⟩

end Key

/-! ## Literals in a path -/

theorem isPathText_of_all {cs : List Char} (h : cs.all isLiteralChar = true) : IsPathText cs := by
  rw [List.all_eq_true] at h
  have hno : ('%' :: pathDelimiters).all (!isLiteralChar ·) = true := by decide
  have hfree : ∀ c ∈ cs, c ∉ '%' :: pathDelimiters := by
    intro c hc hmem
    have hc' := List.all_eq_true.1 hno c hmem
    rw [h c hc] at hc'
    cases hc'
  exact ⟨fun c hc hmem => hfree c hc (List.mem_cons_of_mem _ hmem),
    Text.Percent.hasEscape_of_not_mem fun hmem => hfree _ hmem List.mem_cons_self⟩

/-- Quotes are twice as many inside a literal, which does not matter here. -/
theorem mem_double {c : Char} {cs : List Char} : c ∈ Text.Quoted.double cs ↔ c ∈ cs := by
  induction cs with
  | nil => exact Iff.rfl
  | cons d r ih => by_cases h : d = '\'' <;> simp [Text.Quoted.double, h, ih]

/-- The digits of a byte are no quotes, so quoting does not tear them apart. -/
theorem beginsWithByte_double (cs : List Char) :
    Text.Percent.beginsWithByte (Text.Quoted.double cs ++ ['\'']) =
      Text.Percent.beginsWithByte cs := by
  have hquote : Text.hexValue? '\'' = none := by decide
  have hfirst (r : List Char) : Text.Percent.beginsWithByte ('\'' :: r) = false := by
    cases r with
    | nil => rfl
    | cons b r => rw [Text.Percent.beginsWithByte, hquote]; rfl
  have hsecond (a : Char) (r : List Char) : Text.Percent.beginsWithByte (a :: '\'' :: r) = false := by
    rw [Text.Percent.beginsWithByte, hquote]
    exact Bool.and_false _
  rcases cs with _ | ⟨a, r⟩
  · rfl
  · by_cases ha : a = '\''
    · simp only [Text.Quoted.double, ha, if_true, List.cons_append, hfirst]
    · rcases r with _ | ⟨b, r⟩
      · simp only [Text.Quoted.double, ha, if_false, List.cons_append, List.nil_append, hsecond]
        rfl
      · by_cases hb : b = '\''
        · simp only [Text.Quoted.double, ha, hb, if_false, if_true, List.cons_append, hsecond]
        · simp only [Text.Quoted.double, ha, hb, if_false, List.cons_append,
            Text.Percent.beginsWithByte]

theorem hasEscape_double (cs : List Char) :
    Text.Percent.hasEscape (Text.Quoted.double cs ++ ['\'']) = Text.Percent.hasEscape cs := by
  have hquote (r : List Char) : Text.Percent.hasEscape ('\'' :: r) = Text.Percent.hasEscape r :=
    Text.Percent.hasEscape_cons_of_ne (by decide) r
  induction cs with
  | nil => rfl
  | cons c r ih =>
    by_cases h : c = '\''
    · simp only [Text.Quoted.double, h, if_true, List.cons_append, hquote, ih]
    · simp only [Text.Quoted.double, h, if_false, List.cons_append, Text.Percent.hasEscape,
        beginsWithByte_double, ih]

/-- A string literal stands for itself in a path if its text does. -/
theorem isPathText_quote {s : String} :
    IsPathText (Text.Quoted.quote s).toList ↔ IsPathText s.toList := by
  have hescape : Text.Percent.hasEscape (Text.Quoted.quote s).toList =
      Text.Percent.hasEscape s.toList := by
    rw [Text.Quoted.quote, String.toList_ofList, List.cons_append,
      Text.Percent.hasEscape_cons_of_ne (by decide), hasEscape_double]
  have hmem {c : Char} : c ∈ (Text.Quoted.quote s).toList ↔ c = '\'' ∨ c ∈ s.toList := by
    rw [Text.Quoted.quote, String.toList_ofList, List.cons_append, List.mem_cons, List.mem_append,
      mem_double, List.mem_singleton, or_left_comm, or_self, or_comm]
  refine ⟨fun h => ⟨fun c hc => h.not_delimiter c (hmem.2 (.inr hc)), hescape ▸ h.hasEscape_eq⟩,
    fun h => ⟨fun c hc => ?_, hescape.trans h.hasEscape_eq⟩⟩
  rcases hmem.1 hc with rfl | hc
  · decide
  · exact h.not_delimiter c hc

/-- Apart from texts, values consist of letters, digits and a few signs. -/
theorem isPathText_of_render {v : Value} (hv : ∀ text, v ≠ .text text) {key : String}
    (h : v.render = .ok key) : IsPathText key.toList := by
  cases v with
  | null => exact Except.ok.inj h ▸ (by decide : IsPathText "null".toList)
  | bool b =>
    obtain rfl := Except.ok.inj h
    cases b
    · decide
    · decide
  | number n => exact Except.ok.inj h ▸ isPathText_of_all (all_decimalText n)
  | float x =>
    rw [Value.render] at h
    split at h
    · next hx => exact Except.ok.inj h ▸ isPathText_of_all (all_floatText hx)
    · cases h
  | text s => exact absurd rfl (hv s)
  | uuid u => exact Except.ok.inj h ▸ isPathText_of_all (all_uuidText u)
  | timestamp t => exact Except.ok.inj h ▸ isPathText_of_all (all_timestampText t)
  | date d => exact Except.ok.inj h ▸ isPathText_of_all (all_dateText d)
  | time c => exact Except.ok.inj h ▸ isPathText_of_all (all_clockText c)

/-- A literal stands for itself in a path, unless it is a text that does not.  Under the date type a
text is written as the day that it names, and so does not matter. -/
theorem isPathText_render_iff {l : Literal} {key : String} (h : l.render = .ok key) :
    IsPathText key.toList ↔
      ∀ text, l.value = .text text → l.type ≠ .date → IsPathText text.toList := by
  obtain ⟨v, type⟩ := l
  by_cases htext : ∃ text, v = .text text
  · obtain ⟨text, rfl⟩ := htext
    have honly (hne : type ≠ .date) (hkey : IsPathText key.toList ↔ IsPathText text.toList) :
        IsPathText key.toList ↔
          ∀ t, Value.text text = .text t → type ≠ .date → IsPathText t.toList :=
      hkey.trans ⟨fun h t ht _ => Value.text.inj ht ▸ h, fun h => h text rfl hne⟩
    cases type with
    | date =>
      obtain ⟨d, _, rfl⟩ := map_eq_ok.1 (show (Value.text text).day.map Date.text = .ok key from h)
      exact ⟨fun _ _ _ hne => absurd rfl hne, fun _ => isPathText_of_all (all_dateText d)⟩
    | guid => exact honly (by decide) (Except.ok.inj h ▸ Iff.rfl)
    | _ => exact honly (by decide) (Except.ok.inj h ▸ isPathText_quote)
  · have hv : ∀ text, v ≠ .text text := fun text ht => htext ⟨text, ht⟩
    refine ⟨fun _ text ht => absurd ht (hv text), fun _ => ?_⟩
    rw [Literal.render] at h
    split at h
    · exact Except.ok.inj h ▸ (by decide : IsPathText "null".toList)
    · obtain ⟨d, _, rfl⟩ := map_eq_ok.1 h
      exact isPathText_of_all (all_dateText d)
    · next ht => exact absurd ht (hv _)
    · exact isPathText_of_render hv h

/-- **Which keys a URL holds.**  For an endpoint without a question mark, a literal is found again in
the path, and the query string behind it, exactly if the literal is no text, or is written as a day,
or is a text without `?`, `#`, `/` and without anything that reads as an escape. -/
theorem keepsKey_iff {s : Segments} {endpoint key : String} (hendpoint : '?' ∉ endpoint.toList)
    {l : Literal} (hl : l.render = .ok key) (hkey : s.key = some key) :
    s.KeepsKey endpoint key ↔
      ∀ text, l.value = .text text → l.type ≠ .date → IsPathText text.toList :=
  (keepsKey_iff_isPathText hkey hendpoint).trans (isPathText_render_iff hl)

/-- Quotes, spaces and lone percent signs do no harm. -/
theorem keepsKey_of_quote_and_percent :
    '?' ∉ "/odata/users".toList ∧
      (Literal.ofValue (.text "O'Neil = 100% & co")).render = .ok "'O''Neil = 100% & co'" ∧
      (∀ text, (Literal.ofValue (.text "O'Neil = 100% & co")).value = .text text →
        (Literal.ofValue (.text "O'Neil = 100% & co")).type ≠ .date → IsPathText text.toList) ∧
      KeepsKey { empty with key := some "'O''Neil = 100% & co'", filter := some "a ne '?'" }
        "/odata/users" "'O''Neil = 100% & co'" := by
  have hendpoint : '?' ∉ "/odata/users".toList := by decide
  have hrender : (Literal.ofValue (.text "O'Neil = 100% & co")).render =
      .ok "'O''Neil = 100% & co'" := by rfl
  have htext : ∀ text, (Literal.ofValue (.text "O'Neil = 100% & co")).value = .text text →
      (Literal.ofValue (.text "O'Neil = 100% & co")).type ≠ .date → IsPathText text.toList := by
    intro text h _
    obtain rfl := Value.text.inj h
    decide
  exact ⟨hendpoint, hrender, htext, (keepsKey_iff hendpoint hrender rfl).2 htext⟩

/-- A question mark in a key ends the path early: the reader takes the rest of the key for the query
string. -/
theorem not_keepsKey_question_mark :
    ∃ s, ofChain (some (.alone .getByKey [.literal (.ofValue (.text "a?b"))])) = .ok s ∧
      s.key = some "'a?b'" ∧ s.url "/odata/users" = "/odata/users('a?b')" ∧
      ¬ s.KeepsKey "/odata/users" "'a?b'" := by
  refine ⟨{ empty with key := some "'a?b'" }, rfl, rfl, by decide, fun h => ?_⟩
  exact h.not_mem rfl (by decide) (by decide)

end Segments

end EntityQuery
