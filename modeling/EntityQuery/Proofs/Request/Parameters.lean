import EntityQuery.Segments
import EntityQuery.Proofs.Text.Encoding

/-!
# Reading a query string

A query string is made by encoding texts and joining them, and a server takes it apart again: at the
ampersands, then at the first equals sign of each part, and what is behind that is decoded.  Whatever
the texts are, what comes out is what went in (`Segments.readParameters_queryString_named`).

Joining can be undone because neither separator is among the characters of an encoded text
(`Segments.not_mem_component`), nor of a name.  That decoding gives the text is a fact about the
encoding (`Text.Percent.text?_encode`).
-/

set_option autoImplicit false

namespace EntityQuery

/-! ## Cutting a text -/

namespace Text

/-- A text up to its first separator, and what is behind that, if there is one. -/
def cut (sep : Char) : List Char → List Char × Option (List Char)
  | [] => ([], none)
  | c :: r => if c = sep then ([], some r) else (c :: (cut sep r).1, (cut sep r).2)

variable {sep : Char} {cs : List Char}

theorem cut_of_not_mem (h : sep ∉ cs) : cut sep cs = (cs, none) := by
  induction cs with
  | nil => rfl
  | cons c r ih =>
    obtain ⟨hc, hr⟩ := not_or.1 (mt List.mem_cons.2 h)
    rw [cut, if_neg (Ne.symm hc), ih hr]

theorem cut_append (h : sep ∉ cs) (r : List Char) : cut sep (cs ++ sep :: r) = (cs, some r) := by
  induction cs with
  | nil => exact if_pos rfl
  | cons c s ih =>
    obtain ⟨hc, hs⟩ := not_or.1 (mt List.mem_cons.2 h)
    rw [List.cons_append, cut, if_neg (Ne.symm hc), ih hs]

end Text

namespace Segments

/-! ## Reading -/

/-- A part of a query string: its name, and the text that is encoded behind the first equals sign. -/
def readParameter (part : List Char) : String × Option String :=
  (String.ofList (Text.cut '=' part).1, (Text.cut '=' part).2.bind Text.Percent.text?)

/-- The parameters of a query string.  An empty one has none. -/
def readParameters (query : String) : List (String × Option String) :=
  if query = "" then [] else (query.toList.splitOn '&').map readParameter

/-- All parameters in their order, each with its plain text if it is present. -/
def named (s : Segments) : List (String × Option String) :=
  [("$filter", s.filter),
   ("$orderby", s.orderBy.map fun keys => ",".intercalate (keys.map OrderKey.text)),
   ("$select", s.select.map fun fields => ",".intercalate fields),
   ("$skip", s.skip.map Nat.repr),
   ("$top", s.top.map Nat.repr),
   ("$count", if s.count then some "true" else none),
   ("$expand", s.expand.map fun fields => ",".intercalate fields)]

/-- The names of parameters. -/
def names : List String :=
  ["$filter", "$orderby", "$select", "$skip", "$top", "$count", "$expand"]

theorem mem_names_of_mem_named {s : Segments} {p : String × Option String} (h : p ∈ s.named) :
    p.1 ∈ names :=
  List.mem_map_of_mem (f := Prod.fst) h

/-- The parameters of a request are those that are present. -/
theorem parameters_eq_filterMap (s : Segments) :
    s.parameters = s.named.filterMap fun p => p.2.map (p.1, ·) := by
  have hcons (name : String) (text : Option String) (rest : List (String × Option String)) :
      ((name, text) :: rest).filterMap (fun p => p.2.map (p.1, ·)) =
        (text.map (name, ·)).toList ++ rest.filterMap fun p => p.2.map (p.1, ·) := by
    cases text <;> rfl
  have hcount : (if s.count then [("$count", "true")] else []) =
      ((if s.count then some "true" else none).map fun text => ("$count", text)).toList := by
    cases s.count <;> rfl
  simp only [parameters, named, hcons, hcount, Option.map_map, Function.comp_def,
    List.filterMap_nil, List.append_nil, List.append_assoc]

/-! ## What encoded texts consist of -/

/-- Characters that would be taken for something else in a query string. -/
def reserved : List Char := ['&', '=', '#', '+', '?', ' ']

/-- **An encoded text is ASCII, and holds no reserved character.** -/
theorem not_mem_component {c : Char} {text : String} (h : c ∈ (component text).toList) :
    c.toNat < 128 ∧ c ∉ reserved := by
  have hkeeps : reserved.all (!keepsComponent ·) = true := by decide
  have hdigits : "%0123456789ABCDEF".toList.all (fun d => d.toNat < 128 ∧ d ∉ reserved) = true := by
    decide
  rw [component, Text.Percent.encode, String.toList_ofList] at h
  rcases Text.Percent.mem_encodeChars h with hc | ⟨hlt, hc⟩
  · exact of_decide_eq_true (List.all_eq_true.1 hdigits c hc)
  · refine ⟨hlt, fun hmem => ?_⟩
    have hnot := List.all_eq_true.1 hkeeps c hmem
    rw [hc] at hnot
    cases hnot

theorem text?_component (text : String) : Text.Percent.text? (component text).toList = some text :=
  Text.Percent.text?_encode (by decide) text

/-! ## Taking a query string apart -/

/-- A parameter as a part of the query string. -/
def part (p : String × String) : List Char := p.1.toList ++ '=' :: (component p.2).toList

theorem part_ne_nil (p : String × String) : part p ≠ [] := by simp [part]

theorem toList_queryString (s : Segments) :
    s.queryString.toList = ['&'].intercalate (s.parameters.map part) := by
  have hsep : "&".toList = ['&'] := rfl
  rw [queryString, String.toList_intercalate, hsep, List.map_map]
  congr 2
  funext p
  simp [part]

section Part

variable {p : String × String} (hname : p.1 ∈ names)

include hname

theorem ampersand_not_mem_part : '&' ∉ part p := by
  have hnames : ∀ name ∈ names, '&' ∉ name.toList := by decide
  intro h
  rw [part, List.mem_append, List.mem_cons] at h
  rcases h with h | h | h
  · exact hnames p.1 hname h
  · cases h
  · exact (not_mem_component h).2 (by decide)

theorem cut_part : Text.cut '=' (part p) = (p.1.toList, some (component p.2).toList) := by
  have hnames : ∀ name ∈ names, '=' ∉ name.toList := by decide
  exact Text.cut_append (hnames p.1 hname) _

theorem readParameter_part : readParameter (part p) = (p.1, some p.2) := by
  rw [readParameter, cut_part hname, String.ofList_toList, Option.bind_some, text?_component]

end Part

theorem mem_names_of_mem_parameters {s : Segments} {p : String × String} (h : p ∈ s.parameters) :
    p.1 ∈ names := by
  rw [parameters_eq_filterMap, List.mem_filterMap] at h
  obtain ⟨q, hq, hp⟩ := h
  obtain ⟨text, _, rfl⟩ := Option.map_eq_some_iff.1 hp
  exact mem_names_of_mem_named hq

/-- Splitting undoes joining, if there is anything. -/
theorem splitOn_queryString {s : Segments} (h : s.parameters ≠ []) :
    s.queryString.toList.splitOn '&' = s.parameters.map part := by
  rw [toList_queryString]
  refine List.splitOn_intercalate '&' ?_ (by simpa using h)
  intro l hl
  obtain ⟨p, hp, rfl⟩ := List.mem_map.1 hl
  exact ampersand_not_mem_part (mem_names_of_mem_parameters hp)

theorem queryString_eq_empty_iff {s : Segments} : s.queryString = "" ↔ s.parameters = [] := by
  refine ⟨fun h => ?_, fun h => ?_⟩
  · by_contra hne
    have hsplit := splitOn_queryString hne
    rw [h] at hsplit
    -- Splitting nothing leaves one empty part, and no parameter is written as that.
    have hmem : [] ∈ s.parameters.map part := by
      rw [← hsplit]
      decide
    obtain ⟨p, _, hp⟩ := List.mem_map.1 hmem
    exact part_ne_nil p hp
  · rw [queryString, h]
    rfl

theorem readParameters_queryString (s : Segments) :
    readParameters s.queryString = s.parameters.map fun p => (p.1, some p.2) := by
  rw [readParameters]
  split
  · next h => rw [queryString_eq_empty_iff.1 h, List.map_nil]
  · next h =>
    rw [splitOn_queryString (mt queryString_eq_empty_iff.2 h), List.map_map]
    refine List.map_congr_left fun p hp => ?_
    exact readParameter_part (mem_names_of_mem_parameters hp)

/-- **A query string is read as the texts it was made of.**  Its parameters, split at ampersands and
cut at their first equals sign, are those that are present, in their order, and decoding gives the
plain text of each.  It is empty exactly if none is present.  No encoded text holds a character that
is reserved or outside ASCII. -/
theorem readParameters_queryString_named (s : Segments) :
    readParameters s.queryString =
        s.named.filterMap (fun p => p.2.map fun text => (p.1, some text)) ∧
      (s.queryString = "" ↔ ∀ p ∈ s.named, p.2 = none) ∧
      ∀ part ∈ s.queryString.toList.splitOn '&', ∀ value, (Text.cut '=' part).2 = some value →
        ∀ c ∈ value, c.toNat < 128 ∧ c ∉ reserved := by
  refine ⟨?_, ?_, ?_⟩
  · rw [readParameters_queryString, parameters_eq_filterMap, List.map_filterMap]
    simp only [Option.map_map, Function.comp_def]
  · rw [queryString_eq_empty_iff, parameters_eq_filterMap, List.filterMap_eq_nil_iff]
    simp only [Option.map_eq_none_iff]
  · intro part hpart value hvalue c hc
    by_cases h : s.parameters = []
    · rw [queryString_eq_empty_iff.2 h] at hpart
      obtain rfl : part = [] := by simpa using hpart
      cases hvalue
    · rw [splitOn_queryString h] at hpart
      obtain ⟨p, hp, rfl⟩ := List.mem_map.1 hpart
      rw [cut_part (mem_names_of_mem_parameters hp)] at hvalue
      obtain rfl := Option.some.inj hvalue
      exact not_mem_component hc

end Segments

end EntityQuery
