import EntityQuery.Proofs.Filter.Token
import Mathlib.Data.List.Forall2

/-!
# Literals and what follows them

Whoever reads a string literal has to find out where it ends.  `Text.Quoted.scan` does so by the
doubling rule alone.  It reads a literal back from its opening quote, and leaves what follows it,
exactly if that does not begin with one more quote (`Text.Quoted.scan_quote_iff`).

So a literal is safe if it is never followed by a quote.  `Text.Quoted.Holds` says that this is so for
the literals of a text, one behind the other.  It is a matter of what they are put together with: a
separator that begins with anything but a quote ends every literal in front of it
(`Text.Quoted.Holds.separated`).

What stands between the literals may hold quotes as well, for it is not looked at.  If it does not, then
a reader who knows nothing else of the text finds every string from the left on, and no others
(`Text.Quoted.Holds.strings_eq`).
-/

set_option autoImplicit false

namespace EntityQuery

/-! ## The end of a literal -/

namespace Text.Quoted

/-- Reads a string literal from its opening quote on: what it stands for, and what follows it. -/
def scan : List Char → Option (List Char × List Char)
  | '\'' :: r => unquote r
  | _ => none

/-- The inside of a literal is read as the string that it was made of, whatever comes behind it. -/
theorem unquote_double_append (s t : List Char) :
    unquote (double s ++ t) = (unquote t).map fun p => (s ++ p.1, p.2) := by
  induction s with
  | nil => exact Option.map_id'.symm
  | cons c r ih =>
    by_cases hc : c = '\''
    · subst hc
      simp [double, unquote, ih, Function.comp_def]
    · simp [double, unquote, hc, ih, Function.comp_def]

theorem scan_quote_append (s : String) (t : List Char) :
    scan ((quote s).toList ++ t) = (unquote ('\'' :: t)).map fun p => (s.toList ++ p.1, p.2) := by
  rw [toList_quote, List.cons_append, List.append_assoc, scan, unquote_double_append,
    List.singleton_append]

/-- **Where a literal ends.**  It is read back, and what follows it is left, exactly if that does not
begin with a quote. -/
theorem scan_quote_iff {s : String} {t : List Char} :
    scan ((quote s).toList ++ t) = some (s.toList, t) ↔ t.head? ≠ some '\'' := by
  constructor
  · rintro h hhead
    obtain ⟨r, rfl⟩ := List.head?_eq_some_iff.1 hhead
    -- The closing quote and the next one would be read as a quote of the string.
    rw [scan_quote_append, unquote, Option.map_map] at h
    obtain ⟨p, -, hp⟩ := Option.map_eq_some_iff.1 h
    have hlength := congrArg (fun p => p.1.length) hp
    simp at hlength
  · intro h
    rw [toList_quote, List.cons_append, List.append_assoc, List.singleton_append, scan,
      unquote_double _ h]

/-! ## Texts that hold literals -/

/-- **A text with literals in it**: those of the given strings, in this order, with plain characters
between them.  Each of them is read back from where it begins, and what follows it is left, with the
literals that come behind. -/
inductive Holds (plain : Char → Prop) : List String → String → Prop
  | nil {text : String} (hplain : ∀ c ∈ text.toList, plain c) : Holds plain [] text
  | cons {ss : List String} {before s after : String} (hplain : ∀ c ∈ before.toList, plain c)
      (hscan : scan ((quote s).toList ++ after.toList) = some (s.toList, after.toList))
      (hafter : Holds plain ss after) : Holds plain (s :: ss) (before ++ (quote s ++ after))

/-- All strings that stand in a text, found from the left on.  A literal that does not end makes it
fail. -/
def strings (cs : List Char) : Option (List (List Char)) :=
  match cs with
  | [] => some []
  | c :: r =>
    if c = '\'' then
      match _h : unquote r with
      | some (s, rest) => (strings rest).map (s :: ·)
      | none => none
    else strings r
termination_by cs.length
decreasing_by
  · have := length_of_unquote (by assumption)
    simp only [List.length_cons]
    omega
  · simp

theorem strings_append {before : List Char} (h : ∀ c ∈ before, c ≠ '\'') (cs : List Char) :
    strings (before ++ cs) = strings cs := by
  induction before with
  | nil => rfl
  | cons c r ih =>
    rw [List.forall_mem_cons] at h
    rw [List.cons_append, strings, if_neg h.1, ih h.2]

theorem strings_of_scan {cs s rest : List Char} (h : scan cs = some (s, rest)) :
    strings cs = (strings rest).map (s :: ·) := by
  rw [scan.eq_def] at h
  split at h
  · next r =>
    rw [strings, if_pos rfl]
    split
    · next s' rest' h' =>
      obtain ⟨rfl, rfl⟩ := Prod.mk.inj (Option.some.inj (h.symm.trans h'))
      rfl
    · next h' =>
      rw [h] at h'
      cases h'
  · cases h

/-- Separators that can end a literal. -/
def IsStop (separator : String) : Prop :=
  '\'' ∉ separator.toList ∧ separator ≠ ""

instance (separator : String) : Decidable (IsStop separator) :=
  inferInstanceAs (Decidable (_ ∧ _))

theorem IsStop.head?_ne {separator : String} (h : IsStop separator) (t : String) :
    (separator ++ t).toList.head? ≠ some '\'' := by
  obtain ⟨c, r, hcons⟩ := List.exists_cons_of_ne_nil (mt String.toList_eq_nil_iff.1 h.2)
  have hc : c ≠ '\'' := fun hc => h.1 (by simp [hcons, hc])
  rw [String.toList_append, hcons, List.cons_append, List.head?_cons]
  exact fun heq => hc (Option.some.inj heq)

namespace Holds

variable {plain : Char → Prop} {ss ts : List String} {s t : String}

/-- A reader who goes from the left finds the strings, if there are no other quotes. -/
theorem strings_eq (h : Holds (· ≠ '\'') ss t) : strings t.toList = some (ss.map String.toList) := by
  induction h with
  | nil hplain =>
    have h := strings_append hplain []
    rwa [List.append_nil, strings] at h
  | cons hplain hscan _ ih =>
    rw [String.toList_append, strings_append hplain, String.toList_append, strings_of_scan hscan, ih]
    rfl

theorem quote (s : String) : Holds plain [s] (quote s) := by
  have h : Holds plain [s] ("" ++ (Quoted.quote s ++ "")) :=
    .cons (by simp) (scan_quote_iff.2 nofun) (.nil (by simp))
  rwa [String.empty_append, String.append_empty] at h

/-- Plain characters may stand in front. -/
theorem behind_plain {u : String} (hu : ∀ c ∈ u.toList, plain c) (h : Holds plain ss t) :
    Holds plain ss (u ++ t) := by
  have happend {text : String} (htext : ∀ c ∈ text.toList, plain c) :
      ∀ c ∈ (u ++ text).toList, plain c := by
    rw [String.toList_append, List.forall_mem_append]
    exact ⟨hu, htext⟩
  cases h with
  | nil hplain => exact .nil (happend hplain)
  | cons hplain hscan hafter =>
    rw [← String.append_assoc]
    exact .cons (happend hplain) hscan hafter

/-- Behind a text with literals another one may stand if it does not begin with a quote. -/
theorem append (hs : Holds plain ss s) (ht : Holds plain ts t) (hne : t.toList.head? ≠ some '\'') :
    Holds plain (ss ++ ts) (s ++ t) := by
  induction hs with
  | nil hplain => exact ht.behind_plain hplain
  | @cons ss before s after hplain hscan hafter ih =>
    rw [String.append_assoc, String.append_assoc, List.cons_append]
    refine .cons hplain (scan_quote_iff.2 ?_) ih
    rw [String.toList_append, List.head?_append]
    cases hhead : after.toList.head? with
    | none => exact hne
    | some c =>
      rw [Option.some_or, ← hhead]
      exact scan_quote_iff.1 hscan

section Separators

variable (hplain : ∀ c, c ≠ '\'' → plain c)

include hplain

/-- A text without literals. -/
theorem free {u : String} (hu : '\'' ∉ u.toList) : Holds plain [] u :=
  .nil fun c hc => hplain c (ne_of_mem_of_not_mem hc hu)

theorem behind {u : String} (hu : '\'' ∉ u.toList) (h : Holds plain ss t) :
    Holds plain ss (u ++ t) :=
  h.behind_plain fun c hc => hplain c (ne_of_mem_of_not_mem hc hu)

/-- Texts with a separator between them. -/
theorem separated (separator : String) (hstop : IsStop separator) (hs : Holds plain ss s)
    (ht : Holds plain ts t) : Holds plain (ss ++ ts) (s ++ separator ++ t) := by
  rw [String.append_assoc]
  exact hs.append (ht.behind hplain hstop.1) (hstop.head?_ne t)

/-- What comes behind may be free of literals. -/
theorem followed {u : String} (hstop : IsStop u) (hs : Holds plain ss s) : Holds plain ss (s ++ u) := by
  have h := hs.append (.free hplain hstop.1) (String.append_empty (s := u) ▸ hstop.head?_ne "")
  rwa [List.append_nil] at h

/-- A text in parentheses. -/
theorem enclosed {u : String} (hu : '\'' ∉ u.toList) (hs : Holds plain ss s) :
    Holds plain ss (u ++ s ++ ")") :=
  (hs.behind hplain hu).followed hplain (by decide)

/-- Several texts with a separator between them. -/
theorem intercalate {α : Type} {strings : α → List String} {separator : String}
    (hstop : IsStop separator) {xs : List α} {texts : List String}
    (h : List.Forall₂ (fun x text => Holds plain (strings x) text) xs texts) :
    Holds plain (xs.flatMap strings) (separator.intercalate texts) := by
  induction h with
  | nil => exact .nil (by simp)
  | @cons x text rest texts hx hrest ih =>
    cases hrest with
    | nil => simpa using hx
    | cons hy hmore =>
      rw [List.flatMap_cons, String.intercalate_cons_cons]
      exact separated hplain _ hstop hx ih

end Separators

end Holds

/-- **A text that keeps its literals.**  They can be read from where they begin; and if nothing that is
written as it stands has a quote in it, then a reader finds all of them from the left on, and no
others. -/
structure Keeps (verbatim literals : List String) (text : String) : Prop where
  holds : Holds (fun _ => True) literals text
  strings_eq : (∀ v ∈ verbatim, '\'' ∉ v.toList) →
    strings text.toList = some (literals.map String.toList)

theorem Keeps.of_holds {verbatim literals : List String} {text : String}
    (h : ∀ plain : Char → Prop, (∀ c, c ≠ '\'' → plain c) →
      (∀ v ∈ verbatim, ∀ c ∈ v.toList, plain c) → Holds plain literals text) :
    Keeps verbatim literals text := by
  refine ⟨h _ (fun _ _ => trivial) fun _ _ _ _ => trivial, fun hfree => ?_⟩
  exact (h _ (fun _ hc => hc) fun v hv c hc => ne_of_mem_of_not_mem hc (hfree v hv)).strings_eq

end Text.Quoted

end EntityQuery
