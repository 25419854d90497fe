import EntityQuery.Proofs.Condition.Naming
import EntityQuery.Proofs.Filter.WellFormed

/-!
# Variables and the names of properties

A field that was taken from the element of a quantifier is written with the quantifier's variable in
front of its path, as one name more.  A field that was taken from the entity is written as its path
alone.  Nothing else in a text tells the two apart, so whoever reads it goes by what it starts with: if
that is a variable in whose scope the field stands, the field belongs to that variable
(`Occurrence.owner?`).

Variables differ from one another by their numbers, and there is no slash in them, so what is behind
them cannot make two of them equal.  They need not differ from the names of properties, which nothing
looks at when a number is given out.  So fields of different elements are never confused, and a field of
the entity is taken for that of an element exactly if its path starts with the variable
(`Condition.text_of_references`).
-/

set_option autoImplicit false

namespace EntityQuery

/-! ## What a path starts with -/

namespace Field

/-- What a path starts with as it is written, up to the first slash. -/
def start (f : Field) : String := String.ofList ((splitSlashes f.text.toList).headD [])

/-- A path starts with its first segment, if there is no slash in that. -/
theorem start_cons {segment : String} (h : '/' ∉ segment.toList) (path : List String) :
    start ⟨segment :: path⟩ = segment := by
  cases path with
  | nil =>
    rw [start, text, String.intercalate_singleton, splitSlashes_of_notMem h]
    exact String.ofList_toList
  | cons next rest =>
    have htext : (text ⟨segment :: next :: rest⟩).toList =
        segment.toList ++ '/' :: (text ⟨next :: rest⟩).toList := by
      rw [text, String.intercalate_cons_cons, String.toList_append, String.toList_append,
        List.append_assoc]
      rfl
    rw [start, htext, splitSlashes_append h]
    exact String.ofList_toList

/-- A text that starts with a segment is that of a path whose first segment it is. -/
theorem start_eq_iff {segment : String} (h : '/' ∉ segment.toList) (f : Field) :
    f.start = segment ↔ ∃ path, text ⟨segment :: path⟩ = f.text := by
  constructor
  · intro hstart
    obtain ⟨first, more, hparts⟩ := List.exists_cons_of_ne_nil (splitSlashes_ne_nil f.text.toList)
    have hsegment : segment = String.ofList first := by
      rw [← hstart, start, hparts]
      rfl
    refine ⟨more.map String.ofList, ?_⟩
    rw [hsegment, ← List.map_cons, ← hparts]
    exact text_ofText f.text
  · rintro ⟨path, htext⟩
    rw [start, ← htext]
    exact start_cons h path

end Field

theorem slash_notMem_variableName (n : Nat) : '/' ∉ (variableName n).toList := by
  have htext : (variableName n).toList = 'p' :: Nat.toDigits 10 n := by
    rw [variableName, String.toList_append, Nat.toList_repr]
    rfl
  rw [htext, List.mem_cons, not_or]
  refine ⟨by decide, fun hmem => ?_⟩
  have hdigit := Nat.isDigit_of_mem_toDigits (by decide) (by decide) hmem
  exact absurd hdigit (by decide)

/-! ## Whose a field is -/

/-- The range variable to which a field belongs for those who read it: the one that its text starts
with, if the field stands in the body of that variable's quantifier. -/
def Occurrence.owner? (o : Occurrence) : Option String :=
  if o.field.start ∈ o.around then some o.field.start else none

theorem Occurrence.owner?_eq_some {o : Occurrence} {name : String} :
    o.owner? = some name ↔ name ∈ o.around ∧ o.field.start = name := by
  rw [owner?, Option.ite_none_right_eq_some, Option.some_inj]
  constructor
  · rintro ⟨hmem, rfl⟩
    exact ⟨hmem, rfl⟩
  · rintro ⟨hmem, rfl⟩
    exact ⟨hmem, rfl⟩

namespace Source.Matches

variable {o : Occurrence} {path : List String} {n : Nat}

theorem start_element (h : (element n path).Matches o) : o.field.start = variableName n := by
  obtain ⟨-, hpath⟩ := h
  have hfield : o.field = ⟨variableName n :: path⟩ := congrArg Field.mk hpath
  rw [hfield]
  exact Field.start_cons (slash_notMem_variableName n) path

/-- What was taken from an element is read so. -/
theorem owner?_element (h : (element n path).Matches o) :
    o.owner? = some (variableName n) :=
  Occurrence.owner?_eq_some.2 ⟨h.1, h.start_element⟩

theorem field_entity (h : (entity path).Matches o) : o.field = ⟨path⟩ := congrArg Field.mk h

end Source.Matches

namespace Condition

/-- The fields of a tree that a condition was built into, in reading order, each with what it was taken
from. -/
def references (c : Condition) (next : Nat) (p : Predicate) : List (Source × Occurrence) :=
  (c.sources [] next).zip (p.expression.fields [])

/-- **Only names of properties can be taken for variables.**  In the tree of a condition,

* fields of the elements of different quantifiers have different texts, and each of them is read as one
  of its own element;
* a field of the entity has the text of some field of an element exactly if its path starts with the
  variable of that element, and it is read as one of an element exactly if its path starts with the
  variable of a quantifier in whose body it stands. -/
theorem text_of_references (c : Condition) {next : Nat} {p : Predicate}
    (hp : (c.predicate .paths next).1 = .ok p) :
    (c.references next p).map Prod.snd = p.expression.fields [] ∧
    (∀ m path o n path' o', (.element m path, o) ∈ c.references next p →
      (.element n path', o') ∈ c.references next p → m ≠ n → o.field.text ≠ o'.field.text) ∧
    (∀ n path o, (.element n path, o) ∈ c.references next p →
      o.owner? = some (variableName n)) ∧
    (∀ path o, (.entity path, o) ∈ c.references next p →
      (∀ n path' o', (.element n path', o') ∈ c.references next p →
        o.field.text = o'.field.text → Field.start ⟨path⟩ = variableName n) ∧
      (∀ n, (∃ path', ((Scope.element (variableName n)).property path').text = o.field.text) ↔
        Field.start ⟨path⟩ = variableName n) ∧
      ∀ name, o.owner? = some name ↔ name ∈ o.around ∧ Field.start ⟨path⟩ = name) := by
  have hbuilt := ((c.outcome_predicate next).good p hp).fields
  obtain ⟨hlength, hmatches⟩ := List.forall₂_iff_zip.1 hbuilt
  refine ⟨List.map_snd_zip (Nat.le_of_eq hlength.symm), ?_, ?_, ?_⟩
  · intro m path o n path' o' ho ho' hne htext
    have hm := (hmatches ho).start_element
    have hn := (hmatches ho').start_element
    rw [Field.start, htext] at hm
    exact hne (variableName_injective (hm.symm.trans hn))
  · intro n path o ho
    exact (hmatches ho).owner?_element
  · intro path o ho
    have hfield := (hmatches ho).field_entity
    refine ⟨?_, ?_, ?_⟩
    · intro n path' o' ho' htext
      rw [← hfield, Field.start, htext]
      exact (hmatches ho').start_element
    · intro n
      rw [← hfield]
      exact (Field.start_eq_iff (slash_notMem_variableName n) o.field).symm
    · intro name
      rw [← hfield]
      exact Occurrence.owner?_eq_some

/-- Some child is as old as a property of the entity says. -/
def asOldAs (path : List String) : Condition :=
  .quantify .any ⟨none, ["children"]⟩ (.compare .equals ⟨none, ["age"]⟩ (.property ⟨some 0, path⟩))

/-- The mother's age is read as hers. -/
theorem text_of_references_asOldAs :
    ∃ p, ((asOldAs ["mother", "age"]).predicate .paths 0).1 = .ok p ∧
      ∃ child mother, (asOldAs ["mother", "age"]).references 0 p =
          [(.entity ["children"], ⟨[], ⟨["children"]⟩⟩), (.element 0 ["age"], child),
            (.entity ["mother", "age"], mother)] ∧
        child.owner? = some "p0" ∧ mother.owner? = none ∧
        mother.field.text ≠ child.field.text := by
  obtain ⟨-, -, helement, hentity⟩ := @text_of_references (asOldAs ["mother", "age"]) 0 _ rfl
  have hchild := helement 0 ["age"] ⟨["p0"], ⟨["p0", "age"]⟩⟩ (.tail _ (.head _))
  obtain ⟨htext, -, howner⟩ := hentity ["mother", "age"] ⟨["p0"], ⟨["mother", "age"]⟩⟩
    (.tail _ (.tail _ (.head _)))
  have hstart : Field.start ⟨["mother", "age"]⟩ = "mother" := by decide
  refine ⟨_, rfl, _, _, rfl, hchild, ?_, ?_⟩
  · rw [Option.eq_none_iff_forall_ne_some]
    intro name hname
    obtain ⟨hmem, rfl⟩ := (howner name).1 hname
    rw [hstart] at hmem
    exact absurd hmem (by decide)
  · intro hsame
    have hvariable := htext 0 ["age"] _ (.tail _ (.head _)) hsame
    rw [hstart] at hvariable
    exact absurd hvariable (by decide)

/-- **A property may be taken for a variable.**  Its name is that of the variable, so a field of the
entity has the same text as one of the child, and is read as the child's. -/
theorem captured_asOldAs :
    ∃ p, ((asOldAs ["p0", "age"]).predicate .paths 0).1 = .ok p ∧
      ∃ child property, (asOldAs ["p0", "age"]).references 0 p =
          [(.entity ["children"], ⟨[], ⟨["children"]⟩⟩), (.element 0 ["age"], child),
            (.entity ["p0", "age"], property)] ∧
        property.field.text = child.field.text ∧ property.owner? = some "p0" ∧
        p.expression.filterText = .ok (some "children/any(p0: p0/age eq p0/age)") :=
  ⟨_, rfl, ⟨["p0"], ⟨["p0", "age"]⟩⟩, ⟨["p0"], ⟨["p0", "age"]⟩⟩, rfl, rfl, by decide, rfl⟩

end Condition

end EntityQuery
