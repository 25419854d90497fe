import EntityQuery.Query
import EntityQuery.Proofs.Chain.Slots

/-!
# Projections of selected properties

A query with a projection asks for the properties that the projection reads when it is run on nothing,
and a service may then send these and no others.  `Json.keep` is what such a service leaves of a record.
Paths may overlap: with `mother` and `mother/lastName` the whole `mother` is kept.

Two facts make this harmless.

* A run depends on nothing but the answers to what it reads (`Projection.run_congr`), though what it reads
  next may depend on the answers before.
* Whatever is at a kept path is found there as before, or is missing there as before
  (`Projection.lookup_keep`).

So **a projection makes the same of what is left of a record as of the whole record**, as long as it reads
on the record nothing that it did not read on nothing (`Projection.apply_keep`).  A projection without
choices always reads the same.
-/

set_option autoImplicit false

namespace EntityQuery

/-! ## What is left of a value -/

namespace Json

/-- The rests of those paths that lead through a member. -/
def pathsBelow (key : String) (paths : List (List String)) : List (List String) :=
  paths.filterMap fun
    | [] => none
    | segment :: rest => if segment = key then some rest else none

theorem mem_pathsBelow {key : String} {paths : List (List String)} {rest : List String} :
    rest ∈ pathsBelow key paths ↔ key :: rest ∈ paths := by
  rw [pathsBelow, List.mem_filterMap]
  constructor
  · rintro ⟨path, hpath, hrest⟩
    cases path with
    | nil => cases hrest
    | cons segment tail =>
      dsimp only at hrest
      split at hrest
      · next heq =>
        cases hrest
        exact heq ▸ hpath
      · cases hrest
  · intro hpath
    exact ⟨key :: rest, hpath, by simp⟩

mutual

/-- What is left of a value when only what is at some paths is kept.  A value is kept whole at the end of
a path; in the middle of one, an object keeps the members that some path leads through, a list is cut
down element by element, and any other value has nothing to be cut. -/
def keep (paths : List (List String)) : Json → Json
  | .object members => .object (if [] ∈ paths then members else keepMembers paths members)
  | .array items => .array (if [] ∈ paths then items else keepItems paths items)
  | j => j

/-- What is left of the members of an object. -/
def keepMembers (paths : List (List String)) : List (String × Json) → List (String × Json)
  | [] => []
  | (key, value) :: rest =>
    if pathsBelow key paths = [] then keepMembers paths rest
    else (key, value.keep (pathsBelow key paths)) :: keepMembers paths rest

/-- What is left of the elements of a list. -/
def keepItems (paths : List (List String)) : List Json → List Json
  | [] => []
  | j :: rest => j.keep paths :: keepItems paths rest

end

/-- A member that a path leads through stays a member, and others of its name stay behind it. -/
theorem lookup_keepMembers {paths : List (List String)} {key : String}
    (h : pathsBelow key paths ≠ []) (members : List (String × Json)) :
    (keepMembers paths members).lookup key
      = (members.lookup key).map fun value => value.keep (pathsBelow key paths) := by
  induction members with
  | nil => simp [keepMembers]
  | cons member rest ih =>
    obtain ⟨k, value⟩ := member
    rw [keepMembers]
    by_cases hkey : key = k
    · subst hkey
      rw [if_neg h]
      simp
    · have hne : (key == k) = false := by simpa using hkey
      rw [List.lookup_cons, hne]
      split
      · exact ih
      · rw [List.lookup_cons, hne]
        exact ih

end Json

namespace Projection

/-! ## Looking up what is left -/

/-- Nothing but an object has properties. -/
theorem lookup_of_get?_eq_none {j : Json} {segment : String} (h : j.get? segment = none)
    (rest : List String) : lookup (segment :: rest) j = .null := by
  rw [lookup, h]

/-- **What is at a kept path is left there**, be it there or missing, with whatever in the middle. -/
theorem lookup_keep {path : List String} {paths : List (List String)} (h : path ∈ paths) (j : Json) :
    lookup path (j.keep paths) = lookup path j := by
  induction path generalizing paths j with
  | nil =>
    -- At the end of a path nothing is cut.
    cases j with
    | object members => rw [Json.keep, if_pos h]
    | array items => rw [Json.keep, if_pos h]
    | _ => rfl
  | cons segment rest ih =>
    cases j with
    | object members =>
      rw [Json.keep]
      split
      · rfl
      · have hrest : rest ∈ Json.pathsBelow segment paths := Json.mem_pathsBelow.2 h
        have hbelow : Json.pathsBelow segment paths ≠ [] := List.ne_nil_of_mem hrest
        rw [lookup, lookup, Json.get?, Json.get?, Json.lookup_keepMembers hbelow]
        cases members.lookup segment with
        | none => rfl
        | some value => exact ih hrest value
    | array items => rw [Json.keep, lookup_of_get?_eq_none rfl, lookup_of_get?_eq_none rfl]
    | _ => rfl

example : (Json.object [("age", .null), ("mother", .object [("age", .bool true), ("name", .null)])]).keep
    [["mother", "age"], ["name"]] = .object [("mother", .object [("age", .bool true)])] := rfl

/-! ## What a run depends on -/

section Run

variable {answer answer' : List String → Json}

mutual

/-- **A run depends on nothing but what it reads.** -/
theorem run_congr : ∀ {p : Projection}, (∀ path ∈ (p.run answer).1, answer' path = answer path) →
    p.run answer' = p.run answer
  | read path, h => by
    rw [run, run, h path (by simp [run])]
  | object members, h => by
    rw [run, run, runMembers_congr (by simpa only [run] using h)]
  | array items, h => by
    rw [run, run, runItems_congr (by simpa only [run] using h)]
  | choose path next, h => by
    rw [run, List.forall_mem_cons] at h
    -- The choice is made by an answer that is the same, so the run goes on with the same projection.
    rw [run, run, h.1, run_congr h.2]
  | const value, _ => by
    rw [run, run]

theorem runMembers_congr : ∀ {members : List (String × Projection)},
    (∀ path ∈ (runMembers answer members).1, answer' path = answer path) →
    runMembers answer' members = runMembers answer members
  | [], _ => by
    rw [runMembers, runMembers]
  | (key, p) :: rest, h => by
    rw [runMembers, List.forall_mem_append] at h
    rw [runMembers, runMembers, run_congr h.1, runMembers_congr h.2]

theorem runItems_congr : ∀ {items : List Projection},
    (∀ path ∈ (runItems answer items).1, answer' path = answer path) →
    runItems answer' items = runItems answer items
  | [], _ => by
    rw [runItems, runItems]
  | p :: rest, h => by
    rw [runItems, List.forall_mem_append] at h
    rw [runItems, runItems, run_congr h.1, runItems_congr h.2]

end

/-! ## Projections without choices -/

mutual

/-- Whether a projection goes on in the same way whatever it reads. -/
def isFixed : Projection → Bool
  | read _ => true
  | object members => areFixedMembers members
  | array items => areFixed items
  | choose _ _ => false
  | const _ => true

/-- Whether the projections of an object's members are fixed. -/
def areFixedMembers : List (String × Projection) → Bool
  | [] => true
  | (_, p) :: rest => p.isFixed && areFixedMembers rest

/-- Whether several projections are fixed. -/
def areFixed : List Projection → Bool
  | [] => true
  | p :: rest => p.isFixed && areFixed rest

end

mutual

/-- What a fixed projection reads does not depend on the answers. -/
theorem reads_of_isFixed : ∀ {p : Projection}, p.isFixed = true →
    (p.run answer').1 = (p.run answer).1
  | read path, _ => by
    rw [run, run]
  | object members, h => by
    rw [run, run]
    exact reads_of_areFixedMembers (by simpa only [isFixed] using h)
  | array items, h => by
    rw [run, run]
    exact reads_of_areFixed (by simpa only [isFixed] using h)
  | choose path next, h => by
    rw [isFixed] at h
    cases h
  | const value, _ => by
    rw [run, run]

theorem reads_of_areFixedMembers : ∀ {members : List (String × Projection)},
    areFixedMembers members = true →
    (runMembers answer' members).1 = (runMembers answer members).1
  | [], _ => by
    rw [runMembers, runMembers]
  | (key, p) :: rest, h => by
    rw [areFixedMembers, Bool.and_eq_true] at h
    rw [runMembers, runMembers, reads_of_isFixed h.1, reads_of_areFixedMembers h.2]

theorem reads_of_areFixed : ∀ {items : List Projection}, areFixed items = true →
    (runItems answer' items).1 = (runItems answer items).1
  | [], _ => by
    rw [runItems, runItems]
  | p :: rest, h => by
    rw [areFixed, Bool.and_eq_true] at h
    rw [runItems, runItems, reads_of_isFixed h.1, reads_of_areFixed h.2]

end

end Run

/-! ## The fields of a projection -/

theorem mem_foldl_firstUses {α : Type} [DecidableEq α] {x : α} (xs seen : List α) :
    x ∈ xs.foldl (fun seen x => if x ∈ seen then seen else seen ++ [x]) seen ↔ x ∈ seen ∨ x ∈ xs := by
  induction xs generalizing seen with
  | nil => simp
  | cons y rest ih =>
    rw [List.foldl_cons, ih, List.mem_cons]
    split
    · next hy =>
      constructor
      · rintro (hx | hx)
        · exact .inl hx
        · exact .inr (.inr hx)
      · rintro (hx | rfl | hx)
        · exact .inl hx
        · exact .inl hy
        · exact .inr hx
    · rw [List.mem_append, List.mem_singleton, or_assoc]

/-- Nothing is lost when each element is taken once. -/
theorem mem_firstUses {α : Type} [DecidableEq α] {xs : List α} {x : α} :
    x ∈ firstUses xs ↔ x ∈ xs := by
  rw [firstUses, mem_foldl_firstUses]
  simp

/-- The paths of the fields to select are those that are read, the whole record apart. -/
theorem mem_path_fields {p : Projection} {path : List String} :
    path ∈ p.fields.map Field.path ↔ path ≠ [] ∧ path ∈ p.reads := by
  have hpath : Field.path ∘ Field.mk = id := rfl
  rw [fields, List.map_map, hpath, List.map_id, mem_firstUses, List.mem_filter, and_comm]
  simp

/-- What a projection reads on a record. -/
def readsOn (p : Projection) (record : Json) : List (List String) :=
  (p.run fun path => lookup path record).1

/-! ## Reshaping what is left -/

theorem ownProjection?_fields (fields : List Field) (p : Projection) :
    Expression.ownProjection? (fields.map .field ++ [.projection p]) = some p := by
  induction fields with
  | nil => rfl
  | cons f rest ih => exact ih

/-- A query with a projection puts its records through it, whatever it was before. -/
theorem projection?_selectWith (q : Query) (p : Projection) (result : Shape) :
    (q.selectWith p result).projection? = some p := by
  have hselect : ∀ operands previous, (Expression.node .select operands previous).projection?
      = Expression.ownProjection? operands := by
    intro operands previous
    cases previous with
    | none => rfl
    | some e => rfl
  exact (hselect _ q.head).trans (ownProjection?_fields p.fields p)

theorem fieldTexts_fields (fields : List Field) (p : Projection) :
    Segments.fieldTexts (fields.map .field ++ [.projection p]) = fields.map Field.text := by
  induction fields with
  | nil => rfl
  | cons f rest ih => exact congrArg (f.text :: ·) ih

/-- The fields that a query with a projection asks for, if it asks for some only. -/
theorem select_selectWith {q : Query} {p : Projection} {result : Shape} {s : Segments}
    (h : Segments.ofChain (q.selectWith p result).head = .ok s) :
    s.select.getD [] = p.fields.map Field.text := by
  obtain ⟨_, rfl⟩ := Segments.ofChain_eq_ok.1 h
  have hsteps : Expression.steps (q.selectWith p result).head
      = Expression.steps q.head ++
        [(Operator.select, p.fields.map Operand.field ++ [Operand.projection p])] :=
    Expression.steps_node _ _ _
  have hslot : Operator.slot? .select = some .select := rfl
  rw [hsteps]
  simp only [Segments.meaning, Slot.of_append, Slot.of_singleton, hslot, if_pos,
    List.getLast?_append, List.getLast?_singleton, Option.some_or, Option.bind_some,
    Segments.selection, fieldTexts_fields]
  split
  · next hnone => simpa using hnone
  · rfl

/-- **A projection sees everything it asks for.**  Let a projection read on a record nothing but
properties, and only such that it also read on nothing.  Then it makes the same of what is left of the
record, when only the fields it selects are kept, as of the whole record, and so do the results of every
query with that projection; and those fields are the ones the query asks for.  A projection that makes
no choice and does not read the whole record always reads in this way. -/
theorem apply_keep (p : Projection) (record : Json) :
    ((∀ path ∈ p.readsOn record, path ≠ [] ∧ path ∈ p.reads) →
      p.apply (record.keep (p.fields.map Field.path)) = p.apply record ∧
        ∀ (q : Query) (result : Shape),
          (q.selectWith p result).resultOf (record.keep (p.fields.map Field.path))
            = (q.selectWith p result).resultOf record) ∧
      (∀ (q : Query) (result : Shape) (s : Segments),
        Segments.ofChain (q.selectWith p result).head = .ok s →
          s.select.getD [] = p.fields.map Field.text) ∧
      (p.isFixed = true → [] ∉ p.reads →
        ∀ path ∈ p.readsOn record, path ≠ [] ∧ path ∈ p.reads) := by
  refine ⟨?_, fun q result s => select_selectWith, ?_⟩
  · intro h
    have hanswer : ∀ path ∈ p.readsOn record,
        lookup path (record.keep (p.fields.map Field.path)) = lookup path record := by
      intro path hpath
      exact lookup_keep (mem_path_fields.2 (h path hpath)) record
    have happly : p.apply (record.keep (p.fields.map Field.path)) = p.apply record :=
      congrArg Prod.snd (run_congr hanswer)
    refine ⟨happly, ?_⟩
    intro q result
    simp only [Query.resultOf, Query.resultBy, Query.reshaped, projection?_selectWith, happly]
  · intro hfixed hroot path hpath
    have hreads : p.readsOn record = p.reads := reads_of_isFixed hfixed
    rw [hreads] at hpath
    refine ⟨?_, hpath⟩
    rintro rfl
    exact hroot hpath

/-- A name, and the last name of the mother if one is recorded, beside all of the mother. -/
def kinship : Projection :=
  object
    [("name", read ["firstName"]),
     ("kin", ifSet ["mother"] (read ["mother", "lastName"]) (const .null)),
     ("all", array [read ["mother", "lastName"], read ["mother", "age", "years"]])]

/-- A record in which a number stands in the middle of a path. -/
def kinshipRecord : Json :=
  .object
    [("age", .number (.integer 7)), ("firstName", .text "Ann"),
     ("mother", .object [("age", .number (.integer 40)), ("lastName", .text "Lee")])]

/-- Overlapping paths, a choice, a property that is left out and a path that leads nowhere. -/
theorem apply_keep_kinship :
    (∀ path ∈ kinship.readsOn kinshipRecord, path ≠ [] ∧ path ∈ kinship.reads) ∧
      kinship.apply (kinshipRecord.keep (kinship.fields.map Field.path))
        = kinship.apply kinshipRecord := by
  have hreads : ∀ path ∈ kinship.readsOn kinshipRecord, path ≠ [] ∧ path ∈ kinship.reads := by
    decide
  exact ⟨hreads, ((apply_keep kinship kinshipRecord).1 hreads).1⟩

end Projection

end EntityQuery
