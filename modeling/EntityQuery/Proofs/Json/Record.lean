import EntityQuery.Json.Decoder
import EntityQuery.Proofs.Except
import EntityQuery.Proofs.Json.Members

/-!
# Records, property by property

`Decoder.Record.takeMembers` goes over the members of an object in their order, and puts into the record
what it knows of.  If no key comes twice, the order does not matter.  The record can be taken if each of
its properties can (`Decoder.Record.exists_takeMembers`), and what a property is then is told by the member
of its name alone (`Decoder.Record.ofMember_get`).
-/

set_option autoImplicit false

namespace EntityQuery

namespace Decoder

variable {σ α : Type}

/-- What a member is taken for, or what stands for it if it is not there. -/
def ofMember (d : Decoder α) (absent : α) : Option Json → Except JsonFault α
  | none => .ok absent
  | some j => d.ofJson j

/-- Whether a property can be taken from a member, or do without. -/
def Property.IsTaken (p : Property σ) : Option Json → Prop
  | none => p.absence ≠ .refused
  | some j => ∃ put, p.decoder.ofJson j = .ok put

theorem isTaken_property {name : String} {absence : Absence} {d : Decoder α} {put : α → σ → σ}
    {found : Option Json} {absent v : α} (h : d.ofMember absent found = .ok v)
    (hfound : absence ≠ .refused ∨ found ≠ none) : (property name absence d put).IsTaken found := by
  cases found with
  | none => exact hfound.resolve_right fun hne => hne rfl
  | some j => exact ⟨put v, map_eq_ok.2 ⟨v, h, rfl⟩⟩

@[simp] theorem name_property (name : String) (absence : Absence) (d : Decoder α)
    (put : α → σ → σ) : (property name absence d put).name = name := rfl

/-- A property that leaves alone what `get` sees of a record. -/
def Property.Keeps (p : Property σ) (get : σ → α) : Prop :=
  ∀ j put, p.decoder.ofJson j = .ok put → ∀ s, get (put s) = get s

theorem keeps_property {β : Type} {name : String} {absence : Absence} {d : Decoder β}
    {put : β → σ → σ} {get : σ → α} (h : ∀ v s, get (put v s) = get s) :
    (property name absence d put).Keeps get := by
  intro j put' hput' s
  obtain ⟨v, -, rfl⟩ := map_eq_ok.1 hput'
  exact h v s

namespace Record

variable {r : Record σ} {members : List (String × Json)} {seen : List String} {s t : σ}

theorem mem_of_find? {key : String} {p : Property σ} (h : r.find? key = some p) :
    p ∈ r.properties ∧ p.name = key :=
  ⟨List.mem_of_find?_eq_some h, by simpa using List.find?_some h⟩

theorem missing?_eq_none (h : ∀ p ∈ r.properties, p.name ∉ seen → p.absence ≠ .refused) :
    r.missing? seen = none := by
  rw [missing?, Option.map_eq_none_iff, List.find?_eq_none]
  intro p hp hmissing
  rw [Bool.and_eq_true, beq_iff_eq, Bool.not_eq_true', List.contains_eq_mem, decide_eq_false_iff_not]
    at hmissing
  exact h p hp hmissing.2 hmissing.1

theorem takeMembers_nil : r.takeMembers seen s [] =
    match r.missing? seen with
    | none => .ok s
    | some m => .error (.ofMismatch m) := rfl

theorem takeMembers_cons {key : String} {j : Json} :
    r.takeMembers seen s ((key, j) :: members) =
      match r.find? key with
      | none => r.takeMembers seen s members
      | some p =>
        if seen.contains key then .error (.ofMismatch (.duplicateField key))
        else p.decoder.ofJson j >>= fun put => r.takeMembers (key :: seen) (put s) members := rfl

/-- A property that has to be there is. -/
theorem mem_keys_of_refused {p : Property σ} (hp : p ∈ r.properties) (hrefused : p.absence = .refused)
    (h : r.takeMembers seen s members = .ok t) :
    p.name ∈ seen ∨ p.name ∈ members.map Prod.fst := by
  induction members generalizing seen s with
  | nil =>
    rw [takeMembers_nil] at h
    split at h
    · next hmissing =>
      rw [missing?, Option.map_eq_none_iff, List.find?_eq_none] at hmissing
      exact .inl (by simpa [hrefused] using hmissing p hp)
    · cases h
  | cons m rest ih =>
    obtain ⟨key, j⟩ := m
    rw [takeMembers_cons] at h
    split at h
    · exact (ih h).imp_right (List.mem_cons_of_mem _)
    · obtain ⟨put, -, h⟩ := bind_eq_ok.1 (eq_ok_of_ite h)
      rcases ih h with hseen | hrest
      · exact (List.mem_cons.1 hseen).symm.imp_right fun heq => List.mem_cons.2 (.inl heq)
      · exact .inr (List.mem_cons_of_mem _ hrest)

theorem lookup_ne_none_of_refused {name : String} {p : Property σ} (hfind : r.find? name = some p)
    (hrefused : p.absence = .refused) (h : r.takeMembers [] s members = .ok t) :
    members.lookup name ≠ none := by
  obtain ⟨hp, rfl⟩ := mem_of_find? hfind
  intro hnone
  obtain ⟨m, hm, hname⟩ :=
    List.mem_map.1 ((mem_keys_of_refused hp hrefused h).resolve_left List.not_mem_nil)
  exact bne_iff_ne.1 (List.lookup_eq_none_iff.1 hnone m hm) hname.symm

/-- Everything that is still to come can be taken. -/
theorem exists_takeMembers_of_seen (hkeys : (members.map Prod.fst).Nodup)
    (hseen : ∀ key ∈ seen, key ∉ members.map Prod.fst)
    (h : ∀ p ∈ r.properties, p.name ∉ seen → p.IsTaken (members.lookup p.name)) :
    ∃ t, r.takeMembers seen s members = .ok t := by
  induction members generalizing seen s with
  | nil =>
    rw [takeMembers_nil, missing?_eq_none h]
    exact ⟨s, rfl⟩
  | cons m rest ih =>
    obtain ⟨key, j⟩ := m
    obtain ⟨hkey, hrest⟩ := List.nodup_cons.1 hkeys
    have hseenRest : ∀ k ∈ seen, k ∉ rest.map Prod.fst := fun k hk hmem =>
      hseen k hk (List.mem_cons_of_mem _ hmem)
    -- Properties of other names have to look further on.
    have hother : ∀ p ∈ r.properties, p.name ≠ key → p.name ∉ seen →
        p.IsTaken (rest.lookup p.name) := by
      intro p hp hne hnew
      have htaken := h p hp hnew
      rwa [List.lookup_cons, beq_false_of_ne hne] at htaken
    rw [takeMembers_cons]
    cases hfind : r.find? key with
    | none =>
      refine ih hrest hseenRest fun p hp => hother p hp ?_
      rintro rfl
      exact List.find?_eq_none.1 hfind p hp (beq_self_eq_true _)
    | some p =>
      obtain ⟨hp, rfl⟩ := mem_of_find? hfind
      have hnew : p.name ∉ seen := fun hmem => hseen _ hmem List.mem_cons_self
      obtain ⟨put, hput⟩ : p.IsTaken (some j) := by simpa using h p hp hnew
      simp only [List.contains_eq_mem, hnew, decide_false, Bool.false_eq_true, if_false, hput]
      refine ih hrest (List.forall_mem_cons.2 ⟨hkey, hseenRest⟩) fun q hq hq' => ?_
      rw [List.mem_cons, not_or] at hq'
      exact hother q hq hq'.1 hq'.2

/-- **A record can be taken if each of its properties can**, from the member of its name. -/
theorem exists_takeMembers (hkeys : (members.map Prod.fst).Nodup)
    (h : ∀ p ∈ r.properties, p.IsTaken (members.lookup p.name)) :
    ∃ t, r.takeMembers [] s members = .ok t :=
  exists_takeMembers_of_seen hkeys nofun fun p hp _ => h p hp

/-- **What a property is when a record was taken.**  It is what the member of its name was taken for, or
what it was before if there is none.  Other properties leave it alone. -/
theorem ofMember_get (get : σ → α) {name : String} {absence : Absence} {d : Decoder α}
    {put : α → σ → σ} (hfind : r.find? name = some (property name absence d put))
    (hput : ∀ v s, get (put v s) = v)
    (hkeep : ∀ p ∈ r.properties, p.name ≠ name → p.Keeps get)
    (hkeys : (members.map Prod.fst).Nodup) (h : r.takeMembers seen s members = .ok t) :
    d.ofMember (get s) (members.lookup name) = .ok (get t) := by
  induction members generalizing seen s with
  | nil =>
    rw [takeMembers_nil] at h
    split at h
    · obtain rfl := Except.ok.inj h
      rfl
    · cases h
  | cons m rest ih =>
    obtain ⟨key, j⟩ := m
    obtain ⟨hkey, hrest⟩ := List.nodup_cons.1 hkeys
    rw [takeMembers_cons] at h
    rw [List.lookup_cons]
    split at h
    · next hnone =>
      have hne : name ≠ key := by
        rintro rfl
        rw [hfind] at hnone
        cases hnone
      rw [beq_false_of_ne hne]
      exact ih hrest h
    · next p hp =>
      have h := eq_ok_of_ite h
      obtain ⟨putKey, hputKey, h⟩ := bind_eq_ok.1 h
      have hget := ih hrest h
      by_cases hname : name = key
      · subst hname
        -- No other member has this name.
        have hlookup : rest.lookup name = none := by
          rw [List.lookup_eq_none_iff]
          intro m hm
          exact bne_iff_ne.2 fun heq => hkey (List.mem_map.2 ⟨m, hm, heq.symm⟩)
        obtain rfl := Option.some.inj (hfind.symm.trans hp)
        obtain ⟨v, hv, rfl⟩ := map_eq_ok.1 hputKey
        rw [hlookup, hput] at hget
        rw [beq_self_eq_true, ofMember, ← hget]
        exact hv
      · obtain ⟨hmem, rfl⟩ := mem_of_find? hp
        rw [hkeep p hmem (Ne.symm hname) j putKey hputKey] at hget
        rwa [beq_false_of_ne hname]

end Record

end Decoder

end EntityQuery
