import EntityQuery.Response
import EntityQuery.Proofs.Json.Record
import Mathlib.Algebra.Group.Nat.Defs

/-!
# Pages in a body

A page and a counted page are taken from the same bodies, each by a decoder of its own.  Three members of
an object tell whether it is a page, and which one (`Page.ofJson_object_iff`).

A counted page is there exactly if a page is, and the one member more is absent, null, or a natural number
below `2^64` (`IsCount`); and then the two agree but for the count (`CountedPage.ofJson_object_iff`).
-/

set_option autoImplicit false

namespace EntityQuery

open Decoder

/-! ## Annotations -/

/-- What an annotation is taken for.  Missing and null are the same. -/
def TakesNote {α : Type} (d : Decoder α) (found : Option Json) (v : Option α) : Prop :=
  (optional d).ofMember none found = .ok v

/-- **The count of a body**, from the member that may hold it. -/
inductive IsCount : Option Json → Option Nat → Prop
  | absent : IsCount none none
  | null : IsCount (some .null) none
  | integer (n : Nat) (h : n < 2 ^ 64) : IsCount (some (.number (.integer n))) (some n)

theorem natural_ofJson_integer {k : Int} {n : Nat} :
    natural.ofJson (.number (.integer k)) = .ok n ↔ k = n ∧ n < 2 ^ 64 := by
  have hofJson : natural.ofJson (.number (.integer k)) = Except.map Int.toNat
      (if 0 ≤ k ∧ k ≤ 2 ^ 64 - 1 then Except.ok k else Except.error
        (.ofMismatch (.invalidValue (Json.number (.integer k)).described "u64"))) := rfl
  rw [hofJson]
  split
  · next hrange =>
    obtain ⟨m, rfl⟩ := Int.eq_ofNat_of_zero_le hrange.1
    simp only [Except.map, Except.ok.injEq, Int.toNat_natCast, Int.natCast_inj]
    omega
  · refine iff_of_false nofun ?_
    rintro ⟨rfl, hn⟩
    omega

theorem isCount_iff {found : Option Json} {count : Option Nat} :
    IsCount found count ↔ TakesNote natural found count := by
  constructor
  · rintro (_ | _ | ⟨n, hn⟩)
    · rfl
    · rfl
    · exact map_eq_ok.2 ⟨n, natural_ofJson_integer.2 ⟨rfl, hn⟩, rfl⟩
  · intro h
    match found, h with
    | none, h => exact Except.ok.inj h ▸ .absent
    | some .null, h => exact Except.ok.inj h ▸ .null
    | some (.number (.integer k)), h =>
      obtain ⟨n, hn, rfl⟩ := map_eq_ok.1 h
      obtain ⟨rfl, hlt⟩ := natural_ofJson_integer.1 hn
      exact .integer n hlt

theorem list_any_ofJson {j : Json} {items : List Json} :
    (list any).ofJson j = .ok items ↔ j = .array items := by
  cases j with
  | array js =>
    have htake : (list any).ofJson (.array js) = .ok items ↔ List.Forall₂ Eq js items := by
      refine mapM_eq_ok.trans ?_
      simp [any]
    rw [htake, List.forall₂_eq_eq_eq, Json.array.injEq]
  | _ => exact iff_of_false nofun nofun

theorem ofMember_list_any_iff {found : Option Json} (hfound : found ≠ none) {items : List Json} :
    (list any).ofMember [] found = .ok items ↔ found = some (.array items) := by
  cases found with
  | none => exact absurd rfl hfound
  | some j => rw [Option.some.injEq, ofMember, list_any_ofJson]

/-! ## Pages -/

/-- The same page without its count. -/
def CountedPage.uncounted {α : Type} (page : CountedPage α) : Page α :=
  ⟨page.context, page.nextLink, page.value⟩

theorem CountedPage.eq_of_uncounted {α : Type} {page other : CountedPage α}
    (h : page.uncounted = other.uncounted) (hcount : page.count = other.count) : page = other := by
  obtain ⟨context, nextLink, count, value⟩ := page
  obtain ⟨context', nextLink', count', value'⟩ := other
  obtain ⟨rfl, rfl, rfl⟩ := Page.mk.inj h
  obtain rfl : count = count' := hcount
  rfl

/-- A page and the members of an object that it is made of. -/
structure Page.IsIn (members : List (String × Json)) (page : Page Json) : Prop where
  context : TakesNote text (members.lookup contextKey) page.context
  nextLink : TakesNote text (members.lookup nextLinkKey) page.nextLink
  value : members.lookup valueKey = some (.array page.value)

section Pages

variable {members : List (String × Json)}

/-- There is at most one page in an object. -/
theorem Page.IsIn.unique {page other : Page Json} (h : page.IsIn members) (h' : other.IsIn members) :
    page = other := by
  obtain ⟨context, nextLink, value⟩ := page
  obtain ⟨context', nextLink', value'⟩ := other
  obtain rfl := Except.ok.inj (h.context.symm.trans h'.context)
  obtain rfl := Except.ok.inj (h.nextLink.symm.trans h'.nextLink)
  obtain rfl := Json.array.inj (Option.some.inj (h.value.symm.trans h'.value))
  rfl

variable (hkeys : (members.map Prod.fst).Nodup)

include hkeys

theorem Page.isIn_of_ofJson {page : Page Json}
    (h : (Page.decoder .any).ofJson (.object members) = .ok page) : page.IsIn members where
  context := Record.ofMember_get Page.context rfl (fun _ _ => rfl) (by simp [keeps_property]) hkeys h
  nextLink := Record.ofMember_get Page.nextLink rfl (fun _ _ => rfl) (by simp [keeps_property]) hkeys h
  value := by
    refine (ofMember_list_any_iff (Record.lookup_ne_none_of_refused rfl rfl h)).1 ?_
    exact Record.ofMember_get Page.value rfl (fun _ _ => rfl) (by simp [keeps_property]) hkeys h

/-- **When an object is a page**, and which page it is. -/
theorem Page.ofJson_object_iff {page : Page Json} :
    (Page.decoder .any).ofJson (.object members) = .ok page ↔ page.IsIn members := by
  refine ⟨isIn_of_ofJson hkeys, fun h => ?_⟩
  have hfound : members.lookup valueKey ≠ none := by simp [h.value]
  obtain ⟨other, hother⟩ : ∃ other, (Page.decoder .any).ofJson (.object members) = .ok other := by
    refine Record.exists_takeMembers hkeys (List.forall_mem_cons.2 ⟨?_, List.forall_mem_cons.2
      ⟨?_, List.forall_mem_cons.2 ⟨?_, nofun⟩⟩⟩)
    · exact isTaken_property h.context (.inl nofun)
    · exact isTaken_property h.nextLink (.inl nofun)
    · exact isTaken_property ((ofMember_list_any_iff hfound).2 h.value) (.inr hfound)
  rw [hother, h.unique (isIn_of_ofJson hkeys hother)]

theorem CountedPage.isIn_of_ofJson {page : CountedPage Json}
    (h : (CountedPage.decoder .any).ofJson (.object members) = .ok page) :
    page.uncounted.IsIn members ∧ TakesNote natural (members.lookup countKey) page.count := by
  refine ⟨⟨?_, ?_, ?_⟩, ?_⟩
  · exact Record.ofMember_get CountedPage.context rfl (fun _ _ => rfl) (by simp [keeps_property])
      hkeys h
  · exact Record.ofMember_get CountedPage.nextLink rfl (fun _ _ => rfl) (by simp [keeps_property])
      hkeys h
  · refine (ofMember_list_any_iff (Record.lookup_ne_none_of_refused rfl rfl h)).1 ?_
    exact Record.ofMember_get CountedPage.value rfl (fun _ _ => rfl) (by simp [keeps_property])
      hkeys h
  · exact Record.ofMember_get CountedPage.count rfl (fun _ _ => rfl) (by simp [keeps_property])
      hkeys h

/-- **When an object is a counted page**: if it is a page, and its count is one. -/
theorem CountedPage.ofJson_object_iff {page : CountedPage Json} :
    (CountedPage.decoder .any).ofJson (.object members) = .ok page ↔
      (Page.decoder .any).ofJson (.object members) = .ok page.uncounted ∧
        IsCount (members.lookup countKey) page.count := by
  rw [Page.ofJson_object_iff hkeys, isCount_iff]
  refine ⟨isIn_of_ofJson hkeys, fun ⟨h, hcount⟩ => ?_⟩
  have hfound : members.lookup valueKey ≠ none := by simp [h.value]
  obtain ⟨other, hother⟩ :
      ∃ other, (CountedPage.decoder .any).ofJson (.object members) = .ok other := by
    refine Record.exists_takeMembers hkeys (List.forall_mem_cons.2 ⟨?_, List.forall_mem_cons.2
      ⟨?_, List.forall_mem_cons.2 ⟨?_, List.forall_mem_cons.2 ⟨?_, nofun⟩⟩⟩⟩)
    · exact isTaken_property h.context (.inl nofun)
    · exact isTaken_property h.nextLink (.inl nofun)
    · exact isTaken_property hcount (.inl nofun)
    · exact isTaken_property ((ofMember_list_any_iff hfound).2 h.value) (.inr hfound)
  obtain ⟨hother', hcount'⟩ := isIn_of_ofJson hkeys hother
  have hcount : other.count = page.count := Except.ok.inj (hcount'.symm.trans hcount)
  rw [hother, eq_of_uncounted (hother'.unique h) hcount]

end Pages

end EntityQuery
