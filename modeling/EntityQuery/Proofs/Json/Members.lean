import EntityQuery.Json.Reader
import EntityQuery.Proofs.Except
import Mathlib.Data.List.Nodup

/-!
# Members of an object

An object keeps its members in the ascending order of their keys.  The type does not say so, but
`Json.insertMember`, which puts a member into its place, keeps a list ascending if it is, and so every
object that is read from a text has its keys in order, and each key once
(`Json.isAscending_of_ofBytes`).
-/

set_option autoImplicit false

namespace EntityQuery

/-- Members in the ascending order of their keys. -/
def IsAscending {α : Type} (members : List (String × α)) : Prop :=
  members.Pairwise fun m n => m.1 < n.1

namespace IsAscending

variable {α : Type} {members : List (String × α)} {key k : String} {value v : α}

theorem nil : IsAscending ([] : List (String × α)) := List.Pairwise.nil

/-- Each key is there once. -/
theorem nodup_keys (h : IsAscending members) : (members.map Prod.fst).Nodup := by
  rw [List.Nodup, List.pairwise_map]
  refine h.imp ?_
  intro m n hlt heq
  rw [heq] at hlt
  exact String.lt_irrefl _ hlt

/-- What is found behind an insertion was there before, or is the member that was inserted. -/
theorem mem_insertMember {m : String × α} (h : m ∈ Json.insertMember key value members) :
    m = (key, value) ∨ m ∈ members := by
  induction members with
  | nil => exact .inl (List.mem_singleton.1 h)
  | cons first rest ih =>
    rw [Json.insertMember] at h
    split at h
    · exact (List.mem_cons.1 h).imp_right (List.mem_cons_of_mem _)
    · split at h
      · exact List.mem_cons.1 h
      · rcases List.mem_cons.1 h with rfl | h
        · exact .inr List.mem_cons_self
        · exact (ih h).imp_right (List.mem_cons_of_mem _)

/-- **A member goes into its place.** -/
theorem insertMember (h : IsAscending members) (key : String) (value : α) :
    IsAscending (Json.insertMember key value members) := by
  induction members with
  | nil => exact List.pairwise_singleton _ _
  | cons first rest ih =>
    obtain ⟨hfirst, hrest⟩ := List.pairwise_cons.1 h
    rw [Json.insertMember]
    split
    · next heq =>
      subst heq
      exact List.pairwise_cons.2 ⟨hfirst, hrest⟩
    · next hne =>
      split
      · next hlt =>
        refine List.pairwise_cons.2 ⟨List.forall_mem_cons.2 ⟨hlt, fun m hm => ?_⟩, h⟩
        exact String.lt_trans hlt (hfirst m hm)
      · next hnot =>
        have hlt : first.1 < key := Std.lt_of_le_of_ne (String.not_lt.1 hnot) (Ne.symm hne)
        refine List.pairwise_cons.2 ⟨fun m hm => ?_, ih hrest⟩
        rcases mem_insertMember hm with rfl | hm
        · exact hlt
        · exact hfirst m hm

theorem foldl_insertMember {ms : List (String × α)} (h : IsAscending members) :
    IsAscending (ms.foldl (fun members m => Json.insertMember m.1 m.2 members) members) := by
  induction ms generalizing members with
  | nil => exact h
  | cons m rest ih => exact ih (h.insertMember m.1 m.2)

end IsAscending

namespace Json

theorem isAscending_of_ofMembers {ms members : List (String × Json)}
    (h : ofMembers ms = .object members) : IsAscending members := by
  rw [ofMembers] at h
  obtain rfl := Json.object.inj h
  exact IsAscending.nil.foldl_insertMember

theorem isAscending_of_valueWithin {fuel : Nat} {c c' : Cursor} {members : List (String × Json)}
    (h : Reader.valueWithin fuel c = .ok (.object members, c')) : IsAscending members := by
  cases fuel with
  | zero => cases h
  | succ fuel =>
    rw [Reader.valueWithin] at h
    dsimp only at h
    split at h
    · cases h
    · -- Of all kinds of values only an object begins with a brace.
      iterate 5
        obtain ⟨-, h⟩ | ⟨-, h⟩ := ite_eq_iff.1 h
        · obtain ⟨⟨_, _⟩, -, h⟩ := bind_eq_ok.1 h
          cases h
      obtain ⟨-, h⟩ | ⟨-, h⟩ := ite_eq_iff.1 h
      · obtain ⟨_, -, h⟩ := bind_eq_ok.1 h
        obtain ⟨⟨_, _⟩, -, h⟩ := bind_eq_ok.1 h
        cases h
      obtain ⟨-, h⟩ | ⟨-, h⟩ := ite_eq_iff.1 h
      · obtain ⟨_, -, h⟩ := bind_eq_ok.1 h
        obtain ⟨⟨ms, _⟩, -, h⟩ := bind_eq_ok.1 h
        exact isAscending_of_ofMembers (congrArg Prod.fst (Except.ok.inj h))
      · cases h

/-- **An object that is read has its members in order**, each key once, whatever the text says. -/
theorem isAscending_of_ofBytes {bytes : List UInt8} {members : List (String × Json)}
    (h : ofBytes bytes = .ok (.object members)) : IsAscending members := by
  obtain ⟨⟨j, c⟩, hread, h⟩ := bind_eq_ok.1 h
  dsimp only at h
  split at h
  · obtain rfl := Except.ok.inj h
    exact isAscending_of_valueWithin hread
  · cases h

end Json

end EntityQuery
