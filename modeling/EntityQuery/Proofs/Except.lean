import Mathlib.Data.List.Forall2

/-!
# Results and errors

Most functions here either give a result or say why there is none, and do so step by step.  These
lemmas take such a computation apart, one step at a time.
-/

set_option autoImplicit false

namespace EntityQuery

section Except

variable {ε α β : Type} {x : Except ε α} {a : α} {b : β} {e : ε}

theorem bind_eq_ok {f : α → Except ε β} :
    (x >>= f) = .ok b ↔ ∃ a, x = .ok a ∧ f a = .ok b := by
  cases x with
  | error e => simp [bind, Except.bind]
  | ok a => simp [bind, Except.bind]

/-- Two checks, one after the other. -/
theorem check_bind_eq_ok {x y : Except ε Unit} :
    (x >>= fun _ => y) = .ok () ↔ x = .ok () ∧ y = .ok () := by
  cases x with
  | error e => simp [bind, Except.bind]
  | ok a => simp [bind, Except.bind]

theorem map_eq_ok {f : α → β} : x.map f = .ok b ↔ ∃ a, x = .ok a ∧ f a = b := by
  cases x with
  | error e => simp [Except.map]
  | ok a => simp [Except.map]

theorem map_eq_error {f : α → β} : x.map f = .error e ↔ x = .error e := by
  cases x with
  | error e' => simp [Except.map]
  | ok a => simp [Except.map]

theorem mapError_eq_ok {f : ε → β} : x.mapError f = .ok a ↔ x = .ok a := by
  cases x with
  | error e => exact iff_of_false nofun nofun
  | ok a' =>
    constructor
    · rintro ⟨⟩
      rfl
    · rintro ⟨⟩
      rfl

theorem toOption_eq_some : x.toOption = some a ↔ x = .ok a := by
  cases x with
  | error e => simp [Except.toOption]
  | ok a' => simp [Except.toOption]

theorem eq_ok_of_ite {p : Prop} [Decidable p] (h : (if p then .error e else x) = .ok a) :
    x = .ok a := by
  split at h
  · cases h
  · exact h

theorem bind_ne_error {f : α → Except ε β} (hx : x ≠ .error e) (hf : ∀ a, f a ≠ .error e) :
    (x >>= f) ≠ .error e := by
  cases x with
  | error e' => exact fun h => hx (congrArg _ (Except.error.inj h))
  | ok a => exact hf a

theorem ite_ne_error {p : Prop} [Decidable p] {e' : ε} (he : e' ≠ e) (hx : x ≠ .error e) :
    (if p then .error e' else x) ≠ .error e := by
  split
  · exact fun h => he (Except.error.inj h)
  · exact hx

/-- Work on several things succeeds if it does on each of them. -/
theorem mapM_eq_ok {f : α → Except ε β} {xs : List α} {ys : List β} :
    xs.mapM f = .ok ys ↔ List.Forall₂ (fun x y => f x = .ok y) xs ys := by
  induction xs generalizing ys with
  | nil =>
    rw [List.forall₂_nil_left_iff]
    exact ⟨fun h => (Except.ok.inj h).symm, fun h => h ▸ rfl⟩
  | cons x rest ih =>
    rw [List.mapM_cons, bind_eq_ok, List.forall₂_cons_left_iff]
    constructor
    · rintro ⟨y, hy, h⟩
      obtain ⟨zs, hzs, h⟩ := bind_eq_ok.1 h
      exact ⟨y, zs, hy, ih.1 hzs, (Except.ok.inj h).symm⟩
    · rintro ⟨y, zs, hy, hzs, rfl⟩
      exact ⟨y, hy, bind_eq_ok.2 ⟨zs, ih.2 hzs, rfl⟩⟩

/-- Several checks, one after the other. -/
def checkEach (check : α → Except ε Unit) : List α → Except ε Unit
  | [] => .ok ()
  | a :: rest => check a >>= fun _ => checkEach check rest

variable {check : α → Except ε Unit} {xs : List α}

theorem checkEach_append (xs ys : List α) :
    checkEach check (xs ++ ys) = checkEach check xs >>= fun _ => checkEach check ys := by
  induction xs with
  | nil => rfl
  | cons a rest ih =>
    rw [List.cons_append, checkEach, checkEach, ih]
    cases check a <;> rfl

theorem checkEach_eq_ok : checkEach check xs = .ok () ↔ ∀ a ∈ xs, check a = .ok () := by
  induction xs with
  | nil => exact iff_of_true rfl nofun
  | cons a rest ih => rw [checkEach, check_bind_eq_ok, List.forall_mem_cons, ih]

/-- The first of several checks that fails decides. -/
theorem checkEach_eq_error :
    checkEach check xs = .error e ↔ ∃ before a behind, xs = before ++ a :: behind ∧
      (∀ b ∈ before, check b = .ok ()) ∧ check a = .error e := by
  induction xs with
  | nil => exact iff_of_false nofun fun ⟨_, _, _, h, _⟩ => absurd h (by simp)
  | cons a rest ih =>
    constructor
    · intro h
      rw [checkEach] at h
      cases ha : check a with
      | error e' =>
        rw [ha] at h
        obtain rfl : e' = e := Except.error.inj h
        exact ⟨[], a, rest, rfl, nofun, ha⟩
      | ok u =>
        rw [ha] at h
        obtain ⟨before, b, behind, rfl, hbefore, hb⟩ := ih.1 h
        exact ⟨a :: before, b, behind, rfl, List.forall_mem_cons.2 ⟨ha, hbefore⟩, hb⟩
    · rintro ⟨before, b, behind, hsplit, hbefore, hb⟩
      rw [hsplit, checkEach_append, checkEach_eq_ok.2 hbefore]
      show (check b >>= fun _ => checkEach check behind) = .error e
      rw [hb]
      rfl

end Except

end EntityQuery
