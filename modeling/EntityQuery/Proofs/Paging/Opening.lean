import EntityQuery.Proofs.Paging.Flattening

/-!
# How a walk opens

The first fetch of a walk is for the page without a link.  Once it has been waited for, pages answer what
came of it (`Pager.head?_readies`), wherever the walk leads from there.  If it is an error, the walk is
over: pages and items answer the error, and then nothing but the end (`Pager.readies_of_error`,
`ItemPager.readies_of_error`).
-/

set_option autoImplicit false

namespace EntityQuery

variable {σ φ ε α : Type} {f : Fetcher σ φ ε α} {settle : Option String → σ → Stop σ ε α}
  {waiting : ScriptedFetch ε α → φ}

/-- A pager that waits for a fetch answers what comes of it. -/
theorem Pager.head?_readies_of_advance (hf : f.Settles settle waiting) {p : Pager φ}
    (hdone : p.done = false) {r : ScriptedFetch ε α} {s s' : σ}
    (h : f.advance p.underway p.link s = (r.advance.map waiting id, s')) {n : Nat} (hn : r.delay < n) :
    (readies (polls (Pager.poll f) n p s)).head? = some (some r.outcome) := by
  induction n generalizing p r s s' with
  | zero => exact absurd hn (Nat.not_lt_zero _)
  | succ n ih =>
    obtain ⟨_ | delay, outcome⟩ := r
    · rw [polls_succ, poll_of_finish hdone h]
      rfl
    · rw [polls_succ, poll_of_wait hdone h]
      exact ih (r := ⟨delay, outcome⟩) rfl (hf.goesOn _ none s') (Nat.succ_lt_succ_iff.1 hn)

/-- **The first page is what came of the first fetch.** -/
theorem Pager.head?_readies (hf : f.Settles settle waiting) {s : σ} {n : Nat}
    (hn : (settle none s).fetch.delay < n) :
    (readies (polls (Pager.poll f) n .fresh s)).head? = some (some (settle none s).fetch.outcome) :=
  head?_readies_of_advance hf rfl (hf.begins none s) hn

section Error

variable {s : σ} {e : ε} (h : (settle none s).fetch.outcome = .error e)

include h

/-- Behind an error there is nothing ahead. -/
theorem hasAhead_of_error : HasAhead settle waiting none false none s [settle none s] :=
  .idle (.last (by rw [h]; rfl))

/-- The parts of an error are the error alone. -/
theorem readies_transcript_of_error {β : Type} {parts : Except ε (Page α) → List (Except ε β)}
    (hparts : parts (.error e) = [.error e]) {n : Nat} (hn : (settle none s).fetch.delay < n) :
    readies (transcript parts s [settle none s] n) =
      some (.error e) :: List.replicate (n - ((settle none s).fetch.delay + 1)) none := by
  have hlength : (answersAlong parts [settle none s]).length = (settle none s).fetch.delay + 1 := by
    simp [answersAlong, ScriptedFetch.answers, h, hparts]
  rw [readies_transcript_of_ge (by rw [hlength]; exact hn), hlength]
  simp [h, hparts]

variable (hf : f.Settles settle waiting) {n : Nat} (hn : (settle none s).fetch.delay < n)

include hf hn

theorem Pager.readies_of_error : readies (polls (Pager.poll f) n .fresh s) =
    some (.error e) :: List.replicate (n - ((settle none s).fetch.delay + 1)) none := by
  rw [polls_eq_transcript hf (hasAhead_of_error h), readies_transcript_of_error h rfl hn]

theorem ItemPager.readies_of_error {bound : Nat} (hbound : 0 < bound) :
    readies (polls (ItemPager.poll f bound) n .fresh s) =
      some (.error e) :: List.replicate (n - ((settle none s).fetch.delay + 1)) none := by
  rw [polls_eq_transcript hf (hasAhead_of_error h) hbound, readies_transcript_of_error h rfl hn]

end Error

end EntityQuery
