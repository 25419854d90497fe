import EntityQuery.Proofs.Paging.Course

/-!
# What pagers hand out

A pager adds nothing of its own to what its fetcher comes to: every page that it answers is a page that
was fetched, and every item was on one.  So whatever is true of all fetched pages is true of all that is
answered, however often the pager is polled and wherever polls are broken off
(`Pager.forall_page_of_mem_polls`, `ItemPager.forall_item_of_mem_polls`).

`Fetcher.Yields` asks for two invariants, one of the fetcher's state and one of the fetches that are under
way.  A fetcher that settles its fetches at once has the second one for nothing
(`Fetcher.Settles.yields`).
-/

set_option autoImplicit false

namespace EntityQuery

variable {σ φ ε α : Type}

/-- **Good pages.**  In states that are kept, and with fetches that are sound, whatever is begun or goes on
either waits and stays so, or finishes; a page that it finishes with is good. -/
structure Fetcher.Yields (f : Fetcher σ φ ε α) (kept : σ → Prop) (sound : φ → Prop)
    (good : Page α → Prop) : Prop where
  waits : ∀ underway link s run s', (∀ run, underway = some run → sound run) → kept s →
    f.advance underway link s = (.inl run, s') → sound run ∧ kept s'
  finishes : ∀ underway link s result s', (∀ run, underway = some run → sound run) → kept s →
    f.advance underway link s = (.inr result, s') → (∀ page, result = .ok page → good page) ∧ kept s'

theorem Fetcher.Yields.mono {f : Fetcher σ φ ε α} {kept : σ → Prop} {sound : φ → Prop}
    {good good' : Page α → Prop} (h : f.Yields kept sound good) (hgood : ∀ page, good page → good' page) :
    f.Yields kept sound good' := by
  refine ⟨h.waits, ?_⟩
  intro underway link s result s' hunderway hs hadvance
  obtain ⟨hresult, hkept⟩ := h.finishes underway link s result s' hunderway hs hadvance
  exact ⟨fun page hpage => hgood page (hresult page hpage), hkept⟩

/-- Settled fetches need to be looked at only once, when they begin. -/
theorem Fetcher.Settles.yields {f : Fetcher σ φ ε α} {settle : Option String → σ → Stop σ ε α}
    {waiting : ScriptedFetch ε α → φ} (hf : f.Settles settle waiting) {kept : σ → Prop}
    {good : Page α → Prop}
    (h : ∀ link s, kept s → (∀ page, (settle link s).fetch.outcome = .ok page → good page) ∧
      kept (settle link s).state) :
    f.Yields kept (fun run => ∃ r, run = waiting r ∧ ∀ page, r.outcome = .ok page → good page) good := by
  -- A fetch with a good outcome that is under way, or one that begins with its first poll.
  have hadvance : ∀ underway link s,
      (∀ run, underway = some run → ∃ r, run = waiting r ∧ ∀ page, r.outcome = .ok page → good page) →
      kept s → ∃ (r : ScriptedFetch ε α) (s' : σ), f.advance underway link s = (r.advance.map waiting id, s') ∧
        (∀ page, r.outcome = .ok page → good page) ∧ kept s' := by
    intro underway link s hunderway hs
    cases underway with
    | none => exact ⟨_, _, hf.begins link s, h link s hs⟩
    | some run =>
      obtain ⟨r, rfl, hr⟩ := hunderway run rfl
      exact ⟨r, s, hf.goesOn r link s, hr, hs⟩
  constructor
  · intro underway link s run s' hunderway hs hrun
    obtain ⟨⟨_ | delay, outcome⟩, s'', hr, hgood, hkept⟩ := hadvance underway link s hunderway hs
    · cases hr.symm.trans hrun
    · obtain ⟨hinl, rfl⟩ := Prod.mk.inj (hr.symm.trans hrun)
      exact ⟨⟨⟨delay, outcome⟩, (Sum.inl.inj hinl).symm, hgood⟩, hkept⟩
  · intro underway link s result s' hunderway hs hresult
    obtain ⟨⟨_ | delay, outcome⟩, s'', hr, hgood, hkept⟩ := hadvance underway link s hunderway hs
    · obtain ⟨hinr, rfl⟩ := Prod.mk.inj (hr.symm.trans hresult)
      exact ⟨Sum.inr.inj hinr ▸ hgood, hkept⟩
    · cases hr.symm.trans hresult

/-! ## Polls that keep an invariant -/

/-- If every poll keeps an invariant and gives a good answer, then so do many. -/
theorem forall_mem_polls {π β : Type} {poll : π → σ → β × π × σ} {inv : π → σ → Prop}
    (good : β → Prop)
    (step : ∀ p s, inv p s → inv (poll p s).2.1 (poll p s).2.2 ∧ good (poll p s).1)
    (n : Nat) {p : π} {s : σ} (h : inv p s) {r : β × σ} (hr : r ∈ polls poll n p s) : good r.1 := by
  induction n generalizing p s with
  | zero => cases hr
  | succ n ih =>
    obtain ⟨hinv, hgood⟩ := step p s h
    rw [polls_succ, List.mem_cons] at hr
    rcases hr with rfl | hr
    · exact hgood
    · exact ih hinv hr

section Answers

variable {f : Fetcher σ φ ε α} {kept : σ → Prop} {sound : φ → Prop}

/-- One poll for a page. -/
theorem Pager.poll_yields {good : Page α → Prop} (hf : f.Yields kept sound good) (p : Pager φ) (s : σ)
    (h : (∀ run, p.underway = some run → sound run) ∧ kept s) :
    ((∀ run, (p.poll f s).2.1.underway = some run → sound run) ∧ kept (p.poll f s).2.2) ∧
      ∀ page, (p.poll f s).1 = .ready (some (.ok page)) → good page := by
  by_cases hdone : p.done = true
  · rw [poll_of_done hdone]
    exact ⟨h, nofun⟩
  · rw [Bool.not_eq_true] at hdone
    rcases hadvance : f.advance p.underway p.link s with ⟨run | result, s'⟩
    · obtain ⟨hrun, hkept⟩ := hf.waits _ _ _ _ _ h.1 h.2 hadvance
      rw [poll_of_wait hdone hadvance]
      refine ⟨⟨?_, hkept⟩, nofun⟩
      rintro run' ⟨⟩
      exact hrun
    · obtain ⟨hresult, hkept⟩ := hf.finishes _ _ _ _ _ h.1 h.2 hadvance
      rw [poll_of_finish hdone hadvance]
      refine ⟨⟨nofun, hkept⟩, ?_⟩
      rintro page ⟨⟩
      exact hresult page rfl

/-- **Every page that is answered was fetched.** -/
theorem Pager.forall_page_of_mem_polls {good : Page α → Prop} (hf : f.Yields kept sound good) (n : Nat)
    {s s' : σ} (hs : kept s) {page : Page α}
    (h : (.ready (some (.ok page)), s') ∈ polls (Pager.poll f) n .fresh s) : good page :=
  forall_mem_polls (fun answer => ∀ page, answer = .ready (some (.ok page)) → good page)
    (Pager.poll_yields hf) n ⟨nofun, hs⟩ h page rfl

/-- One poll for an item.  It may go over several pages, so this is by induction on their bound. -/
theorem ItemPager.poll_yields {good : α → Prop}
    (hf : f.Yields kept sound fun page => ∀ item ∈ page.value, good item) (bound : Nat)
    (p : ItemPager φ α) (s : σ)
    (h : (∀ run, p.underway = some run → sound run) ∧ (∀ item ∈ p.buffer, good item) ∧ kept s) :
    ((∀ run, (p.poll f bound s).2.1.underway = some run → sound run) ∧
        (∀ item ∈ (p.poll f bound s).2.1.buffer, good item) ∧ kept (p.poll f bound s).2.2) ∧
      ∀ item, (p.poll f bound s).1 = .ready (some (.ok item)) → good item := by
  obtain ⟨link, buffer, done, underway⟩ := p
  obtain ⟨hunderway, hbuffer, hs⟩ := h
  induction bound generalizing link buffer done underway s with
  | zero =>
    rcases buffer with - | ⟨item, rest⟩
    · cases done <;> exact ⟨⟨hunderway, nofun, hs⟩, nofun⟩
    · rw [List.forall_mem_cons] at hbuffer
      refine ⟨⟨hunderway, hbuffer.2, hs⟩, ?_⟩
      rintro item' ⟨⟩
      exact hbuffer.1
  | succ bound ih =>
    rcases buffer with - | ⟨item, rest⟩
    · cases done with
      | true => exact ⟨⟨hunderway, nofun, hs⟩, nofun⟩
      | false =>
        rcases hadvance : f.advance underway link s with ⟨run | ⟨e⟩ | page, s'⟩
        · obtain ⟨hrun, hkept⟩ := hf.waits _ _ _ _ _ hunderway hs hadvance
          rw [poll_of_wait bound hadvance]
          refine ⟨⟨?_, nofun, hkept⟩, nofun⟩
          rintro run' ⟨⟩
          exact hrun
        · obtain ⟨-, hkept⟩ := hf.finishes _ _ _ _ _ hunderway hs hadvance
          rw [poll_of_error bound hadvance]
          exact ⟨⟨nofun, nofun, hkept⟩, nofun⟩
        · obtain ⟨hresult, hkept⟩ := hf.finishes _ _ _ _ _ hunderway hs hadvance
          rw [poll_of_page bound hadvance]
          exact ih s' _ page.value _ none nofun (hresult page rfl) hkept
    · rw [List.forall_mem_cons] at hbuffer
      refine ⟨⟨hunderway, hbuffer.2, hs⟩, ?_⟩
      rintro item' ⟨⟩
      exact hbuffer.1

/-- **Every item that is answered was on a page that was fetched.** -/
theorem ItemPager.forall_item_of_mem_polls {good : α → Prop}
    (hf : f.Yields kept sound fun page => ∀ item ∈ page.value, good item) (bound n : Nat) {s s' : σ}
    (hs : kept s) {item : α}
    (h : (.ready (some (.ok item)), s') ∈ polls (ItemPager.poll f bound) n .fresh s) : good item :=
  forall_mem_polls (fun answer => ∀ item, answer = .ready (some (.ok item)) → good item)
    (ItemPager.poll_yields hf bound) n ⟨nofun, nofun, hs⟩ h item rfl

end Answers

end EntityQuery
