import EntityQuery.Paging

/-!
# Runs of polls

A pager is polled again and again, and what it answers depends on what its fetcher has come to by then.
`polls` makes so many polls and keeps, for each, the answer and the fetcher's state behind it.

If it is known at every point what is ahead, then a run is a beginning of that, and after it the last
answer again and again (`polls_eq`).  What a single poll does, by where the pager is, stands at the end.
-/

set_option autoImplicit false

namespace EntityQuery

/-- The link to follow after a result: errors and last pages have none. -/
def nextLink? {ε α : Type} : Except ε (Page α) → Option String
  | .ok page => page.nextLink
  | .error _ => none

/-- Errors have no link. -/
theorem exists_page_of_nextLink? {ε α : Type} {result : Except ε (Page α)} {link : String}
    (h : nextLink? result = some link) : ∃ page, result = .ok page ∧ page.nextLink = some link := by
  cases result with
  | error e => cases h
  | ok page => exact ⟨page, rfl, h⟩

namespace Poll

variable {β : Type}

/-- The answer of a poll, if there was one. -/
def answer? : Poll β → Option β
  | pending => none
  | ready answer => some answer

end Poll

section Polls

variable {π σ β : Type}

/-- So many polls: the answer of each, and the fetcher's state behind it. -/
def polls (poll : π → σ → β × π × σ) : Nat → π → σ → List (β × σ)
  | 0, _, _ => []
  | n + 1, p, s =>
    let (answer, p, s) := poll p s
    (answer, s) :: polls poll n p s

variable {poll : π → σ → β × π × σ}

theorem polls_succ (n : Nat) (p : π) (s : σ) :
    polls poll (n + 1) p s =
      ((poll p s).1, (poll p s).2.2) :: polls poll n (poll p s).2.1 (poll p s).2.2 := rfl

/-- **Runs of polls.**  Let it be known what is ahead, and let every poll give what comes first of it, or
the same last answer if nothing is ahead any more.  Then a run gives what is ahead, as far as it goes, and
the last answer from there on. -/
theorem polls_eq {Ahead : π → σ → List (β × σ) → Prop} {last : β × σ}
    (step : ∀ p s ahead, Ahead p s ahead → ∃ p',
      poll p s = ((ahead.headD last).1, p', (ahead.headD last).2) ∧
        Ahead p' (ahead.headD last).2 ahead.tail)
    (n : Nat) {p : π} {s : σ} {ahead : List (β × σ)} (h : Ahead p s ahead) :
    polls poll n p s = ahead.take n ++ List.replicate (n - ahead.length) last := by
  induction n generalizing p s ahead with
  | zero => simp [polls]
  | succ n ih =>
    obtain ⟨p', hpoll, hahead⟩ := step p s ahead h
    rw [polls_succ, hpoll, ih hahead]
    cases ahead with
    | nil => simp [List.replicate_succ]
    | cons first rest => simp

end Polls

/-! ## Single polls -/

namespace Pager

variable {σ φ ε α : Type} {f : Fetcher σ φ ε α} {p : Pager φ} {s s' : σ}

theorem poll_of_done (h : p.done = true) : p.poll f s = (.ready none, p, s) := by
  rw [poll, if_pos h]

theorem poll_of_wait (h : p.done = false) {run : φ}
    (hadvance : f.advance p.underway p.link s = (.inl run, s')) :
    p.poll f s = (.pending, ⟨none, false, some run⟩, s') := by
  rw [poll, h, hadvance]
  rfl

/-- Whatever came of a fetch is answered, and its link is what is left to do. -/
theorem poll_of_finish (h : p.done = false) {result : Except ε (Page α)}
    (hadvance : f.advance p.underway p.link s = (.inr result, s')) :
    p.poll f s =
      (.ready (some result), ⟨nextLink? result, (nextLink? result).isNone, none⟩, s') := by
  rw [poll, h, hadvance]
  cases result <;> rfl

end Pager

namespace ItemPager

variable {σ φ ε α : Type} {f : Fetcher σ φ ε α} {link : Option String} {underway : Option φ} {s s' : σ}

/-- Items of the last page come first. -/
theorem poll_of_buffer (bound : Nat) (item : α) (rest : List α) (done : Bool) :
    poll f bound ⟨link, item :: rest, done, underway⟩ s =
      (.ready (some (.ok item)), ⟨link, rest, done, underway⟩, s) := by
  cases bound <;> rfl

theorem poll_of_done (bound : Nat) :
    poll f bound ⟨link, [], true, underway⟩ s = (.ready none, ⟨link, [], true, underway⟩, s) := by
  cases bound <;> rfl

/-- With nothing left to hand out, the next page is fetched. -/
theorem poll_of_empty (bound : Nat) :
    poll f (bound + 1) ⟨link, [], false, underway⟩ s =
      match f.advance underway link s with
      | (.inl run, s) => (.pending, ⟨none, [], false, some run⟩, s)
      | (.inr (.ok page), s) =>
        poll f bound ⟨page.nextLink, page.value, page.nextLink.isNone, none⟩ s
      | (.inr (.error e), s) => (.ready (some (.error e)), ⟨none, [], true, none⟩, s) := rfl

theorem poll_of_wait (bound : Nat) {run : φ} (h : f.advance underway link s = (.inl run, s')) :
    poll f (bound + 1) ⟨link, [], false, underway⟩ s =
      (.pending, ⟨none, [], false, some run⟩, s') := by
  rw [poll_of_empty, h]

/-- A poll that comes to a page goes on with its items, and if there are none, with the next page. -/
theorem poll_of_page (bound : Nat) {page : Page α} (h : f.advance underway link s = (.inr (.ok page), s')) :
    poll f (bound + 1) ⟨link, [], false, underway⟩ s =
      poll f bound ⟨page.nextLink, page.value, page.nextLink.isNone, none⟩ s' := by
  rw [poll_of_empty, h]

theorem poll_of_error (bound : Nat) {e : ε} (h : f.advance underway link s = (.inr (.error e), s')) :
    poll f (bound + 1) ⟨link, [], false, underway⟩ s =
      (.ready (some (.error e)), ⟨none, [], true, none⟩, s') := by
  rw [poll_of_empty, h]

end ItemPager

end EntityQuery
