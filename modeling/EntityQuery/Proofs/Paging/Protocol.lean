import Mathlib.Data.List.Induction
import EntityQuery.Proofs.Paging.Polls

/-!
# What passes between a pager and its fetcher

A fetcher may answer whatever it likes and be under way for as long as it likes, for ever included.  To
see what a pager does with it, the fetcher is watched: `Fetcher.watched` gives every fetch the number of
fetches begun before it, and notes each contact with the pager.  A watched fetcher answers as it did
(`Pager.answer_history`).

Between two polls a pager is in one of three phases: about to begin a fetch from a link, waiting for one,
or at its end.  A poll can do one thing in each (`Turn`), and `Pager.poll_turn` says that it does.  What
holds of any sequence of turns (`Tally`) is then put together to the **protocol of paging** (`Protocol`):
results are handed out in the order of the calls, each once and up to the one that ends the walk; every
call but the first follows the link of the result before it; there is never more than one fetch under
way, and it is waited for and not begun again.
-/

set_option autoImplicit false

namespace EntityQuery

variable {σ φ ε α : Type}

/-! ## Watching a fetcher -/

/-- What passes between a pager and its fetcher. -/
inductive Contact (ε α : Type)
  /-- A fetch is begun from a link. -/
  | begun (link : Option String)
  /-- The fetch with a number is taken up; without a result it is still under way. -/
  | takenUp (number : Nat) (result : Option (Except ε (Page α)))

/-- A fetcher that is watched. -/
structure Watch (σ ε α : Type) where
  state : σ
  /-- How many fetches were begun. -/
  begun : Nat
  contacts : List (Contact ε α)

/-- The same fetcher, watched. -/
def Fetcher.watched (f : Fetcher σ φ ε α) : Fetcher (Watch σ ε α) (Nat × φ) ε α where
  start link w :=
    let (run, s) := f.start link w.state
    ((w.begun, run), ⟨s, w.begun + 1, w.contacts ++ [.begun link]⟩)
  resume run w :=
    match f.resume run.2 w.state with
    | (.inl rest, s) =>
      (.inl (run.1, rest), ⟨s, w.begun, w.contacts ++ [.takenUp run.1 none]⟩)
    | (.inr result, s) =>
      (.inr result, ⟨s, w.begun, w.contacts ++ [.takenUp run.1 (some result)]⟩)

/-- One poll: what passed between pager and fetcher, and the answer. -/
structure PollRecord (ε α : Type) where
  contacts : List (Contact ε α)
  answer : Poll (Option (Except ε (Page α)))

namespace Pager

/-- So many polls on a watched fetcher, each with its contacts. -/
def records (f : Fetcher σ φ ε α) : Nat → Pager (Nat × φ) → Watch σ ε α → List (PollRecord ε α)
  | 0, _, _ => []
  | n + 1, p, w =>
    let (answer, p, w) := p.poll f.watched { w with contacts := [] }
    ⟨w.contacts, answer⟩ :: records f n p w

/-- The first polls of a walk. -/
def history (f : Fetcher σ φ ε α) (s : σ) (n : Nat) : List (PollRecord ε α) :=
  records f n .fresh ⟨s, 0, []⟩

/-- The pager without the numbers of its fetches. -/
def unnumbered (p : Pager (Nat × φ)) : Pager φ := ⟨p.link, p.done, p.underway.map Prod.snd⟩

/-- Watching changes nothing in a poll. -/
theorem poll_unnumbered (f : Fetcher σ φ ε α) (p : Pager (Nat × φ)) (w : Watch σ ε α) :
    p.unnumbered.poll f w.state =
      ((p.poll f.watched w).1, (p.poll f.watched w).2.1.unnumbered, (p.poll f.watched w).2.2.state) := by
  obtain ⟨link, done, underway⟩ := p
  cases done with
  | true => rfl
  | false =>
    have hadvance : f.advance (underway.map Prod.snd) link w.state =
        (((f.watched.advance underway link w).1.map Prod.snd id),
          (f.watched.advance underway link w).2.state) := by
      cases underway with
      | none =>
        simp only [Fetcher.advance, Fetcher.watched, Option.map_none]
        rcases f.resume (f.start link w.state).1 (f.start link w.state).2 with ⟨rest | result, s⟩ <;> rfl
      | some run =>
        simp only [Fetcher.advance, Fetcher.watched, Option.map_some]
        rcases f.resume run.2 w.state with ⟨rest | result, s⟩ <;> rfl
    simp only [poll, unnumbered, hadvance]
    rcases f.watched.advance underway link w with ⟨rest | result | page, w'⟩ <;> rfl

/-- Watching changes no answer. -/
theorem answer_records (f : Fetcher σ φ ε α) (n : Nat) (p : Pager (Nat × φ)) (w : Watch σ ε α) :
    (records f n p w).map (·.answer) = (polls (Pager.poll f) n p.unnumbered w.state).map Prod.fst := by
  induction n generalizing p w with
  | zero => rfl
  | succ n ih =>
    have hpoll := poll_unnumbered f p { w with contacts := [] }
    rw [polls_succ, hpoll, List.map_cons, ← ih]
    rfl

end Pager

/-! ## Turns -/

/-- Where a pager is between two polls. -/
inductive Phase
  /-- About to begin a fetch from a link. -/
  | idle (link : Option String)
  /-- Waiting for a fetch. -/
  | busy
  /-- At its end. -/
  | ended
deriving DecidableEq

/-- The phase behind a result. -/
def Phase.behind (result : Except ε (Page α)) : Phase :=
  match nextLink? result with
  | some link => .idle (some link)
  | none => .ended

/-- What a poll does before it takes a fetch up. -/
def Phase.opening : Phase → List (Contact ε α)
  | idle link => [.begun link]
  | _ => []

/-- What a poll can do in a phase, when so many results were handed out before; and the phase and the
number of results behind it. -/
inductive Turn : Phase → Nat → PollRecord ε α → Phase → Nat → Prop
  | wait {phase : Phase} {i : Nat} (h : phase ≠ .ended) :
      Turn phase i ⟨phase.opening ++ [.takenUp i none], .pending⟩ .busy i
  | finish {phase : Phase} {i : Nat} (h : phase ≠ .ended) (result : Except ε (Page α)) :
      Turn phase i ⟨phase.opening ++ [.takenUp i (some result)], .ready (some result)⟩
        (.behind result) (i + 1)
  | rest {i : Nat} : Turn .ended i ⟨[], .ready none⟩ .ended i

/-- A pager and a watch are in a phase, after so many results. -/
inductive Pager.IsIn : Pager (Nat × φ) → Watch σ ε α → Phase → Nat → Prop
  | idle (link : Option String) (w : Watch σ ε α) : IsIn ⟨link, false, none⟩ w (.idle link) w.begun
  | busy {w : Watch σ ε α} {i : Nat} (run : φ) (h : w.begun = i + 1) :
      IsIn ⟨none, false, some (i, run)⟩ w .busy i
  | ended (link : Option String) (w : Watch σ ε α) (i : Nat) : IsIn ⟨link, true, none⟩ w .ended i

/-- A fetch that is taken up waits or finishes, and notes which. -/
theorem Fetcher.resume_watched (f : Fetcher σ φ ε α) (i : Nat) (run : φ) (w : Watch σ ε α) :
    (∃ rest s, f.watched.resume (i, run) w =
        (.inl (i, rest), ⟨s, w.begun, w.contacts ++ [.takenUp i none]⟩)) ∨
      ∃ result s, f.watched.resume (i, run) w =
        (.inr result, ⟨s, w.begun, w.contacts ++ [.takenUp i (some result)]⟩) := by
  simp only [watched]
  rcases f.resume run w.state with ⟨rest | result, s⟩
  · exact .inl ⟨rest, s, rfl⟩
  · exact .inr ⟨result, s, rfl⟩

/-- Whether a fetch is begun or under way, it is taken up once. -/
theorem Pager.advance_watched (f : Fetcher σ φ ε α) {p : Pager (Nat × φ)} {w : Watch σ ε α}
    {phase : Phase} {i : Nat} (h : p.IsIn w phase i) (hphase : phase ≠ .ended) :
    p.done = false ∧
      ((∃ rest s, f.watched.advance p.underway p.link { w with contacts := [] } =
          (.inl (i, rest), ⟨s, i + 1, phase.opening ++ [.takenUp i none]⟩)) ∨
        ∃ result s, f.watched.advance p.underway p.link { w with contacts := [] } =
          (.inr result, ⟨s, i + 1, phase.opening ++ [.takenUp i (some result)]⟩)) := by
  cases h with
  | idle link w =>
    exact ⟨rfl, f.resume_watched w.begun (f.start link w.state).1
      ⟨(f.start link w.state).2, w.begun + 1, [.begun link]⟩⟩
  | busy run hbegun =>
    refine ⟨rfl, ?_⟩
    rw [← hbegun]
    exact f.resume_watched i run { w with contacts := [] }
  | ended => exact absurd rfl hphase

/-- **What one poll does** is a turn. -/
theorem Pager.poll_turn (f : Fetcher σ φ ε α) {p : Pager (Nat × φ)} {w : Watch σ ε α} {phase : Phase}
    {i : Nat} (h : p.IsIn w phase i) :
    ∃ answer p' w' phase' i', p.poll f.watched { w with contacts := [] } = (answer, p', w') ∧
      Turn phase i ⟨w'.contacts, answer⟩ phase' i' ∧ p'.IsIn w' phase' i' := by
  by_cases hphase : phase = .ended
  · subst hphase
    cases h with
    | ended link w => exact ⟨_, _, _, _, _, rfl, .rest, .ended _ _ _⟩
  · obtain ⟨hdone, ⟨rest, s, hrun⟩ | ⟨result, s, hrun⟩⟩ := advance_watched f h hphase
    · exact ⟨_, _, _, .busy, i, poll_of_wait hdone hrun, .wait hphase, .busy rest rfl⟩
    · refine ⟨_, _, _, .behind result, i + 1, poll_of_finish hdone hrun, .finish hphase result, ?_⟩
      rw [Phase.behind]
      cases hnext : nextLink? result with
      | none => exact .ended none _ _
      | some link =>
        exact .idle (some link) (⟨s, i + 1, phase.opening ++ [.takenUp i (some result)]⟩ : Watch σ ε α)

/-! ## Sequences of turns -/

/-- Polls that are turns one after the other, from the beginning of a walk to a phase and a number of
results. -/
inductive Turns : List (PollRecord ε α) → Phase → Nat → Prop
  | nil : Turns [] (.idle none) 0
  | snoc {h : List (PollRecord ε α)} {phase phase' : Phase} {i i' : Nat} {r : PollRecord ε α}
      (hturns : Turns h phase i) (hturn : Turn phase i r phase' i') : Turns (h ++ [r]) phase' i'

/-- **Every run is a sequence of turns.** -/
theorem Pager.turns_records (f : Fetcher σ φ ε α) (n : Nat) {h : List (PollRecord ε α)}
    {p : Pager (Nat × φ)} {w : Watch σ ε α} {phase : Phase} {i : Nat} (hturns : Turns h phase i)
    (hin : p.IsIn w phase i) : ∃ phase' i', Turns (h ++ records f n p w) phase' i' := by
  induction n generalizing h p w phase i with
  | zero => exact ⟨phase, i, by simpa [records] using hturns⟩
  | succ n ih =>
    obtain ⟨answer, p', w', phase', i', hpoll, hturn, hin'⟩ := poll_turn f hin
    obtain ⟨phase'', i'', hrest⟩ := ih (hturns.snoc hturn) hin'
    refine ⟨phase'', i'', ?_⟩
    rw [records, hpoll]
    simpa using hrest

theorem Pager.turns_history (f : Fetcher σ φ ε α) (s : σ) (n : Nat) :
    ∃ phase i, Turns (history f s n) phase i := by
  have hfresh : (fresh : Pager (Nat × φ)).IsIn (⟨s, 0, []⟩ : Watch σ ε α) (.idle none) 0 :=
    .idle none (⟨s, 0, []⟩ : Watch σ ε α)
  simpa [history] using turns_records f n .nil hfresh

/-- Every poll of a sequence is a turn behind those before it. -/
theorem Turns.turn {before after : List (PollRecord ε α)} {r : PollRecord ε α} {phase : Phase} {i : Nat}
    (h : Turns (before ++ r :: after) phase i) :
    ∃ phase' i' phase'' i'', Turns before phase' i' ∧ Turn phase' i' r phase'' i'' := by
  induction after using List.reverseRecOn generalizing phase i with
  | nil =>
    generalize hall : before ++ [r] = all at h
    cases h with
    | nil => simp at hall
    | snoc hturns hturn =>
      obtain ⟨rfl, hr⟩ := List.append_inj' hall rfl
      cases hr
      exact ⟨_, _, _, _, hturns, hturn⟩
  | append_singleton after last ih =>
    generalize hall : before ++ r :: (after ++ [last]) = all at h
    cases h with
    | nil => simp at hall
    | @snoc shorter _ _ _ _ r' hturns hturn =>
      rw [← List.cons_append, ← List.append_assoc] at hall
      obtain ⟨rfl, _⟩ := List.append_inj' hall rfl
      exact ih hturns

/-! ## What was called, what finished, and what was handed out -/

/-- The link of a fetch that is begun. -/
def Contact.link? : Contact ε α → Option (Option String)
  | begun link => some link
  | takenUp _ _ => none

/-- A fetch that has finished: its number, and its result. -/
def Contact.finished? : Contact ε α → Option (Nat × Except ε (Page α))
  | begun _ => none
  | takenUp number result => result.map fun r => (number, r)

/-- The result that a poll hands out. -/
def PollRecord.result? (r : PollRecord ε α) : Option (Except ε (Page α)) :=
  match r.answer with
  | .ready (some result) => some result
  | _ => none

@[simp] theorem PollRecord.result?_pending (contacts : List (Contact ε α)) :
    (⟨contacts, .pending⟩ : PollRecord ε α).result? = none := rfl

@[simp] theorem PollRecord.result?_ready (contacts : List (Contact ε α))
    (answer : Option (Except ε (Page α))) :
    (⟨contacts, .ready answer⟩ : PollRecord ε α).result? = answer := by
  cases answer <;> rfl

/-- The links of the fetches that are begun, in order. -/
def calls (contacts : List (Contact ε α)) : List (Option String) := contacts.filterMap Contact.link?

/-- The fetches that finish, in order. -/
def finished (contacts : List (Contact ε α)) : List (Nat × Except ε (Page α)) :=
  contacts.filterMap Contact.finished?

@[simp] theorem calls_append (c d : List (Contact ε α)) : calls (c ++ d) = calls c ++ calls d :=
  List.filterMap_append ..

@[simp] theorem finished_append (c d : List (Contact ε α)) :
    finished (c ++ d) = finished c ++ finished d := List.filterMap_append ..

/-- All contacts of some polls, in order. -/
def contactsOf (h : List (PollRecord ε α)) : List (Contact ε α) := h.flatMap (·.contacts)

/-- The results that some polls hand out, in order. -/
def delivered (h : List (PollRecord ε α)) : List (Except ε (Page α)) := h.filterMap PollRecord.result?

@[simp] theorem contactsOf_snoc (h : List (PollRecord ε α)) (r : PollRecord ε α) :
    contactsOf (h ++ [r]) = contactsOf h ++ r.contacts := by
  rw [contactsOf, List.flatMap_append, List.flatMap_singleton, ← contactsOf]

@[simp] theorem delivered_snoc (h : List (PollRecord ε α)) (r : PollRecord ε α) :
    delivered (h ++ [r]) = delivered h ++ r.result?.toList := by
  rw [delivered, List.filterMap_append, ← delivered]
  cases hr : r.result? with
  | none => simp [hr]
  | some result => simp [hr]

/-- The link that a call has to be made with, behind some results: the first has none, and every other
follows the result before it. -/
def IsLinkFor (results : List (Except ε (Page α))) : Nat → Option String → Prop
  | 0, link => link = none
  | j + 1, link =>
    ∃ result next, results[j]? = some result ∧ nextLink? result = some next ∧ link = some next

theorem IsLinkFor.append {results : List (Except ε (Page α))} {j : Nat} {link : Option String}
    (h : IsLinkFor results j link) (more : List (Except ε (Page α))) :
    IsLinkFor (results ++ more) j link := by
  cases j with
  | zero => exact h
  | succ j =>
    obtain ⟨result, next, hresult, hnext, hlink⟩ := h
    refine ⟨result, next, ?_, hnext, hlink⟩
    rw [List.getElem?_append_left (List.getElem?_eq_some_iff.1 hresult).1, hresult]

/-- The links that a poll makes calls with in a phase. -/
def Phase.links : Phase → List (Option String)
  | idle link => [link]
  | _ => []

@[simp] theorem calls_opening (phase : Phase) :
    calls (phase.opening : List (Contact ε α)) = phase.links := by
  cases phase <;> rfl

@[simp] theorem finished_opening (phase : Phase) :
    finished (phase.opening : List (Contact ε α)) = [] := by
  cases phase <;> rfl

@[simp] theorem calls_takenUp (i : Nat) (result : Option (Except ε (Page α))) :
    calls [Contact.takenUp i result] = [] := rfl

@[simp] theorem finished_waiting (i : Nat) : finished [(Contact.takenUp i none : Contact ε α)] = [] :=
  rfl

@[simp] theorem finished_done (i : Nat) (result : Except ε (Page α)) :
    finished [Contact.takenUp i (some result)] = [(i, result)] := rfl

/-! ## The tally of a sequence of turns -/

/-- How the contacts and the answers of some polls add up, in a phase and after so many results. -/
structure Tally (h : List (PollRecord ε α)) (phase : Phase) (i : Nat) : Prop where
  delivered_length : (delivered h).length = i
  /-- Only while one waits there is a call whose result was not handed out. -/
  calls_length : (calls (contactsOf h)).length = i + if phase = .busy then 1 else 0
  finished_eq : finished (contactsOf h) = (delivered h).mapIdx fun j result => (j, result)
  ended_iff : phase = .ended ↔ ∃ result ∈ delivered h, nextLink? result = none
  idle_link : ∀ link, phase = .idle link → IsLinkFor (delivered h) i link
  calls_link : ∀ j link, (calls (contactsOf h))[j]? = some link → IsLinkFor (delivered h) j link
  /-- The end is answered only behind all results. -/
  answers_eq : ∃ k, h.filterMap (·.answer.answer?) = (delivered h).map some ++ List.replicate k none ∧
    (phase ≠ .ended → k = 0)
  moments : ∀ moment, moment <+: contactsOf h →
    (calls moment).length ≤ (finished moment).length + 1

theorem tally_nil : Tally ([] : List (PollRecord ε α)) (.idle none) 0 where
  delivered_length := rfl
  calls_length := rfl
  finished_eq := rfl
  ended_iff := by simp [delivered]
  idle_link link h := by cases h; exact rfl
  calls_link j link h := by simp [contactsOf, calls] at h
  answers_eq := ⟨0, rfl, fun _ => rfl⟩
  moments moment h := by
    obtain rfl := List.prefix_nil.1 h
    exact Nat.zero_le _

section Turn

variable {h : List (PollRecord ε α)} {phase : Phase} {i : Nat}

/-- Behind what a poll does first there is exactly one call whose result was not handed out. -/
theorem Tally.length_opened (ht : Tally h phase i) (hphase : phase ≠ .ended) :
    (calls (contactsOf h) ++ phase.links).length = i + 1 := by
  rw [List.length_append, ht.calls_length]
  cases phase with
  | idle link => rfl
  | busy => rfl
  | ended => exact absurd rfl hphase

theorem Tally.link_opened (ht : Tally h phase i) {j : Nat} {link : Option String}
    (hlink : (calls (contactsOf h) ++ phase.links)[j]? = some link) :
    IsLinkFor (delivered h) j link := by
  rw [List.getElem?_append] at hlink
  split at hlink
  · exact ht.calls_link j link hlink
  · cases phase with
    | idle l =>
      have hlength := ht.calls_length
      have hone := (List.getElem?_eq_some_iff.1 hlink).1
      rw [Phase.links, List.length_singleton] at hone
      rw [if_neg Phase.noConfusion] at hlength
      obtain rfl : j = i := by omega
      have hidle := ht.idle_link l rfl
      simp_all [Phase.links]
    | busy => cases hlink
    | ended => cases hlink

/-- No moment of a poll leaves two fetches unfinished. -/
theorem Tally.moments_append (ht : Tally h phase i) (hphase : phase ≠ .ended)
    (result : Option (Except ε (Page α))) (moment : List (Contact ε α))
    (hmoment : moment <+: contactsOf h ++ (phase.opening ++ [.takenUp i result])) :
    (calls moment).length ≤ (finished moment).length + 1 := by
  rcases List.prefix_or_prefix_of_prefix hmoment (List.prefix_append _ _) with hshort | ⟨begun, rfl⟩
  · exact ht.moments moment hshort
  · have hbegun := (List.prefix_append_right_inj _).1 hmoment
    have hcalls : calls begun <+: calls (phase.opening ++ [.takenUp i result]) :=
      hbegun.filterMap Contact.link?
    rw [calls_append, calls_opening, calls_takenUp, List.append_nil] at hcalls
    have hopened := ht.length_opened hphase
    have hfinished : (finished (contactsOf h)).length = i := by
      rw [ht.finished_eq, List.length_mapIdx, ht.delivered_length]
    have hle := hcalls.length_le
    simp only [calls_append, finished_append, List.length_append] at hopened ⊢
    omega

/-- Waiting hands nothing out. -/
theorem Tally.wait (ht : Tally h phase i) (hphase : phase ≠ .ended) :
    Tally (h ++ [⟨phase.opening ++ [.takenUp i none], .pending⟩]) .busy i where
  delivered_length := by simpa using ht.delivered_length
  calls_length := by simpa using ht.length_opened hphase
  finished_eq := by simpa using ht.finished_eq
  ended_iff := by simpa using mt ht.ended_iff.2 hphase
  idle_link link hlink := by cases hlink
  calls_link j link hlink := by
    have hopened : IsLinkFor (delivered h) j link := ht.link_opened (by simpa using hlink)
    simpa using hopened
  answers_eq := by
    obtain ⟨k, hanswers, hk⟩ := ht.answers_eq
    refine ⟨0, ?_, fun _ => rfl⟩
    rw [List.filterMap_append, hanswers, hk hphase, delivered_snoc]
    simp [Poll.answer?]
  moments moment hmoment := by
    rw [contactsOf_snoc] at hmoment
    exact ht.moments_append hphase none moment hmoment

/-- A result is handed out, and its link is the next to follow. -/
theorem Tally.finish (ht : Tally h phase i) (hphase : phase ≠ .ended) (result : Except ε (Page α)) :
    Tally (h ++ [⟨phase.opening ++ [.takenUp i (some result)], .ready (some result)⟩])
      (.behind result) (i + 1) where
  delivered_length := by simp [ht.delivered_length]
  calls_length := by
    have hbehind : Phase.behind result ≠ .busy := by
      rw [Phase.behind]
      split <;> exact Phase.noConfusion
    rw [if_neg hbehind]
    simpa using ht.length_opened hphase
  finished_eq := by simp [ht.finished_eq, List.mapIdx_append, ht.delivered_length]
  ended_iff := by
    have hlinks : ∀ result' ∈ delivered h, nextLink? result' ≠ none := by
      intro result' hmem hnone
      exact hphase (ht.ended_iff.2 ⟨result', hmem, hnone⟩)
    rw [Phase.behind, delivered_snoc, PollRecord.result?_ready]
    split
    · next link hnext =>
      simp only [Option.toList_some, List.mem_append, List.mem_singleton, reduceCtorEq, false_iff]
      rintro ⟨result', hmem | rfl, hnone⟩
      · exact hlinks result' hmem hnone
      · rw [hnone] at hnext
        cases hnext
    · next hnext => simp [hnext]
  idle_link link hlink := by
    have hlast : (delivered h ++ [result])[i]? = some result := by
      rw [← ht.delivered_length]
      simp
    rw [Phase.behind] at hlink
    split at hlink
    · next next hnext =>
      cases hlink
      rw [delivered_snoc, PollRecord.result?_ready]
      exact ⟨result, next, hlast, hnext, rfl⟩
    · cases hlink
  calls_link j link hlink := by
    have hopened : IsLinkFor (delivered h) j link := ht.link_opened (by simpa using hlink)
    rw [delivered_snoc]
    exact hopened.append _
  answers_eq := by
    obtain ⟨k, hanswers, hk⟩ := ht.answers_eq
    refine ⟨0, ?_, fun _ => rfl⟩
    rw [List.filterMap_append, hanswers, hk hphase, delivered_snoc]
    simp [Poll.answer?]
  moments moment hmoment := by
    rw [contactsOf_snoc] at hmoment
    exact ht.moments_append hphase (some result) moment hmoment

/-- At the end nothing changes but that the end is answered once more. -/
theorem Tally.rest (ht : Tally h .ended i) : Tally (h ++ [⟨[], .ready none⟩]) .ended i where
  delivered_length := by simpa using ht.delivered_length
  calls_length := by simpa using ht.calls_length
  finished_eq := by simpa using ht.finished_eq
  ended_iff := by simpa using ht.ended_iff
  idle_link link hlink := by cases hlink
  calls_link j link hlink := by simpa using ht.calls_link j link (by simpa using hlink)
  answers_eq := by
    obtain ⟨k, hanswers, _⟩ := ht.answers_eq
    refine ⟨k + 1, ?_, fun hne => absurd rfl hne⟩
    rw [List.filterMap_append, hanswers, delivered_snoc, List.replicate_succ']
    simp [Poll.answer?]
  moments moment hmoment := ht.moments moment (by simpa using hmoment)

/-- **A turn keeps the tally.** -/
theorem Tally.turn (ht : Tally h phase i) {r : PollRecord ε α} {phase' : Phase} {i' : Nat}
    (hturn : Turn phase i r phase' i') : Tally (h ++ [r]) phase' i' := by
  cases hturn with
  | wait hphase => exact ht.wait hphase
  | finish hphase result => exact ht.finish hphase result
  | rest => exact ht.rest

end Turn

theorem Turns.tally {h : List (PollRecord ε α)} {phase : Phase} {i : Nat} (ht : Turns h phase i) :
    Tally h phase i := by
  induction ht with
  | nil => exact tally_nil
  | snoc _ hturn ih => exact ih.turn hturn

/-! ## The protocol -/

/-- **The protocol of paging**, as it shows in the polls of a walk. -/
structure Protocol (h : List (PollRecord ε α)) : Prop where
  /-- The fetches finish in the order in which they were begun, each once, and as they finish their
  results are handed out. -/
  in_order : finished (contactsOf h) = (delivered h).mapIdx fun j result => (j, result)
  /-- All other answers there are come behind the results, and are the end. -/
  answers : ∃ k, h.filterMap (·.answer.answer?) = (delivered h).map some ++ List.replicate k none
  /-- Behind an error, or a page without a link, every poll answers the end and does nothing. -/
  at_end : ∀ before r after, h = before ++ r :: after →
    (∃ result ∈ delivered before, nextLink? result = none) → r = ⟨[], .ready none⟩
  /-- The end is answered only there. -/
  ends : ∀ before r after, h = before ++ r :: after → r.answer = .ready none →
    ∃ result ∈ delivered before, nextLink? result = none
  /-- There is nothing yet only while a fetch is under way. -/
  waits : ∀ r ∈ h, r.answer = .pending → ∃ i, r.contacts.getLast? = some (.takenUp i none)
  /-- The first call is made without a link. -/
  first_link : ∀ link, (calls (contactsOf h))[0]? = some link → link = none
  /-- Every other call is made with the link of the page before it. -/
  next_link : ∀ j link, (calls (contactsOf h))[j + 1]? = some link →
    ∃ page next, (delivered h)[j]? = some (.ok page) ∧ page.nextLink = some next ∧ link = some next
  /-- At no moment is there more than one fetch that was begun and has not finished. -/
  one_unfinished : ∀ moment, moment <+: contactsOf h →
    (calls moment).length ≤ (finished moment).length + 1
  /-- A poll begins at most one fetch. -/
  one_call : ∀ r ∈ h, (calls r.contacts).length ≤ 1
  /-- A fetch that is under way is taken up again, and nothing else is done. -/
  resumes : ∀ before r after, h = before ++ r :: after →
    (finished (contactsOf before)).length < (calls (contactsOf before)).length →
      ∃ result, r.contacts = [.takenUp ((calls (contactsOf before)).length - 1) result]
  /-- A fetch is begun only by a poll that comes after the results of all earlier ones were handed
  out, and that is the first thing the poll does. -/
  begins : ∀ before r after, h = before ++ r :: after → calls r.contacts ≠ [] →
    (delivered before).length = (calls (contactsOf before)).length ∧
      ∃ link, r.contacts.head? = some (.begun link)

/-- Every poll of a sequence is a turn, and what came before it adds up. -/
theorem Turns.exists_turn {h : List (PollRecord ε α)} {phase : Phase} {i : Nat} (ht : Turns h phase i)
    {before after : List (PollRecord ε α)} {r : PollRecord ε α} (hsplit : h = before ++ r :: after) :
    ∃ phase i phase' i', Tally before phase i ∧ Turn phase i r phase' i' := by
  subst hsplit
  obtain ⟨phase, i, phase', i', hbefore, hr⟩ := ht.turn
  exact ⟨phase, i, phase', i', hbefore.tally, hr⟩

theorem Turns.exists_turn_of_mem {h : List (PollRecord ε α)} {phase : Phase} {i : Nat}
    (ht : Turns h phase i) {r : PollRecord ε α} (hr : r ∈ h) :
    ∃ phase i phase' i', Turn phase i r phase' i' := by
  obtain ⟨before, after, hsplit⟩ := List.append_of_mem hr
  obtain ⟨phase, i, phase', i', _, hturn⟩ := ht.exists_turn hsplit
  exact ⟨phase, i, phase', i', hturn⟩

/-- Only while one waits are there more calls than results. -/
theorem Tally.eq_busy {h : List (PollRecord ε α)} {phase : Phase} {i : Nat} (ht : Tally h phase i)
    (hunfinished : (finished (contactsOf h)).length < (calls (contactsOf h)).length) : phase = .busy := by
  rw [ht.finished_eq, List.length_mapIdx, ht.delivered_length, ht.calls_length] at hunfinished
  by_contra hne
  rw [if_neg hne] at hunfinished
  omega

/-- Only a poll that was about to begin a fetch begins one, and does so first. -/
theorem Turn.exists_idle {phase phase' : Phase} {i i' : Nat} {r : PollRecord ε α}
    (h : Turn phase i r phase' i') (hcalls : calls r.contacts ≠ []) :
    ∃ link, phase = .idle link ∧ r.contacts.head? = some (.begun link) := by
  cases phase with
  | idle link =>
    refine ⟨link, rfl, ?_⟩
    cases h <;> rfl
  | busy => cases h <;> exact absurd rfl hcalls
  | ended =>
    cases h with
    | wait hphase => exact absurd rfl hphase
    | finish hphase => exact absurd rfl hphase
    | rest => exact absurd rfl hcalls

/-- At the end a poll does nothing and answers the end. -/
theorem Turn.eq_rest {phase' : Phase} {i i' : Nat} {r : PollRecord ε α}
    (h : Turn .ended i r phase' i') : r = ⟨[], .ready none⟩ := by
  cases h with
  | wait hphase => exact absurd rfl hphase
  | finish hphase => exact absurd rfl hphase
  | rest => rfl

/-- Whatever is a sequence of turns keeps to the protocol. -/
theorem Turns.protocol {h : List (PollRecord ε α)} {phase : Phase} {i : Nat} (ht : Turns h phase i) :
    Protocol h where
  in_order := ht.tally.finished_eq
  answers := by
    obtain ⟨k, hanswers, _⟩ := ht.tally.answers_eq
    exact ⟨k, hanswers⟩
  at_end before r after hsplit hlast := by
    obtain ⟨phase, i, phase', i', hbefore, hr⟩ := ht.exists_turn hsplit
    obtain rfl := hbefore.ended_iff.2 hlast
    exact hr.eq_rest
  ends before r after hsplit hend := by
    obtain ⟨phase, i, phase', i', hbefore, hr⟩ := ht.exists_turn hsplit
    cases hr with
    | wait => cases hend
    | finish => cases hend
    | rest => exact hbefore.ended_iff.1 rfl
  waits r hr hpending := by
    obtain ⟨phase, i, phase', i', hturn⟩ := ht.exists_turn_of_mem hr
    cases hturn with
    | wait => exact ⟨i, by simp⟩
    | finish => cases hpending
    | rest => cases hpending
  first_link link hlink := ht.tally.calls_link 0 link hlink
  next_link j link hlink := by
    obtain ⟨result, next, hresult, hnext, rfl⟩ := ht.tally.calls_link (j + 1) link hlink
    obtain ⟨page, rfl, hpage⟩ := exists_page_of_nextLink? hnext
    exact ⟨page, next, hresult, hpage, rfl⟩
  one_unfinished := ht.tally.moments
  one_call r hr := by
    obtain ⟨phase, i, phase', i', hturn⟩ := ht.exists_turn_of_mem hr
    cases hturn with
    | wait | finish => cases phase <;> simp [Phase.links]
    | rest => simp [calls]
  resumes before r after hsplit hunfinished := by
    obtain ⟨phase, i, phase', i', hbefore, hr⟩ := ht.exists_turn hsplit
    obtain rfl := hbefore.eq_busy hunfinished
    have hnumber : (calls (contactsOf before)).length - 1 = i := by
      rw [hbefore.calls_length, if_pos rfl, Nat.add_sub_cancel]
    rw [hnumber]
    cases hr with
    | wait => exact ⟨none, rfl⟩
    | finish _ result => exact ⟨some result, rfl⟩
  begins before r after hsplit hcalls := by
    obtain ⟨phase, i, phase', i', hbefore, hr⟩ := ht.exists_turn hsplit
    obtain ⟨link, rfl, hhead⟩ := hr.exists_idle hcalls
    refine ⟨?_, link, hhead⟩
    rw [hbefore.delivered_length, hbefore.calls_length, if_neg Phase.noConfusion, Nat.add_zero]

/-- **Any fetcher is paged by the protocol.**  Whatever a fetcher answers, and however often its fetches
are polled in vain, in any number of polls the protocol is kept.  The contacts are those of the watched
fetcher, and the answers are those of the fetcher itself. -/
theorem Pager.polls_protocol (f : Fetcher σ φ ε α) (s : σ) (n : Nat) :
    Protocol (history f s n) ∧
      (history f s n).map (·.answer) = (polls (Pager.poll f) n .fresh s).map Prod.fst := by
  obtain ⟨phase, i, hturns⟩ := turns_history f s n
  exact ⟨hturns.protocol, answer_records f n .fresh ⟨s, 0, []⟩⟩

end EntityQuery
