import EntityQuery.Proofs.Paging.Polls

/-!
# The course of a walk

Many fetchers settle with the first poll of a fetch how long it will take and what will come of it
(`Fetcher.Settles`).  Then a walk has a course, known beforehand: the fetches that are made, each with the
fetcher's state behind its first poll.  A course goes on for as long as there are links to follow
(`Follows`).

From its course one can read off everything that a walk answers (`transcript`): for every fetch that
there is nothing yet, as long as it takes, and then what came of it; behind the course the end, for good.
A `Pager` takes what came of a fetch whole, and an `ItemPager` takes a page item by item (`itemsOf`).
Other than that they do the same, which is `Pager.polls_eq_transcript` and
`ItemPager.polls_eq_transcript`.
-/

set_option autoImplicit false

namespace EntityQuery

variable {σ τ φ ε α β : Type}

/-! ## Settled fetches -/

/-- Polls a fetch: one wait less, or its outcome. -/
def ScriptedFetch.advance : ScriptedFetch ε α → ScriptedFetch ε α ⊕ Except ε (Page α)
  | ⟨0, outcome⟩ => .inr outcome
  | ⟨delay + 1, outcome⟩ => .inl ⟨delay, outcome⟩

/-- A fetch on a course, and the fetcher's state behind its first poll. -/
structure Stop (σ ε α : Type) where
  fetch : ScriptedFetch ε α
  state : σ

/-- Another view of the fetcher's state. -/
def Stop.mapState (view : σ → τ) (v : Stop σ ε α) : Stop τ ε α := ⟨v.fetch, view v.state⟩

/-- **Settled fetches.**  The first poll of a fetch settles how long it takes and what comes of it, and
changes the state; other polls only wait. -/
structure Fetcher.Settles (f : Fetcher σ φ ε α) (settle : Option String → σ → Stop σ ε α)
    (waiting : ScriptedFetch ε α → φ) : Prop where
  begins : ∀ link s, f.advance none link s =
    ((settle link s).fetch.advance.map waiting id, (settle link s).state)
  goesOn : ∀ r link s, f.advance (some (waiting r)) link s = (r.advance.map waiting id, s)

section Course

variable {settle : Option String → σ → Stop σ ε α} {waiting : ScriptedFetch ε α → φ}

/-- The course behind a result: nothing, or the fetch that the result's link leads to and the course
behind that. -/
inductive Follows (settle : Option String → σ → Stop σ ε α) :
    Except ε (Page α) → σ → List (Stop σ ε α) → Prop
  | last {result : Except ε (Page α)} {s : σ} (h : nextLink? result = none) : Follows settle result s []
  | next {result : Except ε (Page α)} {s : σ} {link : String} {course : List (Stop σ ε α)}
      (h : nextLink? result = some link)
      (hcourse : Follows settle (settle (some link) s).fetch.outcome (settle (some link) s).state course) :
      Follows settle result s (settle (some link) s :: course)

/-- A walk that is about to begin a fetch, or waits for one, or is over, has a course ahead.  The course
of a fetch that is under way begins with what remains of it. -/
inductive HasAhead (settle : Option String → σ → Stop σ ε α) (waiting : ScriptedFetch ε α → φ) :
    Option String → Bool → Option φ → σ → List (Stop σ ε α) → Prop
  | idle {link : Option String} {s : σ} {course : List (Stop σ ε α)}
      (h : Follows settle (settle link s).fetch.outcome (settle link s).state course) :
      HasAhead settle waiting link false none s (settle link s :: course)
  | busy {link : Option String} {r : ScriptedFetch ε α} {s : σ} {course : List (Stop σ ε α)}
      (h : Follows settle r.outcome s course) :
      HasAhead settle waiting link false (some (waiting r)) s (⟨r, s⟩ :: course)
  | ended {link : Option String} {s : σ} : HasAhead settle waiting link true none s []

/-- With nothing ahead a walk is over. -/
theorem HasAhead.done_eq_true {link : Option String} {done : Bool} {underway : Option φ} {s : σ}
    (h : HasAhead settle waiting link done underway s []) : done = true := by
  generalize hcourse : ([] : List (Stop σ ε α)) = course at h
  rcases h with h | h | -
  · cases hcourse
  · cases hcourse
  · rfl

/-- A poll goes on with the first fetch ahead, whether it was begun or not. -/
theorem HasAhead.advance {f : Fetcher σ φ ε α} (hf : f.Settles settle waiting) {link : Option String}
    {done : Bool} {underway : Option φ} {s : σ} {v : Stop σ ε α} {course : List (Stop σ ε α)}
    (h : HasAhead settle waiting link done underway s (v :: course)) :
    done = false ∧ f.advance underway link s = (v.fetch.advance.map waiting id, v.state) ∧
      Follows settle v.fetch.outcome v.state course := by
  generalize hall : v :: course = all at h
  rcases h with h | h | -
  · obtain ⟨rfl, rfl⟩ := List.cons.inj hall
    exact ⟨rfl, hf.begins _ _, h⟩
  · obtain ⟨rfl, rfl⟩ := List.cons.inj hall
    exact ⟨rfl, hf.goesOn _ _ _, h⟩
  · cases hall

/-- Behind a result the walk has the course ahead that follows it. -/
theorem Follows.hasAhead {result : Except ε (Page α)} {s : σ} {course : List (Stop σ ε α)}
    (h : Follows settle result s course) :
    HasAhead settle waiting (nextLink? result) (nextLink? result).isNone none s course := by
  rcases h with hlink | ⟨hlink, hcourse⟩
  · rw [hlink]
    exact .ended
  · rw [hlink]
    exact .idle hcourse

end Course

/-! ## Reading a course off -/

/-- The parts that an item pager hands a result out in: the items of a page, or the error. -/
def itemsOf : Except ε (Page α) → List (Except ε α)
  | .ok page => page.value.map .ok
  | .error e => [.error e]

/-- What is answered while a fetch goes on, and then for each part of its outcome. -/
def ScriptedFetch.answers (parts : Except ε (Page α) → List β) (r : ScriptedFetch ε α) :
    List (Poll (Option β)) :=
  List.replicate r.delay .pending ++ (parts r.outcome).map fun part => .ready (some part)

/-- What is answered along a course, with the fetcher's state behind each answer. -/
def answersAlong (parts : Except ε (Page α) → List β) (course : List (Stop σ ε α)) :
    List (Poll (Option β) × σ) :=
  course.flatMap fun v => (v.fetch.answers parts).map fun answer => (answer, v.state)

/-- The fetcher's state behind a course. -/
def endState (s : σ) : List (Stop σ ε α) → σ
  | [] => s
  | v :: course => endState v.state course

/-- **Transcript** of so many polls on a walk with a course: what is answered along the course, as far as
the polls go, and the end from there on. -/
def transcript (parts : Except ε (Page α) → List β) (s : σ) (course : List (Stop σ ε α)) (n : Nat) :
    List (Poll (Option β) × σ) :=
  (answersAlong parts course).take n ++
    List.replicate (n - (answersAlong parts course).length) (.ready none, endState s course)

variable {parts : Except ε (Page α) → List β}

@[simp] theorem answersAlong_nil :
    answersAlong parts ([] : List (Stop σ ε α)) = [] := rfl

theorem answersAlong_cons (v : Stop σ ε α) (course : List (Stop σ ε α)) :
    answersAlong parts (v :: course) =
      (v.fetch.answers parts).map (fun answer => (answer, v.state)) ++ answersAlong parts course :=
  List.flatMap_cons

/-- One wait less. -/
theorem answersAlong_wait (delay : Nat) (outcome : Except ε (Page α)) (s : σ)
    (course : List (Stop σ ε α)) :
    answersAlong parts (⟨⟨delay + 1, outcome⟩, s⟩ :: course) =
      (.pending, s) :: answersAlong parts (⟨⟨delay, outcome⟩, s⟩ :: course) := by
  simp [answersAlong_cons, ScriptedFetch.answers, List.replicate_succ]

/-- A fetch that is waited for no longer. -/
theorem answersAlong_finish (outcome : Except ε (Page α)) (s : σ) (course : List (Stop σ ε α)) :
    answersAlong parts (⟨⟨0, outcome⟩, s⟩ :: course) =
      (parts outcome).map (fun part => (.ready (some part), s)) ++ answersAlong parts course := by
  simp [answersAlong_cons, ScriptedFetch.answers]

/-- A view of the states is taken of a transcript as it is taken of the course. -/
theorem map_transcript (view : σ → τ) (s : σ) (course : List (Stop σ ε α)) (n : Nat) :
    (transcript parts s course n).map (Prod.map id view) =
      transcript parts (view s) (course.map (Stop.mapState view)) n := by
  have halong : (answersAlong parts course).map (Prod.map id view) =
      answersAlong parts (course.map (Stop.mapState view)) := by
    simp [answersAlong, List.map_flatMap, List.flatMap_map, Stop.mapState, Function.comp_def]
  have hend : ∀ (course : List (Stop σ ε α)) (s : σ),
      view (endState s course) = endState (view s) (course.map (Stop.mapState view)) := by
    intro course
    induction course with
    | nil => exact fun s => rfl
    | cons v course ih => exact fun s => ih v.state
  simp [transcript, ← halong, ← hend]

/-! ## Walks with a course -/

section Walks

variable {f : Fetcher σ φ ε α} {settle : Option String → σ → Stop σ ε α}
  {waiting : ScriptedFetch ε α → φ}

/-- A pager has a course ahead that ends in a state, and these are its answers along it. -/
def Pager.IsOn (settle : Option String → σ → Stop σ ε α) (waiting : ScriptedFetch ε α → φ) (last : σ)
    (p : Pager φ) (s : σ) (ahead : List (Poll (Option (Except ε (Page α))) × σ)) : Prop :=
  ∃ course, HasAhead settle waiting p.link p.done p.underway s course ∧ endState s course = last ∧
    answersAlong (fun result => [result]) course = ahead

/-- Each poll of a pager on a course gives what is first along it. -/
theorem Pager.poll_isOn (hf : f.Settles settle waiting) {last : σ} {p : Pager φ} {s : σ}
    {ahead : List (Poll (Option (Except ε (Page α))) × σ)} (h : p.IsOn settle waiting last s ahead) :
    ∃ p', p.poll f s =
        ((ahead.headD (.ready none, last)).1, p', (ahead.headD (.ready none, last)).2) ∧
      p'.IsOn settle waiting last (ahead.headD (.ready none, last)).2 ahead.tail := by
  obtain ⟨course, hahead, rfl, rfl⟩ := h
  rcases course with - | ⟨⟨⟨delay, outcome⟩, s'⟩, course⟩
  · exact ⟨p, poll_of_done hahead.done_eq_true, [], hahead, rfl, rfl⟩
  · obtain ⟨hdone, hadvance, hfollows⟩ := hahead.advance hf
    rcases delay with - | delay
    · rw [answersAlong_finish]
      exact ⟨_, poll_of_finish hdone hadvance, course, hfollows.hasAhead, rfl, rfl⟩
    · rw [answersAlong_wait]
      exact ⟨_, poll_of_wait hdone hadvance, _, .busy hfollows, rfl, rfl⟩

/-- **Pages along a course.** -/
theorem Pager.polls_eq_transcript (hf : f.Settles settle waiting) {s : σ} {course : List (Stop σ ε α)}
    (h : HasAhead settle waiting none false none s course) (n : Nat) :
    polls (Pager.poll f) n .fresh s = transcript (fun result => [result]) s course n :=
  polls_eq (fun _ _ _ hon => poll_isOn hf hon) n ⟨course, h, rfl, rfl⟩

/-- An item pager has items to hand out and a course ahead that ends in a state and is no longer than a
poll may go, and these are its answers. -/
def ItemPager.IsOn (settle : Option String → σ → Stop σ ε α) (waiting : ScriptedFetch ε α → φ)
    (bound : Nat) (last : σ) (p : ItemPager φ α) (s : σ)
    (ahead : List (Poll (Option (Except ε α)) × σ)) : Prop :=
  ∃ course, HasAhead settle waiting p.link p.done p.underway s course ∧ course.length ≤ bound ∧
    endState s course = last ∧
    p.buffer.map (fun item => (.ready (some (.ok item)), s)) ++ answersAlong itemsOf course = ahead

theorem ItemPager.IsOn.mono {bound bound' : Nat} {last : σ} {p : ItemPager φ α} {s : σ}
    {ahead : List (Poll (Option (Except ε α)) × σ)} (h : p.IsOn settle waiting bound last s ahead)
    (hle : bound ≤ bound') : p.IsOn settle waiting bound' last s ahead := by
  obtain ⟨course, hahead, hlength, hrest⟩ := h
  exact ⟨course, hahead, Nat.le_trans hlength hle, hrest⟩

/-- Each poll of an item pager on a course gives what is first along it.  As it goes over pages without
items, the proof goes along the course. -/
theorem ItemPager.poll_isOn (hf : f.Settles settle waiting) {bound : Nat} {last : σ}
    {p : ItemPager φ α} {s : σ} {ahead : List (Poll (Option (Except ε α)) × σ)}
    (h : p.IsOn settle waiting bound last s ahead) :
    ∃ p', p.poll f bound s =
        ((ahead.headD (.ready none, last)).1, p', (ahead.headD (.ready none, last)).2) ∧
      p'.IsOn settle waiting bound last (ahead.headD (.ready none, last)).2 ahead.tail := by
  obtain ⟨course, hahead, hlength, rfl, rfl⟩ := h
  obtain ⟨link, buffer, done, underway⟩ := p
  induction course generalizing bound link buffer done underway s with
  | nil =>
    obtain rfl : done = true := hahead.done_eq_true
    rcases buffer with - | ⟨item, rest⟩
    · exact ⟨_, poll_of_done bound, [], hahead, hlength, rfl, rfl⟩
    · exact ⟨_, poll_of_buffer bound item rest true, [], hahead, hlength, rfl, rfl⟩
  | cons v course ih =>
    rcases buffer with - | ⟨item, rest⟩
    · obtain ⟨⟨delay, outcome⟩, s'⟩ := v
      obtain ⟨rfl, hadvance, hfollows⟩ := hahead.advance hf
      obtain ⟨bound, rfl⟩ : ∃ smaller, bound = smaller + 1 := ⟨bound - 1, by simp at hlength; omega⟩
      have hshorter : course.length ≤ bound := by simpa using hlength
      simp only [List.map_nil, List.nil_append, endState]
      rcases delay with - | delay
      · rw [answersAlong_finish]
        rcases outcome with e | page
        · exact ⟨_, poll_of_error bound hadvance, course, hfollows.hasAhead, by omega, rfl, rfl⟩
        · -- Nothing was answered yet: the poll goes on with what the page holds.
          obtain ⟨p', hpoll, hon⟩ := ih hshorter _ page.value _ _ hfollows.hasAhead
          rw [poll_of_page bound hadvance, itemsOf, List.map_map]
          exact ⟨p', hpoll, hon.mono (Nat.le_succ bound)⟩
      · rw [answersAlong_wait]
        exact ⟨_, poll_of_wait bound hadvance, _, .busy hfollows, hlength, rfl, rfl⟩
    · exact ⟨_, poll_of_buffer bound item rest done, v :: course, hahead, hlength, rfl, rfl⟩

/-- **Items along a course**, if a poll may go as far as the course does. -/
theorem ItemPager.polls_eq_transcript (hf : f.Settles settle waiting) {s : σ}
    {course : List (Stop σ ε α)} (h : HasAhead settle waiting none false none s course) {bound : Nat}
    (hbound : course.length ≤ bound) (n : Nat) :
    polls (ItemPager.poll f bound) n .fresh s = transcript itemsOf s course n :=
  polls_eq (fun _ _ _ hon => poll_isOn hf hon) n ⟨course, h, hbound, rfl, rfl⟩

end Walks

end EntityQuery
