import EntityQuery.Proofs.Paging.Course

/-!
# Items and pages

An `ItemPager` and a `Pager` are machines of their own.  One comes to its end with its last page; the
other may have come to its last page and still have items to hand out, and goes over pages without items
in a single poll.

On any script they nevertheless agree (`Script.itemPolls_flatten`): the items are the pages flattened, both
come to the same end with the same fetches made, and the item pager makes no fetch before it has handed
out all items it has.  Both are read off one course, the pages of it whole and the items one by one.
-/

set_option autoImplicit false

namespace EntityQuery

variable {σ ε α β : Type}

/-! ## Answers of a run -/

/-- The answers that were given in a run, in order. -/
def readies (run : List (Poll β × σ)) : List β := run.filterMap fun r => r.1.answer?

/-- Answers of a pager with every page replaced by its items in order.  Errors and the end stay. -/
def flattened (answers : List (Option (Except ε (Page α)))) : List (Option (Except ε α)) :=
  answers.flatMap fun answer =>
    match answer with
    | some result => (itemsOf result).map some
    | none => [none]

@[simp] theorem readies_append (run run' : List (Poll β × σ)) :
    readies (run ++ run') = readies run ++ readies run' := List.filterMap_append ..

theorem readies_mono {run run' : List (Poll β × σ)} (h : run <+: run') :
    readies run <+: readies run' := h.filterMap _

@[simp] theorem readies_replicate_end (n : Nat) (s : σ) :
    readies (List.replicate n ((.ready none : Poll (Option β)), s)) = List.replicate n none := by
  simp [readies, Poll.answer?]

section Transcripts

variable {parts : Except ε (Page α) → List β} {s : σ} {course : List (Stop σ ε α)} {n : Nat}

/-- Along a course all parts of all outcomes are answered, in order. -/
theorem readies_answersAlong (course : List (Stop σ ε α)) :
    readies (answersAlong parts course) =
      (course.flatMap fun v => parts v.fetch.outcome).map some := by
  induction course with
  | nil => rfl
  | cons v course ih =>
    rw [answersAlong_cons, readies_append, ih, List.flatMap_cons, List.map_append]
    simp [readies, ScriptedFetch.answers, List.filterMap_map, Function.comp_def, Poll.answer?]

theorem answersAlong_append (course course' : List (Stop σ ε α)) :
    answersAlong parts (course ++ course') = answersAlong parts course ++ answersAlong parts course' :=
  List.flatMap_append

theorem transcript_of_le (h : n ≤ (answersAlong parts course).length) :
    transcript parts s course n = (answersAlong parts course).take n := by
  rw [transcript, Nat.sub_eq_zero_of_le h, List.replicate_zero, List.append_nil]

theorem transcript_of_ge (h : (answersAlong parts course).length ≤ n) :
    transcript parts s course n = answersAlong parts course ++
      List.replicate (n - (answersAlong parts course).length) (.ready none, endState s course) := by
  rw [transcript, List.take_of_length_le h]

/-- Behind the course there is nothing but the end. -/
theorem transcript_add (h : (answersAlong parts course).length ≤ n) (more : Nat) :
    transcript parts s course (n + more) =
      transcript parts s course n ++ List.replicate more (.ready none, endState s course) := by
  rw [transcript_of_ge h, transcript_of_ge (Nat.le_add_right_of_le h), List.append_assoc,
    List.replicate_append_replicate, Nat.sub_add_comm h]

theorem readies_transcript_of_ge (h : (answersAlong parts course).length ≤ n) :
    readies (transcript parts s course n) = (course.flatMap fun v => parts v.fetch.outcome).map some ++
      List.replicate (n - (answersAlong parts course).length) none := by
  rw [transcript_of_ge h, readies_append, readies_answersAlong, readies_replicate_end]

/-- However far a run gets, it answers a beginning of all parts of the course and the end. -/
theorem readies_transcript_isPrefix (parts : Except ε (Page α) → List β) (s : σ)
    (course : List (Stop σ ε α)) {ends : Nat} (h : n ≤ ends) :
    readies (transcript parts s course n) <+:
      (course.flatMap fun v => parts v.fetch.outcome).map some ++ List.replicate ends none := by
  rcases Nat.le_total n (answersAlong parts course).length with hn | hn
  · rw [transcript_of_le hn, ← readies_answersAlong]
    refine (readies_mono ?_).trans (List.prefix_append _ _)
    exact List.take_prefix n _
  · rw [readies_transcript_of_ge hn, List.prefix_append_right_inj, List.prefix_iff_eq_take,
      List.take_replicate, List.length_replicate, Nat.min_eq_left (Nat.le_trans (Nat.sub_le _ _) h)]

/-- Every answer along a course belongs to a fetch, and comes behind the answers of all fetches before. -/
theorem exists_split_of_answersAlong {answer : Poll (Option β)}
    (h : (answersAlong parts course)[n]? = some (answer, s)) :
    ∃ before v after, course = before ++ v :: after ∧ v.state = s ∧
      (answersAlong parts before).length ≤ n := by
  induction course generalizing n with
  | nil => simp at h
  | cons v course ih =>
    rw [answersAlong_cons] at h
    rcases Nat.lt_or_ge n (v.fetch.answers parts).length with hn | hn
    · rw [List.getElem?_append_left (by simpa using hn), List.getElem?_map] at h
      obtain ⟨answer', -, heq⟩ := Option.map_eq_some_iff.1 h
      exact ⟨[], v, course, rfl, (Prod.mk.inj heq).2, Nat.zero_le n⟩
    · rw [List.getElem?_append_right (by simpa using hn), List.length_map] at h
      obtain ⟨before, v', after, rfl, hstate, hlength⟩ := ih h
      refine ⟨v :: before, v', after, rfl, hstate, ?_⟩
      rw [answersAlong_cons, List.length_append, List.length_map]
      omega

/-- The state behind a course is that of its last fetch. -/
theorem exists_last_of_endState (hcourse : course ≠ []) :
    ∃ before v, course = before ++ [v] ∧ v.state = endState s course := by
  induction course generalizing s with
  | nil => exact absurd rfl hcourse
  | cons v course ih =>
    rcases course with - | ⟨v', course⟩
    · exact ⟨[], v, rfl, rfl⟩
    · obtain ⟨before, last, heq, hstate⟩ := ih (s := v.state) (List.cons_ne_nil v' course)
      exact ⟨v :: before, last, congrArg (v :: ·) heq, hstate⟩

/-- **No fetch before its time.**  If a poll leaves the fetcher in a state, then that is the state behind
the first poll of some fetch, and all parts of the outcomes before were answered by earlier polls. -/
theorem readies_before_of_getLast? (hcourse : course ≠ []) {answer : Poll (Option β)} {s' : σ}
    (h : (transcript parts s course (n + 1)).getLast? = some (answer, s')) :
    ∃ before v after, course = before ++ v :: after ∧ v.state = s' ∧
      (before.flatMap fun v => parts v.fetch.outcome).map some <+:
        readies (transcript parts s course n) := by
  rcases Nat.lt_or_ge n (answersAlong parts course).length with hn | hn
  · have hanswer : (answersAlong parts course)[n]? = some (answer, s') := by
      rw [transcript_of_le hn, List.getLast?_take] at h
      simpa [hn] using h
    obtain ⟨before, v, after, rfl, hstate, hlength⟩ := exists_split_of_answersAlong hanswer
    refine ⟨before, v, after, rfl, hstate, ?_⟩
    rw [← readies_answersAlong, transcript_of_le (Nat.le_of_lt hn), answersAlong_append]
    exact readies_mono (List.prefix_take_iff.2 ⟨List.prefix_append _ _, hlength⟩)
  · obtain ⟨before, v, hsplit, hstate⟩ := exists_last_of_endState (s := s) hcourse
    have hlast : s' = endState s course := by
      rw [transcript_add hn, List.replicate_one, List.getLast?_concat] at h
      exact (Prod.mk.inj (Option.some.inj h)).2.symm
    refine ⟨before, v, [], hsplit, hstate.trans hlast.symm, ?_⟩
    rw [readies_transcript_of_ge hn, hsplit, List.flatMap_append, List.map_append, List.append_assoc]
    exact List.prefix_append _ _

end Transcripts

theorem flattened_append (answers answers' : List (Option (Except ε (Page α)))) :
    flattened (answers ++ answers') = flattened answers ++ flattened answers' := List.flatMap_append

@[simp] theorem flattened_map_some (results : List (Except ε (Page α))) :
    flattened (results.map some) = (results.flatMap itemsOf).map some := by
  simp [flattened, List.flatMap_map, List.map_flatMap]

@[simp] theorem flattened_replicate_none (n : Nat) :
    flattened (List.replicate n (none : Option (Except ε (Page α)))) = List.replicate n none := by
  simp [flattened, List.flatMap_replicate]

/-! ## Scripts -/

namespace Script

/-- What a script holds for a fetch. -/
def settle (pastEnd : ε) (link : Option String) (s : Script ε α) : Stop (Script ε α) ε α :=
  ⟨((fetcher pastEnd).start link s).1, ((fetcher pastEnd).start link s).2⟩

/-- A script settles all its fetches. -/
theorem settles (pastEnd : ε) :
    (fetcher (α := α) pastEnd).Settles (settle pastEnd) id := by
  have hresume : ∀ (r : ScriptedFetch ε α) (s : Script ε α),
      (fetcher pastEnd).resume r s = (r.advance.map id id, s) := by
    rintro ⟨_ | delay, outcome⟩ s <;> rfl
  exact ⟨fun link s => hresume _ _, fun r link s => hresume r s⟩

/-- Every walk on a script has a course, with no more fetches than the script has and one past its end. -/
theorem exists_follows (pastEnd : ε) (fetches : List (ScriptedFetch ε α)) (links : List (Option String))
    (link : Option String) : ∃ course, course.length ≤ fetches.length ∧
      Follows (settle pastEnd) (settle pastEnd link ⟨fetches, links⟩).fetch.outcome
        (settle pastEnd link ⟨fetches, links⟩).state course := by
  induction fetches generalizing links link with
  | nil => exact ⟨[], Nat.le_refl 0, .last rfl⟩
  | cons r fetches ih =>
    cases hnext : nextLink? r.outcome with
    | none => exact ⟨[], Nat.zero_le _, .last hnext⟩
    | some next =>
      obtain ⟨course, hlength, hcourse⟩ := ih (links ++ [link]) (some next)
      exact ⟨_ :: course, Nat.succ_le_succ hlength, .next hnext hcourse⟩

/-- Along a course the fetches of the script are made one after the other. -/
theorem take_of_follows {pastEnd : ε} {course : List (Stop (Script ε α) ε α)} {link : Option String}
    {s : Script ε α} (h : Follows (settle pastEnd) (settle pastEnd link s).fetch.outcome
      (settle pastEnd link s).state course) {before after : List (Stop (Script ε α) ε α)}
    {v : Stop (Script ε α) ε α} (hsplit : settle pastEnd link s :: course = before ++ v :: after) :
    v.state.links.length = s.links.length + before.length + 1 ∧
      before.map Stop.fetch = s.fetches.take before.length := by
  induction before generalizing course link s with
  | nil =>
    obtain ⟨rfl, -⟩ := List.cons.inj hsplit
    refine ⟨?_, rfl⟩
    simp only [settle, fetcher]
    split <;> simp
  | cons first before ih =>
    obtain ⟨rfl, hrest⟩ := List.cons.inj hsplit
    rcases h with - | ⟨hnext, hcourse⟩
    · simp at hrest
    · obtain ⟨hlinks, hfetches⟩ := ih hcourse hrest
      obtain ⟨fetches, links⟩ := s
      rcases fetches with - | ⟨r, fetches⟩
      · -- Past the end there is an error, and it has no link to follow.
        cases hnext
      · refine ⟨?_, congrArg (r :: ·) hfetches⟩
        rw [hlinks]
        simp only [settle, fetcher, List.length_append, List.length_cons, List.length_nil]
        omega

end Script

/-! ## Items are pages flattened -/

/-- **Flattening.**  How the items on a script compare with its pages, in runs of so many polls. -/
structure Flattens (fetches : List (ScriptedFetch ε α))
    (items : Nat → List (Poll (Option (Except ε α)) × Script ε α))
    (pages : Nat → List (Poll (Option (Except ε (Page α))) × Script ε α)) : Prop where
  /-- However far the items get, they are a beginning of the pages flattened. -/
  answers : ∀ n, ∃ k, ∀ n', k ≤ n' → readies (items n) <+: flattened (readies (pages n'))
  /-- They get as far as one likes. -/
  progress : ∀ m, ∃ k, ∀ n, k ≤ n → m ≤ (readies (items n)).length
  /-- Both come to the end and stay there, with the same links followed. -/
  ends : ∃ k s, ∀ more, items (k + more) = items k ++ List.replicate more (.ready none, s) ∧
    pages (k + more) = pages k ++ List.replicate more (.ready none, s)
  /-- Whenever the items have made a fetch, all items of the fetches before it were answered by earlier
  polls. -/
  lazy : ∀ n answer s, (items (n + 1)).getLast? = some (answer, s) →
    ((fetches.take (s.links.length - 1)).flatMap fun r => itemsOf r.outcome).map some <+:
      readies (items n)

theorem flatMap_itemsOf (course : List (Stop (Script ε α) ε α)) :
    (course.flatMap fun v => [v.fetch.outcome]).flatMap itemsOf =
      course.flatMap fun v => itemsOf v.fetch.outcome := by
  simp [List.flatMap_assoc]

/-- **What is read off one course is flattened.** -/
theorem flattens_transcript {pastEnd : ε} {fetches : List (ScriptedFetch ε α)} {link : Option String}
    {rest course : List (Stop (Script ε α) ε α)}
    (h : Follows (Script.settle pastEnd) (Script.settle pastEnd link ⟨fetches, []⟩).fetch.outcome
      (Script.settle pastEnd link ⟨fetches, []⟩).state rest)
    (hcourse : Script.settle pastEnd link ⟨fetches, []⟩ :: rest = course) :
    Flattens fetches (transcript itemsOf ⟨fetches, []⟩ course)
      (transcript (fun result => [result]) ⟨fetches, []⟩ course) where
  answers n := by
    refine ⟨(answersAlong (fun result => [result]) course).length + n, fun n' hn' => ?_⟩
    rw [readies_transcript_of_ge (Nat.le_of_add_right_le hn'), flattened_append, flattened_map_some,
      flattened_replicate_none, flatMap_itemsOf]
    exact readies_transcript_isPrefix itemsOf _ course (Nat.le_sub_of_add_le' hn')
  progress m := by
    refine ⟨(answersAlong itemsOf course).length + m, fun n hn => ?_⟩
    rw [readies_transcript_of_ge (Nat.le_of_add_right_le hn), List.length_append, List.length_replicate]
    omega
  ends := by
    refine ⟨(answersAlong itemsOf course).length + (answersAlong (fun result => [result]) course).length,
      endState ⟨fetches, []⟩ course, fun more => ⟨?_, ?_⟩⟩
    · exact transcript_add (Nat.le_add_right _ _) more
    · exact transcript_add (Nat.le_add_left _ _) more
  lazy n answer s hlast := by
    have hne : course ≠ [] := hcourse ▸ List.cons_ne_nil _ _
    obtain ⟨before, v, after, hsplit, rfl, hbefore⟩ := readies_before_of_getLast? hne hlast
    obtain ⟨hlinks, hfetches⟩ := Script.take_of_follows h (hcourse.trans hsplit)
    have hmade : v.state.links.length - 1 = before.length := by
      simp [hlinks]
    rw [hmade, ← hfetches, List.flatMap_map]
    exact hbefore

/-- **Items are pages flattened**, on any script, if a poll may go as far as the script does and one fetch
past its end. -/
theorem Script.itemPolls_flatten (pastEnd : ε) (fetches : List (ScriptedFetch ε α)) {bound : Nat}
    (h : fetches.length < bound) :
    Flattens fetches
      (fun n => polls (ItemPager.poll (Script.fetcher pastEnd) bound) n .fresh ⟨fetches, []⟩)
      (fun n => polls (Pager.poll (Script.fetcher pastEnd)) n .fresh ⟨fetches, []⟩) := by
  obtain ⟨rest, hlength, hrest⟩ := exists_follows pastEnd fetches [] none
  have hahead : HasAhead (settle pastEnd) id none false none (⟨fetches, []⟩ : Script ε α)
      (settle pastEnd none ⟨fetches, []⟩ :: rest) := .idle hrest
  have hbound : (settle pastEnd none ⟨fetches, []⟩ :: rest).length ≤ bound :=
    Nat.succ_le_of_lt (Nat.lt_of_le_of_lt hlength h)
  simp only [ItemPager.polls_eq_transcript (settles pastEnd) hahead hbound,
    Pager.polls_eq_transcript (settles pastEnd) hahead]
  exact flattens_transcript hrest rfl

/-- A script with fetches that are waited for, a page without items, and a link at its end. -/
def Script.uneven : List (ScriptedFetch String Nat) :=
  [⟨1, .ok ⟨none, some "b", [1, 2]⟩⟩, ⟨0, .ok ⟨none, some "c", []⟩⟩, ⟨2, .ok ⟨none, some "d", [3]⟩⟩]

theorem Script.itemPolls_flatten_uneven : uneven.length < 4 ∧
    Flattens uneven
      (fun n => polls (ItemPager.poll (fetcher "past the end") 4) n .fresh ⟨uneven, []⟩)
      (fun n => polls (Pager.poll (fetcher "past the end")) n .fresh ⟨uneven, []⟩) ∧
    readies (polls (ItemPager.poll (fetcher "past the end") 4) 8 .fresh ⟨uneven, []⟩) =
      [some (.ok 1), some (.ok 2), some (.ok 3), some (.error "past the end"), none] :=
  ⟨by decide, itemPolls_flatten "past the end" uneven (by decide), rfl⟩

end EntityQuery
