import EntityQuery.Query
import EntityQuery.Proofs.Except
import EntityQuery.Proofs.Paging.Course

/-!
# The requests of a walk

A walk over the pages of a query sends requests, one for each page.  Which ones, and what is answered,
follows from the replies that the transport is going to give (`Query.course`): the first request is for the
URL of the query, and every other for where the link of a page leads from the request before it.  A query or
a link that gives no URL is an error of its own, for which nothing is sent.  Behind an error or a page
without a link the course is at its end.

`Query.polls_requests` says that pages and items, polled any number of times, keep to this course, in what
they answer and in what was sent behind each answer, and that the requests along it are chained by the links
(`Query.IsChain`).
-/

set_option autoImplicit false

namespace EntityQuery

/-- The URLs of all requests that were sent, in order. -/
def Wire.urls (w : Wire) : List String := w.sent.map Request.url

@[inherit_doc Wire.urls]
def Query.Walk.urls (w : Query.Walk) : List String := w.wire.urls

/-! ## Sending -/

namespace Service

variable {s : Service}

theorem request_of_unconnected (h : s.connected = false) (url : String) (w : Wire) :
    s.request url w = ((0, .error .transportUnavailable), w) := by
  rw [request, h]
  rfl

/-- A request takes the next reply, if there is one. -/
theorem request_of_connected (h : s.connected = true) (url : String) (w : Wire) :
    ∃ w', s.request url w =
        (((w.replies.headD ⟨0, .error w.silence⟩).delay,
          (w.replies.headD ⟨0, .error w.silence⟩).outcome.mapError .connection), w') ∧
      w'.replies = w.replies.tail ∧ w'.silence = w.silence ∧ w'.urls = w.urls ++ [url] := by
  obtain ⟨replies, silence, sent, made⟩ := w
  rw [request, if_pos h]
  rcases s with ⟨endpoint, connected, options | options⟩ <;> rcases replies with - | ⟨reply, replies⟩ <;>
    exact ⟨_, rfl, rfl, rfl, List.map_append⟩

end Service

namespace Query

/-! ## The course of a query -/

/-- What comes of a reply. -/
def pageOfReply (q : Query) (reply : Reply) : Except QueryError (Page Json) :=
  q.pageIn (reply.outcome.mapError .connection)

/-- A fetch of the page at a URL, behind some requests, with the reply that the request for it gets.
Without a URL or a transport there is no request. -/
def stop (q : Query) (reply : Reply) (sent : List String) (url : Except QueryError String) :
    Stop (List String) QueryError Json :=
  match url with
  | .error e => ⟨⟨0, .error e⟩, sent⟩
  | .ok url =>
    if q.service.connected then ⟨⟨reply.delay, q.pageOfReply reply⟩, sent ++ [url]⟩
    else ⟨⟨0, .error .transportUnavailable⟩, sent⟩

/-- **The course of a query's pages**, from the replies that are to come, the URLs requested before, and
the URL to request next.  A link leads on from the request just before. -/
def course (q : Query) (silence : String) :
    List Reply → List String → Except QueryError String → List (Stop (List String) QueryError Json)
  | [], sent, url => [q.stop ⟨0, .error silence⟩ sent url]
  | reply :: replies, sent, url =>
    q.stop reply sent url ::
      match nextLink? (q.stop reply sent url).fetch.outcome,
        (q.stop reply sent url).state.getLast? with
      | some link, some previous =>
        course q silence replies (q.stop reply sent url).state
          ((Url.nextLink previous link).mapError (.invalidNextLink link))
      | _, _ => []

section Course

variable {q : Query} {silence : String} {replies : List Reply} {sent : List String}
  {url : Except QueryError String}

/-- A fetch sends nothing and has nothing to follow, or it requests the URL. -/
theorem stop_cases (q : Query) (reply : Reply) (sent : List String) (url : Except QueryError String) :
    ((q.stop reply sent url).state = sent ∧
        nextLink? (q.stop reply sent url).fetch.outcome = none) ∨
      ∃ request, url = .ok request ∧
        q.stop reply sent url = ⟨⟨reply.delay, q.pageOfReply reply⟩, sent ++ [request]⟩ := by
  rcases url with e | request
  · exact .inl ⟨rfl, rfl⟩
  · rw [stop]
    split
    · exact .inr ⟨request, rfl, rfl⟩
    · exact .inl ⟨rfl, rfl⟩

theorem course_of_last
    (h : nextLink? (q.stop (replies.headD ⟨0, .error silence⟩) sent url).fetch.outcome = none) :
    q.course silence replies sent url = [q.stop (replies.headD ⟨0, .error silence⟩) sent url] := by
  rcases replies with - | ⟨reply, replies⟩
  · rfl
  · rw [List.headD_cons] at h ⊢
    rw [course, h]

theorem course_of_link {reply : Reply} {link previous : String}
    (h : nextLink? (q.stop reply sent url).fetch.outcome = some link)
    (hlast : (q.stop reply sent url).state.getLast? = some previous) :
    q.course silence (reply :: replies) sent url = q.stop reply sent url ::
      q.course silence replies (q.stop reply sent url).state
        ((Url.nextLink previous link).mapError (.invalidNextLink link)) := by
  rw [course, h, hlast]

/-- A course goes on just where a stop has a link. -/
theorem course_cases (q : Query) (silence : String) (reply : Reply) (replies : List Reply)
    (sent : List String) (url : Except QueryError String) :
    (nextLink? (q.stop reply sent url).fetch.outcome = none ∧
        q.course silence (reply :: replies) sent url = [q.stop reply sent url]) ∨
      ∃ request link, url = .ok request ∧ nextLink? (q.pageOfReply reply) = some link ∧
        q.stop reply sent url = ⟨⟨reply.delay, q.pageOfReply reply⟩, sent ++ [request]⟩ ∧
        q.course silence (reply :: replies) sent url = q.stop reply sent url ::
          q.course silence replies (sent ++ [request])
            ((Url.nextLink request link).mapError (.invalidNextLink link)) := by
  cases hlink : nextLink? (q.stop reply sent url).fetch.outcome with
  | none => exact .inl ⟨rfl, course_of_last hlink⟩
  | some link =>
    rcases q.stop_cases reply sent url with ⟨-, hlast⟩ | ⟨request, rfl, hstop⟩
    · rw [hlast] at hlink
      cases hlink
    · have hprevious : (q.stop reply sent (.ok request)).state.getLast? = some request := by
        rw [hstop, List.getLast?_concat]
      refine .inr ⟨request, link, rfl, by rw [← hlink, hstop], hstop, ?_⟩
      rw [course_of_link hlink hprevious, hstop]

theorem course_ne_nil : q.course silence replies sent url ≠ [] := by
  rcases replies with - | ⟨reply, replies⟩ <;> exact List.cons_ne_nil _ _

/-- One stop alone is the last. -/
theorem eq_nil_iff_of_singleton {first v : Stop (List String) QueryError Json}
    {before after : List (Stop (List String) QueryError Json)}
    (hlast : nextLink? first.fetch.outcome = none) (h : [first] = before ++ v :: after) :
    after = [] ↔ nextLink? v.fetch.outcome = none := by
  rcases before with - | ⟨first', before⟩
  · obtain ⟨rfl, rfl⟩ := List.cons.inj h
    exact iff_of_true rfl hlast
  · have hrest := (List.cons.inj h).2
    simp at hrest

/-- There is no link in silence. -/
theorem nextLink?_stop_of_silence :
    nextLink? (q.stop ⟨0, .error silence⟩ sent url).fetch.outcome = none := by
  rcases q.stop_cases ⟨0, .error silence⟩ sent url with ⟨-, hlast⟩ | ⟨request, rfl, hstop⟩
  · exact hlast
  · rw [hstop]
    rfl

/-- **A stop is the last exactly if it has no link.** -/
theorem eq_nil_iff_of_course {before after : List (Stop (List String) QueryError Json)}
    {v : Stop (List String) QueryError Json}
    (h : q.course silence replies sent url = before ++ v :: after) :
    after = [] ↔ nextLink? v.fetch.outcome = none := by
  induction replies generalizing sent url before with
  | nil => exact eq_nil_iff_of_singleton nextLink?_stop_of_silence h
  | cons reply replies ih =>
    rcases q.course_cases silence reply replies sent url with
      ⟨hlast, hcourse⟩ | ⟨request, link, rfl, hlink, hstop, hcourse⟩
    · exact eq_nil_iff_of_singleton hlast (hcourse.symm.trans h)
    · rcases before with - | ⟨first, before⟩
      · obtain ⟨rfl, rfl⟩ := List.cons.inj (hcourse.symm.trans h)
        simp [hstop, hlink, course_ne_nil]
      · exact ih (List.cons.inj (hcourse.symm.trans h)).2

end Course

/-! ## Walks of a query -/

section Settling

variable {α : Type}

/-- What the first poll of a fetch settles. -/
def settleBy (q : Query) (take : Json → Except JsonFault α) (link : Option String) (w : Walk) :
    Stop Walk QueryError α :=
  match q.nextUrl link w.lastUrl with
  | .error e => ⟨⟨0, .error e⟩, ⟨none, w.wire⟩⟩
  | .ok url =>
    let ((delay, response), wire) := q.service.request url w.wire
    ⟨⟨delay, q.pageInBy take response⟩, ⟨some url, wire⟩⟩

/-- A fetch that is waited for. -/
def waiting (r : ScriptedFetch QueryError α) : Fetching α := .waiting r.delay r.outcome

/-- With its request a fetch is settled. -/
theorem settlesBy (q : Query) (take : Json → Except JsonFault α) :
    (q.pageFetcherBy take).Settles (q.settleBy take) waiting := by
  constructor
  · intro link w
    simp only [Fetcher.advance, pageFetcherBy, settleBy]
    cases hurl : q.nextUrl link w.lastUrl with
    | error e => rfl
    | ok url =>
      rcases hrequest : q.service.request url w.wire with ⟨⟨_ | delay, response⟩, wire⟩ <;>
        simp [ScriptedFetch.advance, waiting, Except.toOption, hrequest]
  · rintro ⟨_ | delay, outcome⟩ link w <;> rfl

end Settling

@[inherit_doc settleBy]
def settle (q : Query) : Option String → Walk → Stop Walk QueryError Json := q.settleBy q.taking

theorem settles (q : Query) : q.pageFetcher.Settles q.settle waiting := q.settlesBy q.taking

/-- The reply to the next request. -/
def Walk.reply (w : Walk) : Reply := w.wire.replies.headD ⟨0, .error w.wire.silence⟩

/-- A fetch either fails and sends nothing, or sends its request and takes the next reply. -/
theorem settle_cases (q : Query) (link : Option String) (w : Walk) :
    (∃ e last, q.settle link w = ⟨⟨0, .error e⟩, ⟨last, w.wire⟩⟩ ∧
        q.stop w.reply w.urls (q.nextUrl link w.lastUrl) = ⟨⟨0, .error e⟩, w.urls⟩) ∨
      ∃ url wire, q.settle link w = ⟨⟨w.reply.delay, q.pageOfReply w.reply⟩, ⟨some url, wire⟩⟩ ∧
        q.stop w.reply w.urls (q.nextUrl link w.lastUrl) =
          ⟨⟨w.reply.delay, q.pageOfReply w.reply⟩, w.urls ++ [url]⟩ ∧
        wire.replies = w.wire.replies.tail ∧ wire.silence = w.wire.silence ∧
        Walk.urls ⟨some url, wire⟩ = w.urls ++ [url] := by
  cases hurl : q.nextUrl link w.lastUrl with
  | error e => exact .inl ⟨e, none, by simp only [settle, settleBy, hurl], rfl⟩
  | ok url =>
    cases hconnected : q.service.connected with
    | false =>
      refine .inl ⟨.transportUnavailable, some url, ?_, ?_⟩
      · simp only [settle, settleBy, hurl, Service.request_of_unconnected hconnected]
        rfl
      · simp [stop, hconnected]
    | true =>
      obtain ⟨wire, hrequest, hwire⟩ := Service.request_of_connected hconnected url w.wire
      refine .inr ⟨url, wire, ?_, by simp [stop, hconnected], hwire⟩
      simp only [settle, settleBy, hurl, hrequest]
      rfl

/-- In the eyes of the requests a fetch is a stop. -/
theorem mapState_settle (q : Query) (link : Option String) (w : Walk) :
    (q.settle link w).mapState Walk.urls = q.stop w.reply w.urls (q.nextUrl link w.lastUrl) := by
  rcases q.settle_cases link w with ⟨e, last, hsettle, hstop⟩ | ⟨url, wire, hsettle, hstop, -, -, hurls⟩
  · rw [hsettle, hstop]
    rfl
  · rw [hsettle, hstop, ← hurls]
    rfl

/-- A link to follow comes with a reply, and behind it the walk has the URL of the last request. -/
theorem state_of_nextLink? {q : Query} {link : Option String} {w : Walk} {next : String}
    (h : nextLink? (q.settle link w).fetch.outcome = some next) :
    w.wire.replies = w.reply :: (q.settle link w).state.wire.replies ∧
      (q.settle link w).state.wire.silence = w.wire.silence ∧
      ∃ previous, (q.settle link w).state.lastUrl = some previous ∧
        (q.settle link w).state.urls.getLast? = some previous := by
  rcases q.settle_cases link w with ⟨e, last, hsettle, -⟩ | ⟨url, wire, hsettle, -, htail, hsilence, hurls⟩
  · rw [hsettle] at h
    cases h
  · rw [hsettle] at h ⊢
    refine ⟨?_, hsilence, url, rfl, by rw [hurls, List.getLast?_concat]⟩
    rw [htail, Walk.reply]
    rcases hreplies : w.wire.replies with - | ⟨reply, replies⟩
    · rw [Walk.reply, hreplies] at h
      cases h
    · rfl

/-- **A walk goes by the course of its query.** -/
theorem exists_follows (q : Query) {n : Nat} {w : Walk} (h : w.wire.replies.length < n)
    (link : Option String) : ∃ rest, rest.length < n ∧
      Follows q.settle (q.settle link w).fetch.outcome (q.settle link w).state rest ∧
      (q.settle link w :: rest).map (Stop.mapState Walk.urls) =
        q.course w.wire.silence w.wire.replies w.urls (q.nextUrl link w.lastUrl) := by
  induction n generalizing w link with
  | zero => exact absurd h (Nat.not_lt_zero _)
  | succ n ih =>
    have hstop := q.mapState_settle link w
    have houtcome : (q.settle link w).fetch.outcome =
        (q.stop w.reply w.urls (q.nextUrl link w.lastUrl)).fetch.outcome := by rw [← hstop]; rfl
    have hstate : (q.settle link w).state.urls =
        (q.stop w.reply w.urls (q.nextUrl link w.lastUrl)).state := by rw [← hstop]; rfl
    cases hnext : nextLink? (q.settle link w).fetch.outcome with
    | none =>
      refine ⟨[], Nat.succ_pos n, .last hnext, ?_⟩
      rw [course_of_last (houtcome ▸ hnext)]
      exact congrArg (· :: []) hstop
    | some next =>
      obtain ⟨hreplies, hsilence, previous, hlast, hurls⟩ := state_of_nextLink? hnext
      rw [hreplies, List.length_cons] at h
      obtain ⟨rest, hlength, hrest, hcourse⟩ := ih (Nat.lt_of_succ_lt_succ h) (some next)
      refine ⟨_ :: rest, Nat.succ_lt_succ hlength, .next hnext hrest, ?_⟩
      rw [hreplies, course_of_link (houtcome ▸ hnext) (hstate ▸ hurls), List.map_cons, hstop, hcourse,
        hsilence, hstate, hlast]
      rfl

/-! ## Chains of requests -/

/-- **Requests chained by links.**  The first is for a URL, and every other for where the link of a page
leads from the request before it, when the page came with the reply to that request. -/
structure IsChain (q : Query) (replies : List Reply) (url : Except QueryError String)
    (requests : List String) : Prop where
  first : ∀ request, requests[0]? = some request → url = .ok request
  next : ∀ k previous request, requests[k]? = some previous → requests[k + 1]? = some request →
    ∃ reply page link, replies[k]? = some reply ∧ q.pageOfReply reply = .ok page ∧
      page.nextLink = some link ∧ Url.nextLink previous link = .ok request

section Chain

variable {q : Query} {replies : List Reply} {sent : List String} {url : Except QueryError String}

theorem isChain_nil : q.IsChain replies url [] := by
  constructor
  · rintro request ⟨⟩
  · rintro k previous request ⟨⟩

theorem isChain_singleton (request : String) : q.IsChain replies (.ok request) [request] := by
  constructor
  · rintro request' ⟨⟩
    rfl
  · rintro k previous request' - hnext
    simp at hnext

/-- One request more at the beginning. -/
theorem IsChain.cons {reply : Reply} {link previous : String} {requests : List String}
    (hlink : nextLink? (q.pageOfReply reply) = some link)
    (h : q.IsChain replies ((Url.nextLink previous link).mapError (.invalidNextLink link)) requests) :
    q.IsChain (reply :: replies) (.ok previous) (previous :: requests) := by
  obtain ⟨page, hpage, hnext⟩ := exists_page_of_nextLink? hlink
  constructor
  · rintro request ⟨⟩
    rfl
  · rintro (_ | k) earlier request hearlier hrequest
    · obtain rfl : previous = earlier := by simpa using hearlier
      have hfirst := h.first request (by simpa using hrequest)
      exact ⟨reply, page, link, rfl, hpage, hnext, mapError_eq_ok.1 hfirst⟩
    · exact h.next k earlier request (by simpa using hearlier) (by simpa using hrequest)

theorem isChain_stop (reply : Reply) : ∃ requests,
    (q.stop reply sent url).state = sent ++ requests ∧ q.IsChain replies url requests := by
  rcases q.stop_cases reply sent url with ⟨hstate, -⟩ | ⟨request, rfl, hstop⟩
  · exact ⟨[], by rw [hstate, List.append_nil], isChain_nil⟩
  · exact ⟨[request], by rw [hstop], isChain_singleton request⟩

/-- The requests behind every stop of a course are chained. -/
theorem isChain_of_mem_course (q : Query) (silence : String)
    {v : Stop (List String) QueryError Json} (h : v ∈ q.course silence replies sent url) :
    ∃ requests, v.state = sent ++ requests ∧ q.IsChain replies url requests := by
  induction replies generalizing sent url with
  | nil =>
    obtain rfl := List.mem_singleton.1 h
    exact isChain_stop _
  | cons reply replies ih =>
    rcases q.course_cases silence reply replies sent url with
      ⟨-, hcourse⟩ | ⟨request, link, rfl, hlink, -, hcourse⟩
    · rw [hcourse] at h
      obtain rfl := List.mem_singleton.1 h
      exact isChain_stop reply
    · rw [hcourse] at h
      rcases List.mem_cons.1 h with rfl | h
      · exact isChain_stop reply
      · obtain ⟨requests, hstate, hchain⟩ := ih h
        refine ⟨request :: requests, ?_, hchain.cons hlink⟩
        rw [hstate, List.append_assoc]
        rfl

end Chain

/-! ## Requests and answers -/

/-- The course of a walk that begins on a wire. -/
def courseOn (q : Query) (w : Wire) : List (Stop (List String) QueryError Json) :=
  q.course w.silence w.replies w.urls q.url

/-- **A walk sends the requests of its course.**  Pages and items, polled any number of times, are answered
along the course, and what was sent behind each answer is what the course says; the requests are chained by
the links, and the course goes on exactly where there is a link. -/
theorem polls_requests (q : Query) (w : Wire) {bound : Nat} (h : w.replies.length < bound) (n : Nat) :
    (polls (Pager.poll q.pageFetcher) n .fresh ⟨none, w⟩).map (Prod.map id Walk.urls) =
        transcript (fun result => [result]) w.urls (q.courseOn w) n ∧
      (polls (ItemPager.poll q.pageFetcher bound) n .fresh ⟨none, w⟩).map (Prod.map id Walk.urls) =
        transcript itemsOf w.urls (q.courseOn w) n ∧
      (∀ v ∈ q.courseOn w, ∃ requests, v.state = w.urls ++ requests ∧
        q.IsChain w.replies q.url requests) ∧
      ∀ before v after, q.courseOn w = before ++ v :: after →
        (after = [] ↔ nextLink? v.fetch.outcome = none) := by
  obtain ⟨rest, hlength, hrest, hcourse⟩ := q.exists_follows (w := ⟨none, w⟩) h none
  have hahead : HasAhead q.settle waiting none false none ⟨none, w⟩
      (q.settle none ⟨none, w⟩ :: rest) := .idle hrest
  refine ⟨?_, ?_, fun v hv => q.isChain_of_mem_course w.silence hv, fun _ _ _ => eq_nil_iff_of_course⟩
  · rw [Pager.polls_eq_transcript q.settles hahead, map_transcript, hcourse]
    rfl
  · rw [ItemPager.polls_eq_transcript q.settles hahead hlength, map_transcript, hcourse]
    rfl

/-- All users, where there is a transport. -/
def users : Query := .on ⟨"https://host/odata/users", true, none⟩ .any

/-- A relative link, a link from the root, and then a response that is no page. -/
def linkedWire : Wire where
  replies :=
    [⟨1, .ok ⟨200, Text.Utf8.encode "\x7b\"@odata.nextLink\":\"users?b\",\"value\":[1]\x7d"⟩⟩,
      ⟨0, .ok ⟨200, Text.Utf8.encode "\x7b\"@odata.nextLink\":\"/c\",\"value\":[]\x7d"⟩⟩,
      ⟨0, .ok ⟨500, []⟩⟩]
  silence := "connection refused"
  sent := []
  optionsMade := 0

theorem polls_requests_linked : linkedWire.replies.length < 4 ∧
    (polls (ItemPager.poll users.pageFetcher 4) 5 .fresh ⟨none, linkedWire⟩).map (Prod.map id Walk.urls) =
      transcript itemsOf [] (users.courseOn linkedWire) 5 ∧
    (polls (ItemPager.poll users.pageFetcher 4) 5 .fresh ⟨none, linkedWire⟩).map (fun r => r.2.urls) =
      [["https://host/odata/users"], ["https://host/odata/users"],
        ["https://host/odata/users", "https://host/odata/users?b", "https://host/c"],
        ["https://host/odata/users", "https://host/odata/users?b", "https://host/c"],
        ["https://host/odata/users", "https://host/odata/users?b", "https://host/c"]] :=
  ⟨by decide, (polls_requests users linkedWire (by decide) 5).2.1, by decide +kernel⟩

end Query

end EntityQuery
