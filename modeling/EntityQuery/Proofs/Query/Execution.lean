import EntityQuery.Proofs.Json.Page
import EntityQuery.Proofs.Paging.Opening
import EntityQuery.Proofs.Query.Selection

/-!
# One body, executed in several ways

A query is executed for one page, for one page with a count, or for all pages and the items on them.  Each
way asks for the body, takes a form of page from it, finds the projection, and makes results of the records
on its own.  This file says that they agree, on every body that is an object and for results of every type.

What a query receives with an answer is the same for all of them (`Query.received`), also with a step more
that asks for the count.  What is made of it differs by the count alone
(`Query.received_countedPageBy_iff`), and a walk over pages opens with it (`Query.settleBy_answering`).
`Query.decodesAlike` puts these together: there is a counted page just if there is a page and the count is
one; the first page of a walk is that page; and if one record is no result, then all fail and nothing of the
body is handed out.
-/

set_option autoImplicit false

namespace EntityQuery

/-! ## The body that is received -/

/-- The same transport with one answer that comes before all others. -/
def Wire.answering (w : Wire) (delay : Nat) (r : Response) : Wire :=
  { w with replies := ⟨delay, .ok r⟩ :: w.replies }

namespace Service

/-- A request gets the answer, if there is a transport. -/
theorem request_answering (s : Service) (url : String) (w : Wire) (delay : Nat) (r : Response) :
    ∃ w', s.request url (w.answering delay r) =
      (if s.connected then (delay, .ok r) else (0, .error .transportUnavailable), w') := by
  cases hconnected : s.connected with
  | false => exact ⟨_, request_of_unconnected hconnected _ _⟩
  | true =>
    obtain ⟨w', hrequest, -⟩ := request_of_connected hconnected url (w.answering delay r)
    exact ⟨w', hrequest⟩

theorem response_answering (s : Service) (url : String) (w : Wire) (delay : Nat) (r : Response) :
    ∃ w', (s.response url).run.run (w.answering delay r) =
      (if s.connected then .ok r else .error .transportUnavailable, w') := by
  obtain ⟨w', hrequest⟩ := s.request_answering url w delay r
  refine ⟨w', ?_⟩
  show ((s.request url (w.answering delay r)).1.2, (s.request url (w.answering delay r)).2) = _
  rw [hrequest]
  cases s.connected <;> rfl

end Service

namespace Query

variable {α : Type}

/-- The body that a query gets with an answer. -/
def received (q : Query) (r : Response) : Except QueryError Json := do
  let _ ← q.url
  if q.service.connected then r.payload else .error .transportUnavailable

theorem payload_answering (q : Query) (w : Wire) (delay : Nat) (r : Response) :
    ∃ w', (q.service.payload q.head).run.run (w.answering delay r) = (q.received r, w') := by
  rw [Service.payload, received, url, ExceptT.run_bind, StateT.run_bind]
  cases q.service.url q.head with
  | error e => exact ⟨_, rfl⟩
  | ok url =>
    obtain ⟨w', hresponse⟩ := q.service.response_answering url w delay r
    refine ⟨w', ?_⟩
    show (q.service.response url >>= fun r => (r.payload : Exchange Json)).run.run
      (w.answering delay r) = (if q.service.connected then r.payload else .error .transportUnavailable, w')
    rw [ExceptT.run_bind, StateT.run_bind, hresponse]
    cases q.service.connected <;> rfl

/-- A query has a URL if its steps can be taken. -/
theorem map_url (q : Query) :
    q.url.map (fun _ => ()) = (Segments.run (Expression.steps q.head)).map fun _ => () := by
  rw [url, Service.url, Segments.ofChain_eq_run]
  cases Segments.run (Expression.steps q.head) <;> rfl

/-- Asking for the count does not change what is received. -/
theorem received_withCount (q : Query) (r : Response) : q.withCount.received r = q.received r := by
  have hsteps : Expression.steps q.withCount.head =
      Expression.steps q.head ++ [(Operator.getWithCount, [])] := Expression.steps_node _ _ _
  have hverdict : Segments.verdictAfter (Expression.steps q.head) (.getWithCount, []) = .ok () := rfl
  have hmap : q.withCount.url.map (fun _ => ()) = q.url.map fun _ => () := by
    rw [map_url, map_url, hsteps, Segments.map_run_append_singleton, hverdict]
    cases Segments.run (Expression.steps q.head) <;> rfl
  have hreceived (p : Query) : p.received r = p.url.map (fun _ => ()) >>= fun _ =>
      if p.service.connected then r.payload else .error .transportUnavailable := by
    rw [received]
    cases p.url <;> rfl
  rw [hreceived, hreceived, hmap]
  rfl

/-- The projection of the counted query is found anew, and is the same. -/
theorem resultBy_withCount (q : Query) (take : Json → Except JsonFault α) :
    q.withCount.resultBy take = q.resultBy take := by
  have hprojection : q.withCount.projection? = q.projection? := by
    obtain ⟨service, entity, result, _ | head⟩ := q <;> rfl
  funext record
  rw [resultBy, resultBy, reshaped, reshaped, hprojection]

section Answering

variable (q : Query) (take : Json → Except JsonFault α) (w : Wire) (delay : Nat) (r : Response)

theorem getManyBy_answering : ((q.getManyBy take).run.run (w.answering delay r)).1 =
    q.received r >>= q.pageBy take := by
  obtain ⟨w', hpayload⟩ := q.payload_answering w delay r
  rw [getManyBy, ExceptT.run_bind, StateT.run_bind, hpayload]
  cases q.received r <;> rfl

theorem getManyWithCountBy_answering :
    ((q.getManyWithCountBy take).run.run (w.answering delay r)).1 =
      q.received r >>= q.countedPageBy take := by
  obtain ⟨w', hpayload⟩ := q.withCount.payload_answering w delay r
  have hcounted : q.withCount.countedPageBy take = q.countedPageBy take := by
    funext body
    rw [countedPageBy, countedPageBy, resultBy_withCount]
  rw [getManyWithCountBy, ExceptT.run_bind, StateT.run_bind, hpayload, received_withCount, ← hcounted]
  cases q.received r <;> rfl

/-- The first fetch of a walk is for the body that is received, and waits no longer than the answer. -/
theorem settleBy_answering :
    (q.settleBy take none ⟨none, w.answering delay r⟩).fetch.outcome = q.received r >>= q.pageBy take ∧
      (q.settleBy take none ⟨none, w.answering delay r⟩).fetch.delay ≤ delay := by
  rw [settleBy, nextUrl, received]
  cases q.url with
  | error e => exact ⟨rfl, Nat.zero_le _⟩
  | ok url =>
    obtain ⟨w', hrequest⟩ := q.service.request_answering url w delay r
    simp only [hrequest]
    cases q.service.connected with
    | false => exact ⟨rfl, Nat.zero_le _⟩
    | true => exact ⟨rfl, Nat.le_refl _⟩

end Answering

/-! ## Pages of results -/

section Results

variable {q : Query} {take : Json → Except JsonFault α} {members : List (String × Json)}
  (hkeys : (members.map Prod.fst).Nodup)

include hkeys

/-- **A counted page of results** is there if a page of them is, and its count is one. -/
theorem countedPageBy_eq_ok_iff {page : CountedPage α} :
    q.countedPageBy take (.object members) = .ok page ↔
      q.pageBy take (.object members) = .ok page.uncounted ∧
        IsCount (members.lookup countKey) page.count := by
  simp only [countedPageBy_eq_ok, CountedPage.ofJson_object_iff hkeys, pageBy_eq_ok]
  constructor
  · rintro ⟨records, ⟨hraw, hcount⟩, hitems⟩
    exact ⟨⟨records, hraw, hitems⟩, hcount⟩
  · rintro ⟨⟨records, hraw, hitems⟩, hcount⟩
    exact ⟨records, ⟨hraw, hcount⟩, hitems⟩

/-- The results of a page are those of the records in the body, one for one. -/
theorem exists_records_of_pageBy {page : Page α} (h : q.pageBy take (.object members) = .ok page) :
    ∃ records, members.lookup valueKey = some (.array records) ∧
      List.Forall₂ (fun record item => q.resultBy take record = .ok item) records page.value := by
  obtain ⟨records, hraw, hitems⟩ := pageBy_eq_ok.1 h
  exact ⟨records, ((Page.ofJson_object_iff hkeys).1 hraw).value, hitems⟩

end Results

/-! ## What comes of an answer -/

/-- What is received is the body of the answer, unless nothing was sent. -/
theorem eq_of_received {q : Query} {r : Response} {body j : Json} (hpayload : r.payload = .ok body)
    (h : q.received r = .ok j) : j = body := by
  obtain ⟨_, -, h⟩ := bind_eq_ok.1 h
  split at h
  · exact Except.ok.inj (h.symm.trans hpayload)
  · cases h

/-- Every record of a page has a result. -/
theorem exists_result_of_mem {q : Query} {take : Json → Except JsonFault α} {records : List Json}
    {items : List α}
    (h : List.Forall₂ (fun record item => q.resultBy take record = .ok item) records items)
    {record : Json} (hrecord : record ∈ records) : ∃ item, q.resultBy take record = .ok item := by
  induction h with
  | nil => cases hrecord
  | @cons first item rest items hfirst _ ih =>
    rcases List.mem_cons.1 hrecord with rfl | hrest
    · exact ⟨item, hfirst⟩
    · exact ih hrest

section Received

variable {q : Query} {take : Json → Except JsonFault α} {r : Response} {members : List (String × Json)}
  (hkeys : (members.map Prod.fst).Nodup) (hpayload : r.payload = .ok (.object members))

include hkeys hpayload

theorem received_countedPageBy_iff {page : CountedPage α} :
    q.received r >>= q.countedPageBy take = .ok page ↔
      q.received r >>= q.pageBy take = .ok page.uncounted ∧
        IsCount (members.lookup countKey) page.count := by
  cases hreceived : q.received r with
  | error e => exact iff_of_false nofun fun h => nomatch h.1
  | ok body =>
    obtain rfl := eq_of_received hpayload hreceived
    exact countedPageBy_eq_ok_iff hkeys

theorem exists_records_of_received {page : Page α} (h : q.received r >>= q.pageBy take = .ok page) :
    ∃ records, members.lookup valueKey = some (.array records) ∧
      List.Forall₂ (fun record item => q.resultBy take record = .ok item) records page.value := by
  obtain ⟨body, hreceived, hpage⟩ := bind_eq_ok.1 h
  obtain rfl := eq_of_received hpayload hreceived
  exact exists_records_of_pageBy hkeys hpage

/-- One record that is no result keeps the page from being one. -/
theorem exists_error_of_refused {records : List Json} {record : Json} {e : QueryError}
    (hrecords : members.lookup valueKey = some (.array records)) (hrecord : record ∈ records)
    (hrefused : q.resultBy take record = .error e) :
    ∃ e, q.received r >>= q.pageBy take = .error e := by
  cases hplain : q.received r >>= q.pageBy take with
  | error e => exact ⟨e, rfl⟩
  | ok page =>
    obtain ⟨records', hrecords', hitems⟩ := exists_records_of_received hkeys hpayload hplain
    obtain rfl := Json.array.inj (Option.some.inj (hrecords.symm.trans hrecords'))
    obtain ⟨item, hitem⟩ := exists_result_of_mem hitems hrecord
    cases hrefused.symm.trans hitem

end Received

/-! ## All ways agree -/

/-- **One body, decoded alike.**  How a page, a counted page, and the answers to so many polls for pages
and for items compare, if all of them are made of the object with these members. -/
structure DecodesAlike (q : Query) (take : Json → Except JsonFault α) (members : List (String × Json))
    (delay : Nat) (plain : Except QueryError (Page α)) (counted : Except QueryError (CountedPage α))
    (pages : Nat → List (Option (Except QueryError (Page α))))
    (items : Nat → Nat → List (Option (Except QueryError α))) : Prop where
  /-- There is a counted page just if there is a page and the count is one, and then they are the same
  but for the count. -/
  counts : ∀ page, counted = .ok page ↔
    plain = .ok page.uncounted ∧ IsCount (members.lookup countKey) page.count
  /-- A page has the results of the records in the body, one for one. -/
  values : ∀ page, plain = .ok page → ∃ records, members.lookup valueKey = some (.array records) ∧
    List.Forall₂ (fun record item => q.resultBy take record = .ok item) records page.value
  /-- The first of all pages is what the page alone is. -/
  first : ∀ n, delay < n → (pages n).head? = some (some plain)
  /-- One record that is no result is enough for all of them to fail, and no item of the body is
  answered. -/
  fails : ∀ records record e, members.lookup valueKey = some (.array records) → record ∈ records →
    q.resultBy take record = .error e →
      ∃ e, plain = .error e ∧ (∀ page, counted ≠ .ok page) ∧
        ∀ n, delay < n → ∃ ends, pages n = some (.error e) :: List.replicate ends none ∧
          ∀ bound, 0 < bound → items bound n = some (.error e) :: List.replicate ends none

/-- **Plain, counted and streamed execution decode alike.**  Let a response with a JSON object for a body
be the answer to the first request that is sent. -/
theorem decodesAlike (q : Query) (take : Json → Except JsonFault α) (w : Wire) (delay : Nat)
    {r : Response} (hsuccess : r.isSuccess = true) {members : List (String × Json)}
    (hbody : r.json = .ok (.object members)) :
    q.DecodesAlike take members delay ((q.getManyBy take).run.run (w.answering delay r)).1
      ((q.getManyWithCountBy take).run.run (w.answering delay r)).1
      (fun n => readies (polls (Pager.poll (q.pageFetcherBy take)) n .fresh
        ⟨none, w.answering delay r⟩))
      (fun bound n => readies (polls (ItemPager.poll (q.pageFetcherBy take) bound) n .fresh
        ⟨none, w.answering delay r⟩)) := by
  have hkeys : (members.map Prod.fst).Nodup :=
    (Json.isAscending_of_ofBytes (mapError_eq_ok.1 hbody)).nodup_keys
  have hpayload : r.payload = .ok (.object members) := by rw [Response.payload, if_pos hsuccess, hbody]
  obtain ⟨houtcome, hdelay⟩ := q.settleBy_answering take w delay r
  rw [getManyBy_answering, getManyWithCountBy_answering]
  refine ⟨fun page => received_countedPageBy_iff hkeys hpayload,
    fun page => exists_records_of_received hkeys hpayload, fun n hn => ?_, ?_⟩
  · rw [← houtcome]
    exact Pager.head?_readies (q.settlesBy take) (Nat.lt_of_le_of_lt hdelay hn)
  · intro records record _ hrecords hrecord hrefused
    obtain ⟨e, he⟩ := exists_error_of_refused hkeys hpayload hrecords hrecord hrefused
    refine ⟨e, he, fun page hcounted => ?_, fun n hn => ?_⟩
    · have hplain := ((received_countedPageBy_iff hkeys hpayload).1 hcounted).1
      cases he.symm.trans hplain
    · have herror := houtcome.trans he
      have hpolls := Nat.lt_of_le_of_lt hdelay hn
      exact ⟨_, Pager.readies_of_error herror (q.settlesBy take) hpolls,
        fun bound hbound => ItemPager.readies_of_error herror (q.settlesBy take) hpolls hbound⟩

/-- The ages of all users, as numbers. -/
def ages : Query := users.selectWith (.read ["age"]) .any

/-- A response with a count and two users, of which the second has no number for an age. -/
def mixedAges : Response :=
  ⟨200, Text.Utf8.encode
    "\x7b\"value\":[\x7b\"age\":1\x7d,\x7b\"age\":\"x\"\x7d],\"@odata.count\":7\x7d"⟩

theorem json_mixedAges : mixedAges.json = .ok (.object [("@odata.count", .number (.integer 7)),
    ("value", .array [.object [("age", .number (.integer 1))], .object [("age", .text "x")]])]) := rfl

/-- A response with a count and one user. -/
def oneAge : Response :=
  ⟨200, Text.Utf8.encode "\x7b\"value\":[\x7b\"age\":1\x7d],\"@odata.count\":7\x7d"⟩

theorem json_oneAge : oneAge.json = .ok (.object [("@odata.count", .number (.integer 7)),
    ("value", .array [.object [("age", .number (.integer 1))]])]) := rfl

/-- One user can be counted; of two, the second keeps the first from being answered. -/
theorem decodesAlike_ages :
    ((ages.getManyBy Decoder.natural.ofJson).run.run (linkedWire.answering 1 oneAge)).1 =
        .ok ⟨none, none, [1]⟩ ∧
      ((ages.getManyWithCountBy Decoder.natural.ofJson).run.run (linkedWire.answering 1 oneAge)).1 =
        .ok ⟨none, none, some 7, [1]⟩ ∧
      ∃ e ends, ((ages.getManyBy Decoder.natural.ofJson).run.run
          (linkedWire.answering 1 mixedAges)).1 = .error e ∧
        readies (polls (ItemPager.poll (ages.pageFetcherBy Decoder.natural.ofJson) 2) 4 .fresh
          ⟨none, linkedWire.answering 1 mixedAges⟩) =
            some (.error e) :: List.replicate ends none := by
  have hreceived : ages.received oneAge = oneAge.json := rfl
  have hplain : ((ages.getManyBy Decoder.natural.ofJson).run.run
      (linkedWire.answering 1 oneAge)).1 = .ok ⟨none, none, [1]⟩ := by
    rw [getManyBy_answering, hreceived, json_oneAge]
    rfl
  have hcounted := decodesAlike ages Decoder.natural.ofJson linkedWire 1 rfl json_oneAge
  have hfails := decodesAlike ages Decoder.natural.ofJson linkedWire 1 rfl json_mixedAges
  refine ⟨hplain, (hcounted.counts _).2 ⟨hplain, .integer 7 (by decide)⟩, ?_⟩
  obtain ⟨e, he, -, hpolls⟩ := hfails.fails _ (.object [("age", .text "x")]) _ rfl (by simp) rfl
  obtain ⟨ends, -, hitems⟩ := hpolls 4 (by decide)
  exact ⟨e, ends, he, hitems 2 (by decide)⟩

end Query

end EntityQuery
