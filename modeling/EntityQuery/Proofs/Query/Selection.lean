import EntityQuery.Proofs.Query.Calls
import EntityQuery.Proofs.Paging.Results
import EntityQuery.Proofs.Paging.Requests

/-!
# Field list and projection

What a query asks for and what it makes of the records that come back are found in two ways: the field
list by taking the chain from its oldest step, where a later `select` overrides an earlier one, and the
projection by looking for the newest `select` from the other end.  For a query that is made by calls the
two are always of the same selection, the latest one that was called for, whatever other calls stand
around it.

`Query.IsSelecting` is what a selection leaves behind in a query.  A call keeps it, unless it selects
itself (`Query.Call.gives_selecting`), and so do all calls, one after the other
(`Query.gives_selecting_after`).  From there `Query.selection_of_calls` follows every way of executing the
query: the records of one page, of a counted page, of one entity, and of pages and items.
-/

set_option autoImplicit false

namespace EntityQuery

/-! ## Selections -/

/-- What a selection is made with: a list of fields, or a projection with the shape of its results. -/
inductive Selection
  | fields (fs : List Field)
  | projection (p : Projection) (result : Shape)

namespace Selection

/-- The step of a selection. -/
def step : Selection → Step
  | fields fs => (.select, fs.map .field)
  | projection p _ => (.select, p.fields.map .field ++ [.projection p])

/-- The paths that a selection asks for.  A projection asks for those that it reads when nothing is
there, each once, in the order of first use; reading the whole record asks for none. -/
def paths : Selection → List (List String)
  | fields fs => fs.map Field.path
  | projection p _ => (p.reads.filter (!·.isEmpty)).eraseDups

/-- The fields that a request names, if it has a selection and this asks for any. -/
def requested (selection : Option Selection) : Option (List String) :=
  match (selection.map paths).getD [] with
  | [] => none
  | paths => some (paths.map ("/".intercalate ·))

/-- The shape of the results. -/
def resultShape (entity : Shape) : Option Selection → Shape
  | some (projection _ result) => result
  | _ => entity

/-- What becomes of a record: a projection is applied to it once, anything else leaves it as it is, and
then it is taken in the shape of the results. -/
def take (entity : Shape) (selection : Option Selection) (record : Json) : Except QueryError Json :=
  match selection with
  | some (projection p result) => (result.decoder.ofJson (p.apply record)).mapError .json
  | _ => (entity.decoder.ofJson record).mapError .json

/-- The projection of a selection, if it is made with one. -/
def projection? : Selection → Option Projection
  | fields _ => none
  | projection p _ => some p

end Selection

/-- The selection that a call makes. -/
def Query.Call.selection? : Query.Call → Option Selection
  | select fs => some (.fields fs)
  | selectWith p result => some (.projection p result)
  | _ => none

/-- The latest selection of several calls. -/
def Query.latest (calls : List Query.Call) : Option Selection :=
  (calls.filterMap Query.Call.selection?).getLast?

/-! ## The step of a selection -/

/-- Taking each element once gives the order of first use. -/
theorem Projection.firstUses_eq_eraseDups {α : Type} [BEq α] [LawfulBEq α] [DecidableEq α]
    (xs : List α) : Projection.firstUses xs = xs.eraseDups := by
  refine Segments.foldl_eraseDups ?_ ?_ [] xs
  · intro seen x hx
    rw [if_pos hx]
  · intro seen x hx
    rw [if_neg hx]

namespace Selection

theorem fieldTexts_map_field (fs : List Field) :
    Segments.fieldTexts (fs.map .field) = fs.map Field.text := by
  induction fs with
  | nil => rfl
  | cons f rest ih => exact congrArg (f.text :: ·) ih

/-- The fields of a selection's step are the paths that it asks for. -/
theorem fieldTexts_step (selection : Selection) :
    Segments.fieldTexts selection.step.2 = selection.paths.map ("/".intercalate ·) := by
  cases selection with
  | fields fs =>
    rw [step, paths, fieldTexts_map_field, List.map_map]
    rfl
  | projection p result =>
    rw [step, paths, Projection.fieldTexts_fields, Projection.fields,
      Projection.firstUses_eq_eraseDups, List.map_map]
    rfl

theorem selection_step (selection : Selection) :
    Segments.selection selection.step = requested (some selection) := by
  rw [Segments.selection, fieldTexts_step, requested, Option.map_some, Option.getD_some]
  cases selection.paths <;> rfl

theorem ownProjection?_step (selection : Selection) :
    Expression.ownProjection? selection.step.2 = selection.projection? := by
  cases selection with
  | fields fs =>
    induction fs with
    | nil => rfl
    | cons f rest ih => exact ih
  | projection p result => exact Projection.ownProjection?_fields p.fields p

end Selection

/-! ## What is left behind in a query -/

/-- The projection of a chain is that of its newest `select`, taken as a step. -/
theorem Expression.projection?_eq (head : Option Expression) :
    head.bind Expression.projection? =
      (Slot.select.of (Expression.steps head)).getLast?.bind fun s => ownProjection? s.2 := by
  have hslot : (fun s : Step => decide (s.1.slot? = some Slot.select)) ∘
      (fun e : Expression => (e.operator, e.operands)) = fun e => e.operator == .select := by
    funext e
    rw [Function.comp_apply]
    cases e.operator <;> rfl
  rw [Slot.of, Expression.steps, List.filter_map, hslot, List.filter_reverse, List.getLast?_map,
    List.getLast?_reverse, List.head?_filter]
  cases head with
  | none => rfl
  | some e =>
    rw [Option.bind_some, Expression.projection?, Option.bind_map]
    rfl

namespace Query

/-- **A query of a selection.**  It is about these entities, its results have the shape that the selection
gives them, and its newest `select`, if it has one, is the step of the selection. -/
structure IsSelecting (entity : Shape) (selection : Option Selection) (q : Query) : Prop where
  entity_eq : q.entity = entity
  result_eq : q.result = Selection.resultShape entity selection
  newest : (Slot.select.of (Expression.steps q.head)).getLast? = selection.map Selection.step

variable {entity : Shape} {selection : Option Selection} {q : Query}

theorem isSelecting_on (service : Service) (entity : Shape) :
    (on service entity).IsSelecting entity none := ⟨rfl, rfl, rfl⟩

/-- A step that does not select keeps the selection. -/
theorem IsSelecting.push (h : q.IsSelecting entity selection) {operator : Operator}
    (hoperator : operator ≠ .select) (operands : List Operand) :
    (q.push operator operands).IsSelecting entity selection := by
  have hslot : operator.slot? ≠ some Slot.select := by
    cases operator <;> simp_all [Operator.slot?]
  refine ⟨h.entity_eq, h.result_eq, ?_⟩
  rw [Query.push, Expression.steps_node, Slot.of_append, Slot.of_singleton, if_neg hslot,
    List.append_nil, h.newest]

/-- The step of a selection replaces any other, if the shape of the results follows. -/
theorem IsSelecting.pushStep (h : q.IsSelecting entity selection) (latest : Selection) :
    IsSelecting entity (some latest) { q.push latest.step.1 latest.step.2 with
      result := Selection.resultShape entity (some latest) } := by
  have hslot : latest.step.1.slot? = some Slot.select := by cases latest <;> rfl
  refine ⟨h.entity_eq, rfl, ?_⟩
  rw [Query.push, Expression.steps_node, Slot.of_append, Slot.of_singleton, if_pos hslot,
    List.getLast?_concat]
  rfl

theorem IsSelecting.pushFields (h : q.IsSelecting entity selection) {operator : Operator}
    (hoperator : operator ≠ .select) {fields : List Field} {r : Query}
    (hr : q.pushFields operator fields = .ok r) : r.IsSelecting entity selection := by
  obtain ⟨operands, -, rfl⟩ := map_eq_ok.1 hr
  exact h.push hoperator operands

theorem IsSelecting.select (h : q.IsSelecting entity selection) {fs : List Field} {r : Query}
    (hr : q.select fs = .ok r) : r.IsSelecting entity (some (.fields fs)) := by
  obtain ⟨r', hr', rfl⟩ := map_eq_ok.1 hr
  obtain ⟨operands, hoperands, rfl⟩ := map_eq_ok.1 hr'
  rw [fieldOperands] at hoperands
  split at hoperands
  · cases hoperands
  · obtain ⟨rfl, -⟩ := mapM_validate_eq_ok hoperands
    have hshape : Selection.resultShape entity (some (.fields fs)) = q.entity := h.entity_eq.symm
    have hstep := h.pushStep (.fields fs)
    rw [hshape] at hstep
    exact hstep

theorem IsSelecting.filterPredicate (h : q.IsSelecting entity selection) {p : Predicate} {r : Query}
    (hr : q.filterPredicate p = .ok r) : r.IsSelecting entity selection := by
  obtain ⟨_, -, rfl⟩ := map_eq_ok.1 hr
  exact h.push (by decide) _

/-- **What one call leaves behind.**  Its own selection, if it makes one, and otherwise the one there
was. -/
theorem Call.gives_selecting (call : Call) (h : q.IsSelecting entity selection) :
    (call.apply q).Gives (IsSelecting entity (call.selection?.or selection)) := by
  cases call with
  | select fs => exact .lift fun r hr => h.select hr
  | selectWith p result => exact .pure (h.pushStep (.projection p result))
  | orderBy fs => exact .lift fun r hr => h.pushFields (by decide) hr
  | orderByDescending fs => exact .lift fun r hr => h.pushFields (by decide) hr
  | expand fs => exact .lift fun r hr => h.pushFields (by decide) hr
  | expandAll => exact .pure (h.push (by decide) _)
  | filter naming c =>
    have hbuild : (c.build naming [.entity]).Gives fun _ => True := fun _ _ _ => trivial
    refine hbuild.bind fun p _ => ?_
    exact .lift fun r hr => h.filterPredicate hr
  | filterPredicate p => exact .lift fun r hr => h.filterPredicate hr
  | top n => exact .pure (h.push (by decide) _)
  | skip n => exact .pure (h.push (by decide) _)
  | byKey key => exact .pure (h.push (by decide) _)
  | withCount => exact .pure (h.push (by decide) _)
  | value => exact .pure (h.push (by decide) _)

theorem latest_cons (call : Call) (calls : List Call) :
    latest (call :: calls) = (latest calls).or call.selection? := by
  rw [latest, latest]
  cases hcall : call.selection? with
  | none => rw [List.filterMap_cons_none hcall, Option.or_none]
  | some s =>
    rw [List.filterMap_cons_some hcall, List.getLast?_cons]
    cases (calls.filterMap Call.selection?).getLast? <;> rfl

/-- **What calls leave behind**, one after the other. -/
theorem gives_selecting_after (calls : List Call) (h : q.IsSelecting entity selection) :
    (q.after calls).Gives (IsSelecting entity ((latest calls).or selection)) := by
  induction calls generalizing q selection with
  | nil => exact .pure h
  | cons call rest ih =>
    rw [after, List.foldlM_cons, latest_cons, Option.or_assoc]
    exact (call.gives_selecting h).bind fun r hr => ih hr

/-! ## What a selection comes to -/

namespace IsSelecting

/-- The projection that is found from the newest step is that of the selection. -/
theorem projection?_eq (h : q.IsSelecting entity selection) :
    q.projection? = selection.bind Selection.projection? := by
  rw [projection?, Expression.projection?_eq, h.newest, Option.bind_map]
  cases selection with
  | none => rfl
  | some latest => exact latest.ownProjection?_step

theorem resultOf_eq (h : q.IsSelecting entity selection) :
    q.resultOf = Selection.take entity selection := by
  funext record
  rw [resultOf, resultBy, reshaped, taking, h.projection?_eq, h.result_eq]
  rcases selection with - | fs | ⟨p, result⟩ <;> rfl

/-- The fields that are left when the chain was taken from its oldest step are those of the selection. -/
theorem select_eq (h : q.IsSelecting entity selection) {s : Segments}
    (hs : Segments.ofChain q.head = .ok s) : s.select = Selection.requested selection := by
  obtain ⟨-, rfl⟩ := Segments.ofChain_eq_ok.1 hs
  rw [Segments.meaning, h.newest]
  cases selection with
  | none => rfl
  | some latest => exact latest.selection_step

end IsSelecting

/-- The URL of a query, if it has one, names these fields in its `$select`, and has none without fields. -/
def Asks (q : Query) (fields : Option (List String)) : Prop :=
  ∀ url, q.url = .ok url → ∃ s, Segments.ofChain q.head = .ok s ∧
    url = s.url q.service.endpoint ∧
    s.parameters.lookup "$select" = fields.map (",".intercalate ·) ∧ s.select = fields

theorem lookup_parameters_select (s : Segments) :
    s.parameters.lookup "$select" = s.select.map (",".intercalate ·) := by
  have hother {α : Type} (name : String) (hname : ("$select" == name) = false) (text : α → String)
      (o : Option α) : (o.map fun v => (name, text v)).toList.lookup "$select" = none := by
    cases o with
    | none => rfl
    | some v => rw [Option.map_some, Option.toList_some, List.lookup_cons, hname, List.lookup_nil]
  have hcount : (if s.count then [("$count", "true")] else []).lookup "$select" = none := by
    cases s.count <;> rfl
  have hselect : (s.select.map fun fs => ("$select", ",".intercalate fs)).toList.lookup "$select" =
      s.select.map (",".intercalate ·) := by
    cases s.select <;> rfl
  simp only [Segments.parameters, List.lookup_append, hother "$filter" rfl (fun v => v),
    hother "$orderby" rfl, hother "$skip" rfl, hother "$top" rfl, hother "$expand" rfl, hcount,
    hselect, Option.none_or, Option.or_none]

theorem IsSelecting.asks (h : q.IsSelecting entity selection) :
    q.Asks (Selection.requested selection) := by
  intro url hurl
  obtain ⟨s, hs, rfl⟩ := map_eq_ok.1 (show (Segments.ofChain q.head).map _ = .ok url from hurl)
  refine ⟨s, hs, rfl, ?_, h.select_eq hs⟩
  rw [lookup_parameters_select, h.select_eq hs]

end Query

/-! ## Records that come back -/

/-- A transport has a reply that succeeds with this body. -/
def Wire.Brings (w : Wire) (body : Json) : Prop :=
  ∃ reply ∈ w.replies, ∃ response, reply.outcome = .ok response ∧ response.payload = .ok body

/-- A page of results, each of which is taken from the record in its place. -/
def Page.IsTaken (take : Json → Except QueryError Json) (body : Json) (page : Page Json) : Prop :=
  ∃ raw, (Page.decoder .any).ofJson body = .ok raw ∧ page.context = raw.context ∧
    page.nextLink = raw.nextLink ∧
    List.Forall₂ (fun record result => take record = .ok result) raw.value page.value

@[inherit_doc Page.IsTaken]
def CountedPage.IsTaken (take : Json → Except QueryError Json) (body : Json)
    (page : CountedPage Json) : Prop :=
  ∃ raw, (CountedPage.decoder .any).ofJson body = .ok raw ∧ page.context = raw.context ∧
    page.nextLink = raw.nextLink ∧ page.count = raw.count ∧
    List.Forall₂ (fun record result => take record = .ok result) raw.value page.value

/-- One result, which is taken from the one record that there is. -/
def Single.IsTaken (take : Json → Except QueryError Json) (body : Json) (single : Single Json) :
    Prop :=
  ∃ raw, (Single.decoder Shape.any.ofMembers).ofJson body = .ok raw ∧
    single.context = raw.context ∧ take raw.entity = .ok single.entity

/-- Work on the wire that has a result did its first part first. -/
theorem Exchange.of_bind {α β : Type} {x : Exchange α} {f : α → Exchange β} {w : Wire} {b : β}
    (h : ((x >>= f).run.run w).1 = .ok b) :
    ∃ a w', x.run.run w = (.ok a, w') ∧ ((f a).run.run w').1 = .ok b := by
  rw [ExceptT.run_bind, StateT.run_bind] at h
  rcases hrun : x.run.run w with ⟨e | a, w'⟩
  · rw [hrun] at h
    cases h
  · rw [hrun] at h
    exact ⟨a, w', rfl, h⟩

/-- A response that comes is that of a reply; there is none in silence. -/
theorem Wire.exists_reply {w : Wire} {response : Response}
    (h : (w.replies.headD ⟨0, .error w.silence⟩).outcome = .ok response) :
    ∃ reply ∈ w.replies, reply.outcome = .ok response := by
  cases hreplies : w.replies with
  | nil =>
    rw [hreplies] at h
    cases h
  | cons reply rest =>
    rw [hreplies] at h
    exact ⟨reply, List.mem_cons_self, h⟩

theorem Service.exists_reply {s : Service} {url : String} {w : Wire} {response : Response}
    (h : (s.request url w).1.2 = .ok response) :
    ∃ reply ∈ w.replies, reply.outcome = .ok response := by
  cases hconnected : s.connected with
  | false =>
    rw [request_of_unconnected hconnected] at h
    cases h
  | true =>
    obtain ⟨w', hrequest, -⟩ := request_of_connected hconnected url w
    rw [hrequest] at h
    exact w.exists_reply (mapError_eq_ok.1 h)

theorem Service.brings_of_payload {s : Service} {head : Option Expression} {w w' : Wire} {body : Json}
    (h : (s.payload head).run.run w = (.ok body, w')) : w.Brings body := by
  obtain ⟨url, w₁, hurl, hrest⟩ := Exchange.of_bind (congrArg Prod.fst h)
  obtain ⟨response, w₂, hresponse, hbody⟩ := Exchange.of_bind hrest
  -- Nothing is sent for the URL itself.
  obtain rfl : w = w₁ := congrArg Prod.snd hurl
  have houtcome : (s.request url w).1.2 = .ok response := congrArg Prod.fst hresponse
  obtain ⟨reply, hreply, hreplied⟩ := exists_reply houtcome
  exact ⟨reply, hreply, response, hreplied, hbody⟩

namespace Query

section Bodies

variable {α : Type} {q : Query} {take : Json → Except JsonFault α} {body : Json}

theorem pageBy_eq_ok {page : Page α} : q.pageBy take body = .ok page ↔
    ∃ records, (Page.decoder .any).ofJson body = .ok ⟨page.context, page.nextLink, records⟩ ∧
      List.Forall₂ (fun record item => q.resultBy take record = .ok item) records page.value := by
  simp only [pageBy, bind_eq_ok, mapError_eq_ok, Page.mapM, mapM_eq_ok]
  constructor
  · rintro ⟨⟨context, link, records⟩, hraw, items, hitems, h⟩
    obtain rfl := Except.ok.inj h
    exact ⟨records, hraw, hitems⟩
  · rintro ⟨records, hraw, hitems⟩
    exact ⟨_, hraw, _, hitems, rfl⟩

theorem countedPageBy_eq_ok {page : CountedPage α} : q.countedPageBy take body = .ok page ↔
    ∃ records, (CountedPage.decoder .any).ofJson body =
        .ok ⟨page.context, page.nextLink, page.count, records⟩ ∧
      List.Forall₂ (fun record item => q.resultBy take record = .ok item) records page.value := by
  simp only [countedPageBy, bind_eq_ok, mapError_eq_ok, CountedPage.mapM, mapM_eq_ok]
  constructor
  · rintro ⟨⟨context, link, count, records⟩, hraw, items, hitems, h⟩
    obtain rfl := Except.ok.inj h
    exact ⟨records, hraw, hitems⟩
  · rintro ⟨records, hraw, hitems⟩
    exact ⟨_, hraw, _, hitems, rfl⟩

end Bodies

section Results

variable {q : Query} {take : Json → Except QueryError Json} (htake : q.resultOf = take)

include htake

theorem isTaken_of_pageOf {body : Json} {page : Page Json} (h : q.pageOf body = .ok page) :
    page.IsTaken take body := by
  obtain ⟨records, hraw, hitems⟩ := pageBy_eq_ok.1 h
  exact ⟨_, hraw, rfl, rfl, htake ▸ hitems⟩

theorem isTaken_of_countedPageOf {body : Json} {page : CountedPage Json}
    (h : q.countedPageOf body = .ok page) : page.IsTaken take body := by
  obtain ⟨records, hraw, hitems⟩ := countedPageBy_eq_ok.1 h
  exact ⟨_, hraw, rfl, rfl, rfl, htake ▸ hitems⟩

theorem isTaken_of_singleOf {body : Json} {single : Single Json}
    (h : q.singleOf body = .ok single) : single.IsTaken take body := by
  obtain ⟨raw, hraw, h⟩ := bind_eq_ok.1 h
  obtain ⟨entity, hentity, h⟩ := bind_eq_ok.1 h
  obtain rfl := Except.ok.inj h
  exact ⟨raw, mapError_eq_ok.1 hraw, rfl, htake ▸ hentity⟩

end Results

/-- **Every page that is fetched is made of a body that the transport brings.** -/
theorem yields (q : Query) (w : Wire) :
    q.pageFetcher.Yields (fun walk => walk.wire.replies ⊆ w.replies)
      (fun run => ∃ r, run = waiting r ∧
        ∀ page, r.outcome = .ok page → ∃ body, w.Brings body ∧ q.pageOf body = .ok page)
      fun page => ∃ body, w.Brings body ∧ q.pageOf body = .ok page := by
  refine q.settles.yields ?_
  intro link walk hwalk
  rcases q.settle_cases link walk with
    ⟨e, last, hsettle, -⟩ | ⟨url, wire, hsettle, -, htail, -, -⟩
  · rw [hsettle]
    exact ⟨nofun, hwalk⟩
  · rw [hsettle]
    constructor
    · intro page hpage
      obtain ⟨response, hresponse, hrest⟩ := bind_eq_ok.1 hpage
      obtain ⟨body, hbody, hpage⟩ := bind_eq_ok.1 hrest
      obtain ⟨reply, hreply, houtcome⟩ := walk.wire.exists_reply (mapError_eq_ok.1 hresponse)
      exact ⟨body, ⟨reply, hwalk hreply, response, houtcome, hbody⟩, hpage⟩
    · intro reply hreply
      rw [htail] at hreply
      exact hwalk (List.mem_of_mem_tail hreply)

/-- **Field list and projection are of the same selection.**  For a query made by calls, let a selection be
the latest of them, or none if there is none.

* The URL of the query, of the counted query and of the query for a key, wherever there is one, has the
  fields of that selection in its `$select`, and no `$select` if it asks for none.
* Every record that is returned is taken from the record in its place, by applying the projection of that
  selection to it once, or by leaving it as it is: on a page, on a counted page, as the entity of a key, and
  on the pages and among the items of a walk, polled any number of times. -/
theorem selection_of_calls (service : Service) (entity : Shape) (calls : List Call) {next : Nat}
    {q : Query} (hq : (((on service entity).after calls).run.run next).1 = .ok q) :
    (q.Asks (Selection.requested (latest calls)) ∧
      q.withCount.Asks (Selection.requested (latest calls)) ∧
      ∀ key, (q.byKey key).Asks (Selection.requested (latest calls))) ∧
    ∀ w : Wire,
      (∀ page, (q.getMany.run.run w).1 = .ok page →
        ∃ body, w.Brings body ∧ page.IsTaken (Selection.take entity (latest calls)) body) ∧
      (∀ page, (q.getManyWithCount.run.run w).1 = .ok page →
        ∃ body, w.Brings body ∧ page.IsTaken (Selection.take entity (latest calls)) body) ∧
      (∀ key single, ((q.get key).run.run w).1 = .ok single →
        ∃ body, w.Brings body ∧ single.IsTaken (Selection.take entity (latest calls)) body) ∧
      (∀ n page walk, (.ready (some (.ok page)), walk) ∈
          polls (Pager.poll q.pageFetcher) n .fresh ⟨none, w⟩ →
        ∃ body, w.Brings body ∧ page.IsTaken (Selection.take entity (latest calls)) body) ∧
      ∀ bound n item walk, (.ready (some (.ok item)), walk) ∈
          polls (ItemPager.poll q.pageFetcher bound) n .fresh ⟨none, w⟩ →
        ∃ (body : Json) (page : Page Json), w.Brings body ∧
          page.IsTaken (Selection.take entity (latest calls)) body ∧ item ∈ page.value := by
  have hselecting : q.IsSelecting entity (latest calls) := by
    have h := gives_selecting_after calls (isSelecting_on service entity) next q hq
    rwa [Option.or_none] at h
  have hcounted : q.withCount.IsSelecting entity (latest calls) := hselecting.push (by decide) _
  have hkeyed (key : Operand) : (q.byKey key).IsSelecting entity (latest calls) :=
    hselecting.push (by decide) _
  refine ⟨⟨hselecting.asks, hcounted.asks, fun key => (hkeyed key).asks⟩, fun w => ?_⟩
  refine ⟨?_, ?_, ?_, ?_, ?_⟩
  · intro page h
    obtain ⟨body, w', hbody, hpage⟩ := Exchange.of_bind h
    exact ⟨body, Service.brings_of_payload hbody, isTaken_of_pageOf hselecting.resultOf_eq hpage⟩
  · intro page h
    obtain ⟨body, w', hbody, hpage⟩ := Exchange.of_bind h
    exact ⟨body, Service.brings_of_payload hbody,
      isTaken_of_countedPageOf hcounted.resultOf_eq hpage⟩
  · intro key single h
    obtain ⟨body, w', hbody, hsingle⟩ := Exchange.of_bind h
    exact ⟨body, Service.brings_of_payload hbody,
      isTaken_of_singleOf (hkeyed key).resultOf_eq hsingle⟩
  · intro n page walk h
    obtain ⟨body, hbody, hpage⟩ :=
      Pager.forall_page_of_mem_polls (q.yields w) n (fun _ hreply => hreply) h
    exact ⟨body, hbody, isTaken_of_pageOf hselecting.resultOf_eq hpage⟩
  · intro bound n item walk h
    have hyields : q.pageFetcher.Yields _ _ fun page => ∀ item ∈ page.value,
        ∃ (body : Json) (page : Page Json), w.Brings body ∧ q.pageOf body = .ok page ∧
          item ∈ page.value :=
      (q.yields w).mono fun page ⟨body, hbody, hpage⟩ item hitem => ⟨body, page, hbody, hpage, hitem⟩
    obtain ⟨body, page, hbody, hpage, hitem⟩ :=
      ItemPager.forall_item_of_mem_polls hyields bound n (fun _ hreply => hreply) h
    exact ⟨body, page, hbody, isTaken_of_pageOf hselecting.resultOf_eq hpage, hitem⟩

/-- Two names and the whole record, the first name read twice. -/
def bothNames : Projection :=
  .array [.read ["name"], .read [], .read ["mother", "name"], .read ["name"]]

/-- A selection between two projections does not matter, nor do the calls around the last of them. -/
theorem selection_of_calls_bothNames :
    ∃ q, (((on ⟨"/users", false, none⟩ .any).after
        [.selectWith (.const .null) .any, .top 3, .select [⟨["id"]⟩], .selectWith bothNames .any,
          .skip 2]).run.run 0).1 = .ok q ∧
      q.Asks (some ["name", "mother/name"]) ∧
      q.url = .ok "/users?$select=name%2Cmother%2Fname&$skip=2&$top=3" := by
  refine ⟨_, rfl, ?_, rfl⟩
  exact (@selection_of_calls ⟨"/users", false, none⟩ .any
    [.selectWith (.const .null) .any, .top 3, .select [⟨["id"]⟩], .selectWith bothNames .any, .skip 2]
    0 _ rfl).1.1

end Query

end EntityQuery
