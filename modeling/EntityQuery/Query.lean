import EntityQuery.Condition
import EntityQuery.Service
import EntityQuery.Shape
import EntityQuery.Paging
import EntityQuery.Url.NextLink

/-!
# Queries

A `Query` is a chain of steps on a service.  Every call returns a new query that is one step longer
and leaves the old one as it was, so queries may share their beginnings.

Calls that take fields are checked at once: there has to be one, and every path has to name something.
So is a filter's predicate.  Everything else is found out when the query is written as a URL
(`Query.url`).

**Results.**  A query's results are entities of its shape, until a projection is selected; then every
record goes through the projection, and what comes out has a shape of its own.  A later plain selection
brings the entities back.  Field list and projection always belong to the same selection, the newest.

**Execution** sends one request (`getMany`, `getManyWithCount`, `get`, `getValue`), or as many as there
are pages (`pageFetcher`).  Links are resolved against the URL of the request just before; a query or a
link that fails to give a URL sends nothing.
-/

set_option autoImplicit false

namespace EntityQuery

/-- A query on a service. -/
structure Query where
  service : Service
  /-- The shape of the entities it is about. -/
  entity : Shape
  /-- The shape of its results. -/
  result : Shape
  /-- Its newest step. -/
  head : Option Expression

namespace Query

/-- A query without steps. -/
def on (service : Service) (entity : Shape) : Query := ⟨service, entity, entity, none⟩

/-- The same query with one step more. -/
def push (q : Query) (operator : Operator) (operands : List Operand) : Query :=
  { q with head := some (.node operator operands q.head) }

/-! ## Steps with fields -/

/-- Fields as operands of a step, which needs at least one. -/
def fieldOperands (operator : Operator) (fields : List Field) :
    Except QueryError (List Operand) :=
  if fields.isEmpty then .error (.invalidArgument operator "at least one field is required")
  else fields.mapM fun f => f.validate.map fun _ => .field f

/-- The same query with a step on fields more. -/
def pushFields (q : Query) (operator : Operator) (fields : List Field) :
    Except QueryError Query :=
  (fieldOperands operator fields).map (q.push operator)

/-- Asks for some fields only; results are entities again. -/
def select (q : Query) (fields : List Field) : Except QueryError Query :=
  (q.pushFields .select fields).map fun r => { r with result := q.entity }

/-- Asks for the fields that a projection reads, and puts every record through it. -/
def selectWith (q : Query) (p : Projection) (result : Shape) : Query :=
  { q.push .select (p.fields.map .field ++ [.projection p]) with result := result }

/-- Adds sort keys, ascending. -/
def orderBy (q : Query) (fields : List Field) : Except QueryError Query :=
  q.pushFields .orderBy fields

/-- Adds sort keys, descending. -/
def orderByDescending (q : Query) (fields : List Field) : Except QueryError Query :=
  q.pushFields .orderByDescending fields

/-- Expands navigation properties. -/
def expand (q : Query) (fields : List Field) : Except QueryError Query :=
  q.pushFields .expand fields

/-! ## Other steps -/

/-- Expands everything. -/
def expandAll (q : Query) : Query := q.push .expandAll []

/-- Adds a condition; several hold together. -/
def filterPredicate (q : Query) (p : Predicate) : Except QueryError Query :=
  p.expression.validateFields.map fun _ => q.push .predicate [.expression p.expression]

/-- Adds a condition that is yet to be built. -/
def filter (q : Query) (naming : Naming) (c : Condition) : Numbering Query := do
  let p ← c.build naming [.entity]
  q.filterPredicate p

/-- A count as an operand. -/
def countOperand (n : Nat) : Operand := .bare (.number (.ofInt n))

/-- At most so many results; the last call counts. -/
def top (q : Query) (n : Nat) : Query := q.push .top [countOperand n]

/-- Leaves so many results out; the last call counts. -/
def skip (q : Query) (n : Nat) : Query := q.push .skip [countOperand n]

/-- Addresses one entity. -/
def byKey (q : Query) (key : Operand) : Query := q.push .getByKey [key]

/-- Asks for the number of all results. -/
def withCount (q : Query) : Query := q.push .getWithCount []

/-- Addresses the raw value. -/
def value (q : Query) : Query := q.push .value []

/-- The URL of a query. -/
def url (q : Query) : Except QueryError String := q.service.url q.head

/-- The projection that records go through. -/
def projection? (q : Query) : Option Projection := q.head.bind Expression.projection?

/-! ## Execution

Results may be of any type that can be taken from JSON values; `take` says how.  The results of the
query's own shape are JSON values again (`Query.taking`). -/

section Execution

variable {α : Type}

/-- A record as it is before it becomes a result: put through the projection, if there is one. -/
def reshaped (q : Query) (record : Json) : Json :=
  match q.projection? with
  | some p => p.apply record
  | none => record

/-- A record as a result. -/
def resultBy (q : Query) (take : Json → Except JsonFault α) (record : Json) : Except QueryError α :=
  (take (q.reshaped record)).mapError .json

/-- A body as a page of results. -/
def pageBy (q : Query) (take : Json → Except JsonFault α) (body : Json) :
    Except QueryError (Page α) := do
  let page ← ((Page.decoder .any).ofJson body).mapError .json
  page.mapM (q.resultBy take)

/-- A body as a counted page of results. -/
def countedPageBy (q : Query) (take : Json → Except JsonFault α) (body : Json) :
    Except QueryError (CountedPage α) := do
  let page ← ((CountedPage.decoder .any).ofJson body).mapError .json
  page.mapM (q.resultBy take)

/-- A body as one result. -/
def singleBy (q : Query) (take : Json → Except JsonFault α) (body : Json) :
    Except QueryError (Single α) := do
  let single ← ((Single.decoder Shape.any.ofMembers).ofJson body).mapError .json
  let entity ← q.resultBy take single.entity
  .ok ⟨single.context, entity⟩

/-- One page of results. -/
def getManyBy (q : Query) (take : Json → Except JsonFault α) : Exchange (Page α) := do
  let body ← q.service.payload q.head
  q.pageBy take body

/-- One page of results, with the number of all. -/
def getManyWithCountBy (q : Query) (take : Json → Except JsonFault α) :
    Exchange (CountedPage α) := do
  let counted := q.withCount
  let body ← counted.service.payload counted.head
  counted.countedPageBy take body

/-- The entity of a key. -/
def getBy (q : Query) (take : Json → Except JsonFault α) (key : Operand) : Exchange (Single α) := do
  let keyed := q.byKey key
  let body ← keyed.service.payload keyed.head
  keyed.singleBy take body

end Execution

/-- How a result of the query's shape is taken. -/
def taking (q : Query) : Json → Except JsonFault Json := q.result.decoder.ofJson

@[inherit_doc resultBy]
def resultOf (q : Query) (record : Json) : Except QueryError Json := q.resultBy q.taking record

@[inherit_doc pageBy]
def pageOf (q : Query) (body : Json) : Except QueryError (Page Json) := q.pageBy q.taking body

@[inherit_doc countedPageBy]
def countedPageOf (q : Query) (body : Json) : Except QueryError (CountedPage Json) :=
  q.countedPageBy q.taking body

@[inherit_doc singleBy]
def singleOf (q : Query) (body : Json) : Except QueryError (Single Json) := q.singleBy q.taking body

@[inherit_doc getManyBy]
def getMany (q : Query) : Exchange (Page Json) := q.getManyBy q.taking

@[inherit_doc getManyWithCountBy]
def getManyWithCount (q : Query) : Exchange (CountedPage Json) := q.getManyWithCountBy q.taking

@[inherit_doc getBy]
def get (q : Query) (key : Operand) : Exchange (Single Json) := q.getBy q.taking key

/-- The raw bytes of a value. -/
def getValue (q : Query) : Exchange (List UInt8) := do
  let raw := q.value
  let url ← raw.url
  let r ← raw.service.response url
  r.content

/-! ## Pages -/

/-- What fetching pages changes: the URL of the last request, and the wire. -/
structure Walk where
  /-- The URL of the last request that had one. -/
  lastUrl : Option String
  wire : Wire

/-- A page that is being fetched: not requested yet, or waited for. -/
inductive Fetching (α : Type)
  | unsent (url : Except QueryError String)
  | waiting (delay : Nat) (outcome : Except QueryError (Page α))

/-- A page of results of the query's shape that is being fetched. -/
abbrev PageFetch := Fetching Json

/-- The URL to request next: that of the query, or where a link leads from the last one. -/
def nextUrl (q : Query) (link lastUrl : Option String) : Except QueryError String :=
  match link, lastUrl with
  | none, _ => q.url
  | some link, none => .ok link
  | some link, some last => (Url.nextLink last link).mapError (.invalidNextLink link)

section Pages

variable {α : Type}

/-- The page in a response. -/
def pageInBy (q : Query) (take : Json → Except JsonFault α) (response : Except QueryError Response) :
    Except QueryError (Page α) := do
  let r ← response
  let body ← r.payload
  q.pageBy take body

/-- Fetches the pages of a query. -/
def pageFetcherBy (q : Query) (take : Json → Except JsonFault α) :
    Fetcher Walk (Fetching α) QueryError α where
  start link w :=
    let url := q.nextUrl link w.lastUrl
    (.unsent url, { w with lastUrl := url.toOption })
  resume
    | .unsent (.error e), w => (.inr (.error e), w)
    | .unsent (.ok url), w =>
      let ((delay, response), wire) := q.service.request url w.wire
      let w := { w with wire := wire }
      match delay with
      | 0 => (.inr (q.pageInBy take response), w)
      | n + 1 => (.inl (.waiting n (q.pageInBy take response)), w)
    | .waiting 0 outcome, w => (.inr outcome, w)
    | .waiting (n + 1) outcome, w => (.inl (.waiting n outcome), w)

end Pages

@[inherit_doc pageInBy]
def pageIn (q : Query) (response : Except QueryError Response) : Except QueryError (Page Json) :=
  q.pageInBy q.taking response

@[inherit_doc pageFetcherBy]
def pageFetcher (q : Query) : Fetcher Walk PageFetch QueryError Json := q.pageFetcherBy q.taking

end Query

end EntityQuery
