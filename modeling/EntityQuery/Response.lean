import EntityQuery.Json.Decoder
import EntityQuery.Http.Status
import EntityQuery.Error

/-!
# Responses

A `Response` is a status and a body of bytes.  When it is a success its body is JSON; when it is not,
the body goes into the error: as compact JSON if it is JSON, and as text otherwise.

The JSON of a service comes in three forms.  A `Page` holds some of the results of a query with a link
to the rest, a `CountedPage` also says how many there are in all, and a `Single` is one entity whose
properties stand beside the annotations.  Annotations may be missing or null, which is the same.
-/

set_option autoImplicit false

namespace EntityQuery

/-- What a server answers. -/
structure Response where
  status : Nat
  body : List UInt8
deriving DecidableEq

namespace Response

def isSuccess (r : Response) : Bool := Http.isSuccess r.status

/-- The reason phrase of the status. -/
def statusText (r : Response) : String := Http.reason r.status

/-- The body as text, whatever it holds. -/
def text (r : Response) : String := Text.Utf8.lossy r.body

/-- The body as JSON. -/
def json (r : Response) : Except QueryError Json := (Json.ofBytes r.body).mapError .json

/-- The body as JSON, if the response is a success. -/
def payload (r : Response) : Except QueryError Json :=
  if r.isSuccess then r.json
  else
    .error (.http r.status
      (match Json.ofBytes r.body with
      | .ok j => j.compact
      | .error _ => r.text))

/-- The bytes of the body, if the response is a success. -/
def content (r : Response) : Except QueryError (List UInt8) :=
  if r.isSuccess then .ok r.body else .error (.http r.status r.text)

end Response

/-! ## Forms of results -/

/-- The annotation that every form may carry. -/
structure Metadata where
  context : Option String
deriving DecidableEq

/-- Some of the results of a query. -/
structure Page (α : Type) where
  context : Option String
  /-- Where the results after these are. -/
  nextLink : Option String
  value : List α
deriving DecidableEq

/-- Some of the results of a query, with the number of all. -/
structure CountedPage (α : Type) where
  context : Option String
  nextLink : Option String
  count : Option Nat
  value : List α
deriving DecidableEq

/-- One entity. -/
structure Single (α : Type) where
  context : Option String
  entity : α
deriving DecidableEq

def contextKey : String := "@odata.context"
def nextLinkKey : String := "@odata.nextLink"
def countKey : String := "@odata.count"
def valueKey : String := "value"

open Decoder in
/-- The form that carries nothing but its annotation. -/
def Metadata.decoder : Decoder Metadata :=
  record
    { name := "ODataResponse"
      properties :=
        [property contextKey .allowed (optional text) fun v m => { m with context := v }]
      initial := ⟨none⟩ }

open Decoder in
/-- A page of elements that `d` takes. -/
def Page.decoder {α : Type} (d : Decoder α) : Decoder (Page α) :=
  record
    { name := "ODataQueryResponse"
      properties :=
        [property contextKey .allowed (optional text) fun v p => { p with context := v },
         property nextLinkKey .allowed (optional text) fun v p => { p with nextLink := v },
         property valueKey .refused (list d) fun v p => { p with value := v }]
      initial := ⟨none, none, []⟩ }

open Decoder in
/-- A counted page of elements that `d` takes. -/
def CountedPage.decoder {α : Type} (d : Decoder α) : Decoder (CountedPage α) :=
  record
    { name := "ODataQueryResponseWithCount"
      properties :=
        [property contextKey .allowed (optional text) fun v p => { p with context := v },
         property nextLinkKey .allowed (optional text) fun v p => { p with nextLink := v },
         property countKey .allowed (optional natural) fun v p => { p with count := v },
         property valueKey .refused (list d) fun v p => { p with value := v }]
      initial := ⟨none, none, none, []⟩ }

/-- One entity that `take` makes of the members beside the annotation. -/
def Single.decoder {α : Type} (take : List (String × Json) → Except JsonFault α) :
    Decoder (Single α) :=
  (Decoder.beside "ODataEntityResponse" contextKey (.optional .text) take).map
    fun (context, entity) => ⟨context.join, entity⟩

/-! ## Writing results -/

/-- An annotation as a member, if it is there. -/
def noteMember (key : String) (value : Option Json) : List (String × Json) :=
  (value.map fun v => (key, v)).toList

def Metadata.toJson (m : Metadata) : Json :=
  .ofMembers (noteMember contextKey (m.context.map .text))

def Page.toJson (p : Page Json) : Json :=
  .ofMembers (noteMember contextKey (p.context.map .text)
    ++ noteMember nextLinkKey (p.nextLink.map .text) ++ [(valueKey, .array p.value)])

def CountedPage.toJson (p : CountedPage Json) : Json :=
  .ofMembers (noteMember contextKey (p.context.map .text)
    ++ noteMember nextLinkKey (p.nextLink.map .text)
    ++ noteMember countKey (p.count.map fun n => .number (.integer n))
    ++ [(valueKey, .array p.value)])

/-- An entity with its annotation beside its properties. -/
def Single.toJson (s : Single Json) : Json :=
  match s.entity with
  | .object members => .ofMembers (noteMember contextKey (s.context.map .text) ++ members)
  | j => j

/-- The same page with every element made into another, unless one of them cannot be. -/
def Page.mapM {α β : Type} (p : Page α) (f : α → Except QueryError β) :
    Except QueryError (Page β) := do
  let value ← p.value.mapM f
  .ok ⟨p.context, p.nextLink, value⟩

@[inherit_doc Page.mapM]
def CountedPage.mapM {α β : Type} (p : CountedPage α) (f : α → Except QueryError β) :
    Except QueryError (CountedPage β) := do
  let value ← p.value.mapM f
  .ok ⟨p.context, p.nextLink, p.count, value⟩

end EntityQuery
