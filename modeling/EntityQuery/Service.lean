import EntityQuery.Response
import EntityQuery.Chain

/-!
# Services and the wire

A `Service` is where the requests of a query go: an endpoint, whether there is a transport at all, and
what makes the options of a request.  Options are made anew for every request, as a token may have to
be, and they are made only when the request is going to be sent.

The `Wire` is the transport as seen from here: the replies still to come, and the requests that were
sent, in order.  A reply may let itself be waited for, and it may be that the transport failed.
-/

set_option autoImplicit false

namespace EntityQuery

/-- Options of one request. -/
structure RequestOptions where
  method : String
  headers : List (String × String)
deriving DecidableEq

namespace RequestOptions

def standard : RequestOptions := ⟨"GET", []⟩

/-- Sets a header.  Names do not distinguish case, and a later value replaces an earlier one. -/
def withHeader (o : RequestOptions) (name value : String) : RequestOptions :=
  { o with headers := Json.insertMember (String.ofList (name.toList.map Char.toLower)) value o.headers }

end RequestOptions

/-- A request that was sent. -/
structure Request where
  url : String
  options : RequestOptions
deriving DecidableEq

/-- What a transport answers, after having been waited for so many times. -/
structure Reply where
  delay : Nat
  outcome : Except String Response

/-- A transport as seen from here. -/
structure Wire where
  replies : List Reply
  /-- Why a request fails for which there is no reply. -/
  silence : String
  sent : List Request
  /-- How many times options were made. -/
  optionsMade : Nat

namespace Wire

/-- Sends a request. -/
def send (w : Wire) (r : Request) : Reply × Wire :=
  let sent := w.sent ++ [r]
  match w.replies with
  | [] => (⟨0, .error w.silence⟩, { w with sent := sent })
  | reply :: rest => (reply, { w with sent := sent, replies := rest })

end Wire

/-- Where requests go. -/
structure Service where
  endpoint : String
  /-- Whether there is a transport. -/
  connected : Bool
  /-- Makes the options of a request from how many times it did so before. -/
  options : Option (Nat → RequestOptions)

namespace Service

/-- The options of the next request. -/
def nextOptions (s : Service) (w : Wire) : RequestOptions × Wire :=
  match s.options with
  | none => (.standard, w)
  | some make => (make w.optionsMade, { w with optionsMade := w.optionsMade + 1 })

/-- Requests a URL: how long the response is waited for, and the response. -/
def request (s : Service) (url : String) (w : Wire) :
    (Nat × Except QueryError Response) × Wire :=
  if s.connected then
    let (options, w) := s.nextOptions w
    let (reply, w) := w.send ⟨url, options⟩
    ((reply.delay, reply.outcome.mapError .connection), w)
  else ((0, .error .transportUnavailable), w)

/-- The URL of a chain. -/
def url (s : Service) (head : Option Expression) : Except QueryError String :=
  (Segments.ofChain head).map fun segments => segments.url s.endpoint

end Service

/-- Work on the wire, which keeps what was sent when it fails. -/
abbrev Exchange := ExceptT QueryError (StateM Wire)

namespace Service

/-- Requests a URL and waits for the response. -/
def response (s : Service) (url : String) : Exchange Response := fun w =>
  let ((_, outcome), w) := s.request url w
  (outcome, w)

/-- Requests the URL of a chain and takes the JSON of the response. -/
def payload (s : Service) (head : Option Expression) : Exchange Json := do
  let url ← s.url head
  let r ← s.response url
  r.payload

end Service

end EntityQuery
