import EntityQuery.Calendar.Clock
import EntityQuery.Calendar.Date
import EntityQuery.Calendar.Reader
import EntityQuery.Chain
import EntityQuery.Condition
import EntityQuery.Error
import EntityQuery.Expression
import EntityQuery.Field
import EntityQuery.Filter.Fragment
import EntityQuery.Filter.Render
import EntityQuery.Http.Status
import EntityQuery.Http.Target
import EntityQuery.Http.Transport
import EntityQuery.Json.Cursor
import EntityQuery.Json.Decoder
import EntityQuery.Json.Fault
import EntityQuery.Json.Reader
import EntityQuery.Json.Token
import EntityQuery.Json.Value
import EntityQuery.Literal.Render
import EntityQuery.Literal.Value
import EntityQuery.Number.Binary64
import EntityQuery.Number.Decimal
import EntityQuery.Number.FloatText
import EntityQuery.Number.Shortest
import EntityQuery.Operator
import EntityQuery.Paging
import EntityQuery.Predicate
import EntityQuery.Projection
import EntityQuery.Query
import EntityQuery.Response
import EntityQuery.Segments
import EntityQuery.Service
import EntityQuery.Shape
import EntityQuery.Text.Blank
import EntityQuery.Text.Hex
import EntityQuery.Text.Percent
import EntityQuery.Text.Quoted
import EntityQuery.Text.Utf8
import EntityQuery.Text.Visible
import EntityQuery.Url.Basic
import EntityQuery.Url.Host
import EntityQuery.Url.NextLink
import EntityQuery.Url.Path
import EntityQuery.Url.Reader
import EntityQuery.Proofs.Filter.Reading
import EntityQuery.Proofs.Filter.Fragment
import EntityQuery.Proofs.Filter.Operand
import EntityQuery.Proofs.Filter.Writing
import EntityQuery.Proofs.Filter.RoundTrip
import EntityQuery.Proofs.Filter.Negation
import EntityQuery.Proofs.Chain.Slots
import EntityQuery.Proofs.Chain.Conjunction
import EntityQuery.Proofs.Request.Parameters
import EntityQuery.Proofs.Request.Key
import EntityQuery.Proofs.Condition.Variables
import EntityQuery.Proofs.Filter.Constants
import EntityQuery.Proofs.Query.Calls
import EntityQuery.Proofs.Projection.Selection
import EntityQuery.Proofs.Paging.Polls
import EntityQuery.Proofs.Paging.Protocol
import EntityQuery.Proofs.Paging.Course
import EntityQuery.Proofs.Paging.Flattening
import EntityQuery.Proofs.Paging.Requests
import EntityQuery.Proofs.Filter.WellFormed
import EntityQuery.Proofs.Condition.Naming
import EntityQuery.Proofs.Paging.Results
import EntityQuery.Proofs.Query.Selection
import EntityQuery.Proofs.Filter.Closed
import EntityQuery.Proofs.Filter.Chunk
import EntityQuery.Proofs.Filter.Innermost
import EntityQuery.Proofs.Filter.Uniqueness
import EntityQuery.Proofs.Filter.Ambiguity
import EntityQuery.Proofs.Filter.Nesting
import EntityQuery.Proofs.Filter.Bracketing
import EntityQuery.Proofs.Query.Validation
import EntityQuery.Proofs.Condition.Capture
import EntityQuery.Proofs.Condition.Renaming
import EntityQuery.Proofs.Filter.Template
import EntityQuery.Proofs.Chain.Renaming
import EntityQuery.Proofs.Query.Interleaving
import EntityQuery.Proofs.Request.Target
import EntityQuery.Proofs.Calendar.Text
import EntityQuery.Proofs.Calendar.Days
import EntityQuery.Proofs.Calendar.Reading
import EntityQuery.Proofs.Calendar.RoundTrip
import EntityQuery.Proofs.Url.Path
import EntityQuery.Proofs.Url.Location
import EntityQuery.Proofs.Url.Reading
import EntityQuery.Proofs.Url.NextLink
import EntityQuery.Proofs.Url.Rebasing
import EntityQuery.Proofs.Text.Literals
import EntityQuery.Proofs.Filter.Quoting
import EntityQuery.Proofs.Json.Members
import EntityQuery.Proofs.Json.Record
import EntityQuery.Proofs.Json.Page
import EntityQuery.Proofs.Paging.Opening
import EntityQuery.Proofs.Query.Execution
