import EntityQuery.Text.Utf8

/-!
# Request targets

Before a connection is made the URL of a request is taken apart once more, this time by the rules for
request targets, which are stricter about characters and laxer about structure.  A `Target` has a
scheme and an authority if it is absolute; one that begins with a slash is a path, and one that has
no scheme at all can only be an authority.

The rules are about bytes.  Any byte from 128 on may be part of a path or a query.
-/

set_option autoImplicit false

namespace EntityQuery.Http

/-- Why a text is no target. -/
inductive TargetFault
  | empty
  | tooLong
  | schemeTooLong
  | character
  | authority
  | format
deriving DecidableEq, Repr

def TargetFault.message : TargetFault → String
  | empty => "empty string"
  | tooLong => "uri too long"
  | schemeTooLong => "scheme too long"
  | character => "invalid uri character"
  | authority => "invalid authority"
  | format => "invalid format"

/-- What is known of a target that was taken apart: its scheme, in lower case if it is a standard
one, and whether it names an authority. -/
structure Target where
  scheme : Option (List UInt8)
  hasAuthority : Bool
deriving DecidableEq

namespace Target

def maxLength : Nat := 65534

def maxSchemeLength : Nat := 64

/-- Colons that an authority may hold: seven in an address and one before a port. -/
def maxColons : Nat := 8

def byte (c : Char) : UInt8 := c.toNat.toUInt8

def bytes (s : String) : List UInt8 := s.toList.map byte

def isAlphanumeric (b : UInt8) : Bool :=
  (0x30 ≤ b && b ≤ 0x39) || (0x41 ≤ b && b ≤ 0x5A) || (0x61 ≤ b && b ≤ 0x7A)

def isSchemeByte (b : UInt8) : Bool := isAlphanumeric b || (bytes "+-.~").contains b

/-- Bytes of an authority, the percent sign apart. -/
def isAuthorityByte (b : UInt8) : Bool :=
  isAlphanumeric b || (bytes "!#$&'()*+,-./:;=?@[]_~").contains b

def endsAuthority (b : UInt8) : Bool := (bytes "/?#").contains b

/-- Bytes of a path. -/
def isPathByte (b : UInt8) : Bool :=
  b == 0x21 || b == 0x22 || (0x24 ≤ b && b ≤ 0x3B) || b == 0x3D || (0x40 ≤ b && b ≤ 0x5F)
    || (0x61 ≤ b && b ≤ 0x7E) || 0x80 ≤ b

/-- Bytes of a query. -/
def isQueryByte (b : UInt8) : Bool :=
  b == 0x21 || (0x24 ≤ b && b ≤ 0x3B) || b == 0x3D || (0x3F ≤ b && b ≤ 0x7E) || 0x80 ≤ b

/-! ## Authorities -/

/-- What was seen of an authority so far. -/
structure AuthorityScan where
  colons : Nat
  opened : Bool
  closed : Bool
  percent : Bool
  /-- Whether the last byte was an `@`. -/
  endsInAt : Bool

/-- Takes one byte of an authority.  What is counted of a user, or of an address between brackets,
is forgotten at its end. -/
def AuthorityScan.step (s : AuthorityScan) (b : UInt8) : Except TargetFault AuthorityScan :=
  let s := { s with endsInAt := b == byte '@' }
  if b = byte ':' then
    if maxColons ≤ s.colons then .error .authority else .ok { s with colons := s.colons + 1 }
  else if b = byte '[' then
    if s.percent ∨ s.opened then .error .authority else .ok { s with opened := true }
  else if b = byte ']' then
    if s.opened = false ∨ s.closed then .error .authority
    else .ok { s with closed := true, colons := 0, percent := false }
  else if b = byte '@' then .ok { s with colons := 0, percent := false }
  else if b = byte '%' then .ok { s with percent := true }
  else if isAuthorityByte b then .ok s
  else .error .character

/-- The authority that a text begins with, and what follows it.  There has to be some text. -/
def splitAuthority (bs : List UInt8) : Except TargetFault (List UInt8 × List UInt8) := do
  if bs.isEmpty then throw .empty
  let authority := bs.takeWhile fun b => !endsAuthority b
  let s ← authority.foldlM AuthorityScan.step ⟨0, false, false, false, false⟩
  if (s.opened != s.closed) || 1 < s.colons || s.endsInAt || s.percent then .error .authority
  else .ok (authority, bs.dropWhile fun b => !endsAuthority b)

/-! ## Paths and queries -/

/-- Checks a query up to a fragment, which is not looked at. -/
def checkQuery : List UInt8 → Except TargetFault Unit
  | [] => .ok ()
  | b :: r =>
    if b = byte '#' then .ok ()
    else if isQueryByte b then checkQuery r
    else .error .character

/-- Checks a path and the query behind it. -/
def checkPath : List UInt8 → Except TargetFault Unit
  | [] => .ok ()
  | b :: r =>
    if b = byte '?' then checkQuery r
    else if b = byte '#' then .ok ()
    else if isPathByte b then checkPath r
    else .error .character

/-! ## Targets -/

/-- A byte in lower case. -/
def lower (b : UInt8) : UInt8 := if 0x41 ≤ b && b ≤ 0x5A then b + 0x20 else b

/-- The scheme that a text begins with, and what follows `://`.  A standard scheme is known in any
case; of others the case is kept. -/
def splitScheme (bs : List UInt8) : Except TargetFault (Option (List UInt8) × List UInt8) :=
  let http := bytes "http://"
  let https := bytes "https://"
  if (bs.take 7).map lower = http then .ok (some (bytes "http"), bs.drop 7)
  else if (bs.take 8).map lower = https then .ok (some (bytes "https"), bs.drop 8)
  else if bs.length ≤ 3 then .ok (none, bs)
  else
    let scheme := bs.takeWhile isSchemeByte
    let rest := bs.dropWhile isSchemeByte
    if rest.take 3 = bytes "://" then
      if maxSchemeLength < scheme.length then .error .schemeTooLong
      else .ok (some scheme, rest.drop 3)
    else .ok (none, bs)

/-- Takes a text apart that is more than one byte and does not begin with a slash. -/
def ofFull (bs : List UInt8) : Except TargetFault Target := do
  let (scheme, rest) ← splitScheme bs
  let (authority, path) ← splitAuthority rest
  match scheme with
  | none => if path.isEmpty then .ok ⟨none, !authority.isEmpty⟩ else .error .format
  | some s =>
    if authority.isEmpty then .error .format
    else do
      checkPath path
      .ok ⟨some s, true⟩

/-- Takes a text apart. -/
def ofText (s : String) : Except TargetFault Target :=
  let bs := Text.Utf8.encode s
  if maxLength < bs.length then .error .tooLong
  else match bs with
    | [] => .error .empty
    | [b] =>
      if b = byte '/' ∨ b = byte '*' then .ok ⟨none, false⟩
      else do
        let (_, rest) ← splitAuthority bs
        if rest.isEmpty then .ok ⟨none, true⟩ else .error .character
    | b :: _ =>
      if b = byte '/' then do
        checkPath bs
        .ok ⟨none, false⟩
      else ofFull bs

end Target

end EntityQuery.Http
