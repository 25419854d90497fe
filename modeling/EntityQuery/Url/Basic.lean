import EntityQuery.Text.Percent

/-!
# URLs in parts

A `Url` is an absolute URL, taken apart: scheme, authority, path, query and fragment, every part
already in the form in which it is written.  `Url.text` puts the parts together again.

Schemes fall into three kinds.  The **special** ones (`http`, `https`, `ws`, `wss`, `ftp`) always
have a host and a path, treat a backslash as a slash and know their port.  `file` has a host that is
usually empty.  All others are kept closer to what was written.

A path is a list of segments, each with a slash in front of it.  A URL such as `mailto:a@b` has no
segments but one undivided text, and no relative reference but a fragment can be resolved against
it.
-/

set_option autoImplicit false

namespace EntityQuery

/-- Why a text is no URL. -/
inductive UrlFault
  | emptyHost
  | domainName
  | port
  | ipv4Address
  | ipv6Address
  | domainCharacter
  /-- The text has no scheme, and there is nothing to resolve it against. -/
  | relativeWithoutBase
  /-- The text has no scheme, and the base has no segments. -/
  | baseWithoutSegments
deriving DecidableEq, Repr

def UrlFault.message : UrlFault → String
  | emptyHost => "empty host"
  | domainName => "invalid international domain name"
  | port => "invalid port number"
  | ipv4Address => "invalid IPv4 address"
  | ipv6Address => "invalid IPv6 address"
  | domainCharacter => "invalid domain character"
  | relativeWithoutBase => "relative URL without a base"
  | baseWithoutSegments => "relative URL with a cannot-be-a-base base"

/-- The host of a URL.  A name may be empty. -/
inductive Host
  | name (text : List Char)
  | ipv4 (number : Nat)
  | ipv6 (pieces : List Nat)
deriving DecidableEq

/-- What stands between the two slashes and the path. -/
structure Authority where
  /-- User and password with the colon between them, without the sign that ends them. -/
  userinfo : List Char
  host : Host
  /-- The port, unless it is the one the scheme implies. -/
  port : Option Nat
deriving DecidableEq

inductive UrlPath
  | segments (list : List (List Char))
  | undivided (text : List Char)
deriving DecidableEq

/-- An absolute URL in parts. -/
structure Url where
  scheme : List Char
  authority : Option Authority
  path : UrlPath
  query : Option (List Char)
  fragment : Option (List Char)
deriving DecidableEq

/-- What is taken for granted about the URLs of a scheme. -/
inductive SchemeKind
  | special
  | file
  | other
deriving DecidableEq

/-- Whether a backslash counts as a slash. -/
def SchemeKind.hasBackslash : SchemeKind → Bool
  | .other => false
  | _ => true

namespace Url

/-- The port that a scheme implies. -/
def defaultPort? (scheme : List Char) : Option Nat :=
  let s := String.ofList scheme
  if s = "http" ∨ s = "ws" then some 80
  else if s = "https" ∨ s = "wss" then some 443
  else if s = "ftp" then some 21
  else none

def schemeKind (scheme : List Char) : SchemeKind :=
  if String.ofList scheme = "file" then .file
  else if (defaultPort? scheme).isSome then .special
  else .other

/-! ## Writing a host -/

/-- The run of zeros from a position on. -/
def zeroRun (pieces : List Nat) (start : Nat) : Nat := ((pieces.drop start).takeWhile (· == 0)).length

/-- The first of the longest runs of zeros, as start and length, when it is of two or more. -/
def compressed? (pieces : List Nat) : Option (Nat × Nat) :=
  let best := (List.range pieces.length).foldl
    (fun b i => if b.2 < zeroRun pieces i then (i, zeroRun pieces i) else b) (0, 0)
  if 2 ≤ best.2 then some best else none

/-- A number in lower case hexadecimal, without zeros in front. -/
def pieceText (n : Nat) : List Char :=
  match (Text.hexDigits 4 n).dropWhile (· == '0') with
  | [] => ['0']
  | ds => ds

/-- Pieces with colons between them. -/
def piecesText (pieces : List Nat) : List Char := [':'].intercalate (pieces.map pieceText)

/-- An address of eight pieces; the longest run of zeros is left out. -/
def ipv6Text (pieces : List Nat) : List Char :=
  match compressed? pieces with
  | none => piecesText pieces
  | some (start, length) =>
    piecesText (pieces.take start) ++ ':' :: ':' :: piecesText (pieces.drop (start + length))

/-- An address of four bytes. -/
def ipv4Text (n : Nat) : List Char :=
  ['.'].intercalate ([n / 0x1000000 % 256, n / 0x10000 % 256, n / 0x100 % 256, n % 256].map
    fun b => (Nat.repr b).toList)

def hostText : Host → List Char
  | .name s => s
  | .ipv4 n => ipv4Text n
  | .ipv6 pieces => '[' :: ipv6Text pieces ++ [']']

/-! ## Writing a URL -/

def authorityText (a : Authority) : List Char :=
  (if a.userinfo.isEmpty then [] else a.userinfo ++ ['@']) ++ hostText a.host
    ++ match a.port with
      | none => []
      | some p => ':' :: (Nat.repr p).toList

def segmentsText (segments : List (List Char)) : List Char := segments.flatMap ('/' :: ·)

def pathText : UrlPath → List Char
  | .segments list => segmentsText list
  | .undivided s => s

/-- Query and fragment with the marks that introduce them. -/
def tailText (u : Url) : List Char :=
  (match u.query with
    | none => []
    | some q => '?' :: q)
  ++ match u.fragment with
    | none => []
    | some f => '#' :: f

/-- Path, query and fragment. -/
def referenceText (u : Url) : List Char := pathText u.path ++ u.tailText

/-- Scheme and authority.  Without an authority a path must not begin with two slashes, or it would
be read as one; a segment `.` keeps them apart. -/
def headText (u : Url) : List Char :=
  u.scheme ++ ':' :: match u.authority with
    | some a => '/' :: '/' :: authorityText a
    | none =>
      match pathText u.path with
      | '/' :: '/' :: _ => ['/', '.']
      | _ => []

/-- The text of a URL. -/
def text (u : Url) : String := String.ofList (u.headText ++ u.referenceText)

/-- Whether two URLs are of one scheme, host and port. -/
def sameOrigin (u v : Url) : Bool :=
  let port (w : Url) : Option Nat := (w.authority.bind (·.port)) <|> defaultPort? w.scheme
  u.scheme == v.scheme && u.authority.map (·.host) == v.authority.map (·.host) && port u == port v

/-! ## Characters that are escaped -/

/-- Controls are escaped everywhere. -/
def isControl (c : Char) : Bool := c.toNat < 0x20 || c.toNat == 0x7F

def keepsUndivided (c : Char) : Bool := !isControl c

def keepsFragment (c : Char) : Bool := !isControl c && !" \"<>\x60".toList.contains c

def keepsPath (c : Char) : Bool := keepsFragment c && !"#?\x7b\x7d".toList.contains c

def keepsUserinfo (c : Char) : Bool := keepsPath c && !"/:;=@[\\]^|".toList.contains c

/-- A quote is escaped in the query of a special URL only. -/
def keepsQuery (kind : SchemeKind) (c : Char) : Bool :=
  !isControl c && !" \"#<>".toList.contains c && (kind == .other || c != '\'')

end Url

end EntityQuery
