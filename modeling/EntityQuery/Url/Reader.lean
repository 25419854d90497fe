import EntityQuery.Url.Path

/-!
# Reading URLs and resolving references

`Url.read` reads a text, alone or against a base.  A text that begins with a scheme is absolute.
Any other is a reference: it takes from the base whatever it does not name itself, starting from the
left.  Two slashes begin a new authority, one slash a new path, a question mark a new query, a hash a
new fragment, and anything else replaces the last segment of the base's path.

White space and controls around a text, and tabs and line breaks anywhere in it, are not part of it.
-/

set_option autoImplicit false

namespace EntityQuery.Url

/-- The characters of a text that count. -/
def cleaned (s : String) : List Char :=
  let outer (c : Char) : Bool := c.toNat ≤ 0x20
  let trimmed := ((s.toList.dropWhile outer).reverse.dropWhile outer).reverse
  trimmed.filter fun c => !(c == '\t' || c == '\n' || c == '\r')

/-- The scheme that a text begins with, in lower case, and what follows its colon. -/
def readScheme? (cs : List Char) : Option (List Char × List Char) :=
  let isSchemeChar (c : Char) : Bool := c.isAlphanum || c == '+' || c == '-' || c == '.'
  match cs with
  | c :: _ =>
    if c.isAlpha then
      match cs.dropWhile isSchemeChar with
      | ':' :: r => some ((cs.takeWhile isSchemeChar).map Char.toLower, r)
      | _ => none
    else none
  | [] => none

def isSlash (c : Char) : Bool := c == '/' || c == '\\'

/-! ## Authorities -/

/-- Whether a character ends an authority. -/
def endsAuthority (kind : SchemeKind) (c : Char) : Bool :=
  c == '/' || c == '?' || c == '#' || (c == '\\' && kind.hasBackslash)

/-- User and password as they are written: escaped, the first colon between them, and no colon
without a password. -/
def userinfoText (cs : List Char) : List Char :=
  let encode := Text.Percent.encodeChars keepsUserinfo
  match cs.dropWhile (· ≠ ':') with
  | _ :: password =>
    encode (cs.takeWhile (· ≠ ':')) ++ if password.isEmpty then [] else ':' :: encode password
  | [] => encode cs

/-- Splits a text at its last `@`. -/
def splitAtSign (cs : List Char) : Option (List Char × List Char) :=
  match cs.reverse.dropWhile (· ≠ '@') with
  | _ :: before => some (before.reverse, (cs.reverse.takeWhile (· ≠ '@')).reverse)
  | [] => none

/-- Splits off the host: it ends at a colon outside brackets. -/
def splitHost : Bool → List Char → List Char × List Char
  | _, [] => ([], [])
  | inside, c :: r =>
    if c = ':' ∧ inside = false then ([], c :: r)
    else
      let (host, rest) := splitHost (if c = '[' then true else if c = ']' then false else inside) r
      (c :: host, rest)

/-- A port: digits up to the end of the authority, or none at all. -/
def readPort : Nat → List Char → Except UrlFault Nat
  | n, [] => .ok n
  | n, c :: r =>
    if c.isDigit then
      let m := n * 10 + (c.toNat - '0'.toNat)
      if 65535 < m then .error .port else readPort m r
    else .error .port

/-- Reads an authority: what stands before the path. -/
def readAuthority (scheme : List Char) (cs : List Char) :
    Except UrlFault (Authority × List Char) := do
  let kind := schemeKind scheme
  let text := cs.takeWhile fun c => !endsAuthority kind c
  let rest := cs.dropWhile fun c => !endsAuthority kind c
  let (user, hostPort) := match splitAtSign text with
    | some (before, after) => (before, after)
    | none => ([], text)
  if (splitAtSign text).isSome ∧ user.isEmpty ∧ hostPort.isEmpty ∧ !rest.isEmpty then
    .error .emptyHost
  else
    let userinfo := userinfoText user
    let (hostText, portText) := splitHost false hostPort
    -- A backslash that ends no authority ends a port all the same.
    let rest := (portText.dropWhile (· ≠ '\\')) ++ rest
    let portText := portText.takeWhile (· ≠ '\\')
    if kind = .special ∧ hostText.isEmpty then .error .emptyHost
    else
      let host ← if kind = .special then specialHost hostText else otherHost hostText
      if host = .name [] ∧ !portText.isEmpty then .error .emptyHost
      else
        let digits := portText.drop 1
        let port ← readPort 0 digits
        if host = .name [] ∧ !userinfo.isEmpty then .error .emptyHost
        else
          let port := if digits.isEmpty ∨ defaultPort? scheme = some port then none else some port
          .ok (⟨userinfo, host, port⟩, rest)

/-- Reads the path behind an authority.  A special URL always has one. -/
def readPathStart (kind : SchemeKind) (cs : List Char) : List (List Char) × List Char :=
  match cs with
  | [] => if kind = .other then ([], []) else ([[]], [])
  | c :: r =>
    if kind = .other ∧ (c = '?' ∨ c = '#') then ([], cs)
    else if endsSegment kind c then readPath kind [] r
    else readPath kind [] cs

/-- A URL whose authority and path are known, with the query and fragment that follow. -/
def withTail (scheme : List Char) (authority : Option Authority)
    (path : List (List Char) × List Char) : Url :=
  let kind := schemeKind scheme
  let (query, fragment) := readTail kind path.2
  let segments := if kind = .file then trimLeading path.1 else path.1
  ⟨scheme, authority, .segments segments, query, fragment⟩

/-- Reads what follows the two slashes of an authority. -/
def readAfterSlashes (scheme : List Char) (cs : List Char) : Except UrlFault Url := do
  let (authority, rest) ← readAuthority scheme cs
  .ok (withTail scheme (some authority) (readPathStart (schemeKind scheme) rest))

/-! ## Files -/

def fileScheme : List Char := "file".toList

/-- The authority of a file on a host. -/
def fileAuthority (host : Host) : Option Authority := some ⟨[], host, none⟩

/-- Whether a text begins with a drive and ends there or goes on with a new part. -/
def startsWithDrive : List Char → Bool
  | a :: b :: r =>
    isDrive [a, b] && match r with
      | [] => true
      | c :: _ => isSlash c || c == '?' || c == '#'
  | _ => false

/-- Reads what follows the two slashes of a `file` URL. -/
def readFileHost (cs : List Char) : Except UrlFault Url := do
  let endsHost (c : Char) : Bool := isSlash c || c == '?' || c == '#'
  let text := cs.takeWhile fun c => !endsHost c
  let rest := cs.dropWhile fun c => !endsHost c
  if isDrive text then
    .ok (withTail fileScheme (fileAuthority (.name [])) (readPath .file [] cs))
  else
    let host ← if text.isEmpty then .ok (.name []) else specialHost text
    if host = .name [] ∨ host = .name "localhost".toList then
      .ok (withTail fileScheme (fileAuthority (.name [])) (readPath .file [] rest))
    else
      let path := readPathStart .file rest
      let host := if path.1.head?.any isWrittenDrive then .name [] else host
      .ok (withTail fileScheme (fileAuthority host) path)

/-- The segments of a path, of which an undivided one has none. -/
def segmentsOf : UrlPath → List (List Char)
  | .segments list => list
  | .undivided _ => []

/-- The host that a URL names. -/
def hostOf (u : Url) : Host := (u.authority.map (·.host)).getD (.name [])

/-- Reads a `file` URL behind its scheme, against a base that is one too. -/
def readFile (base : Option Url) (cs : List Char) : Except UrlFault Url :=
  let onNone := .ok (withTail fileScheme (fileAuthority (.name [])) (readPath .file [] cs))
  match cs with
  | c :: d :: r =>
    if isSlash c ∧ isSlash d then readFileHost r
    else if isSlash c then oneSlash (d :: r)
    else relative onNone
  | [c] => if isSlash c then oneSlash [] else relative onNone
  | [] => relative onNone
where
  /-- One slash keeps the drive of the base, or else its host. -/
  oneSlash (r : List Char) : Except UrlFault Url :=
    let drive := if startsWithDrive r then none
      else base.bind fun b => (segmentsOf b.path).head?.filter isWrittenDrive
    let host := if startsWithDrive r ∨ drive.isSome then .name []
      else (base.map hostOf).getD (.name [])
    .ok (withTail fileScheme (fileAuthority host) (readPath .file drive.toList r))
  /-- Anything else is relative to the base, unless it begins with a drive. -/
  relative (onNone : Except UrlFault Url) : Except UrlFault Url :=
    match base with
    | none => onNone
    | some b =>
      match cs with
      | [] => .ok { b with fragment := none }
      | c :: _ =>
        if c = '?' then
          let (query, fragment) := readTail .file cs
          .ok { b with query := query, fragment := fragment }
        else if c = '#' then .ok { b with fragment := (readTail .file cs).2 }
        else if startsWithDrive cs then onNone
        else
          .ok (withTail fileScheme b.authority
            (readRelativePath .file (segmentsOf b.path) cs))

/-! ## References -/

/-- Resolves a reference against a base that is no file. -/
def resolveRelative (base : Url) (cs : List Char) : Except UrlFault Url :=
  let kind := schemeKind base.scheme
  match cs with
  | [] => .ok { base with fragment := none }
  | c :: r =>
    if c = '?' then
      let (query, fragment) := readTail kind cs
      .ok { base with query := query, fragment := fragment }
    else if c = '#' then .ok { base with fragment := (readTail kind cs).2 }
    else if isSlash c then
      match cs with
      | '/' :: '/' :: after => readAfterSlashes base.scheme after
      | _ =>
        if r.head?.any isSlash then readAfterSlashes base.scheme (cs.dropWhile isSlash)
        else .ok (withTail base.scheme base.authority (readPath kind [] r))
    else
      .ok (withTail base.scheme base.authority
        (readRelativePath kind (segmentsOf base.path) cs))

/-- Reads a URL behind its scheme. -/
def readWithScheme (base : Option Url) (scheme cs : List Char) : Except UrlFault Url :=
  match schemeKind scheme with
  | .file => readFile (base.filter (·.scheme == fileScheme)) cs
  | .special =>
    let after := cs.dropWhile isSlash
    match base with
    | some b =>
      if b.scheme = scheme ∧ cs.length < after.length + 2 then resolveRelative b cs
      else readAfterSlashes scheme after
    | none => readAfterSlashes scheme after
  | .other =>
    match cs with
    | '/' :: '/' :: r => readAfterSlashes scheme r
    | '/' :: r => .ok (withTail scheme none (readPath .other [] r))
    | _ =>
      let endsPath (c : Char) : Bool := c == '?' || c == '#'
      let path := cs.takeWhile fun c => !endsPath c
      let (query, fragment) := readTail .other (cs.dropWhile fun c => !endsPath c)
      .ok ⟨scheme, none, .undivided (Text.Percent.encodeChars keepsUndivided path), query, fragment⟩

/-- Reads a text, against a base if there is one. -/
def read (base : Option Url) (s : String) : Except UrlFault Url :=
  let cs := cleaned s
  match readScheme? cs with
  | some (scheme, r) => readWithScheme base scheme r
  | none =>
    match base with
    | none => .error .relativeWithoutBase
    | some b =>
      match cs with
      | '#' :: _ => .ok { b with fragment := (readTail (schemeKind b.scheme) cs).2 }
      | _ =>
        match b.path with
        | .undivided _ => .error .baseWithoutSegments
        | .segments _ =>
          if schemeKind b.scheme = .file then readFile (some b) cs else resolveRelative b cs

/-- Reads an absolute URL. -/
def ofText (s : String) : Except UrlFault Url := read none s

/-- Resolves a reference against a base. -/
def join (base : Url) (s : String) : Except UrlFault Url := read (some base) s

end EntityQuery.Url
