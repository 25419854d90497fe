import EntityQuery.Url.Basic

/-!
# Reading hosts

The host of a special URL is a domain name or an address.  A name has its escapes resolved and is
written in lower case; certain characters cannot be in it.  **A name whose last label is a number
is an address of four bytes**, or it is nothing: `1.2.3.4`, but also `0x7f.1` and `127.1`, since
every part may be octal or hexadecimal and the last one fills what is left.  Brackets hold an address
of eight pieces.

The host of any other URL is kept as written, brackets apart.

Hosts are ASCII here.  A name that holds anything else, after its escapes were resolved, is refused.
-/

set_option autoImplicit false

namespace EntityQuery.Url

/-- Cuts a list at every separator. -/
def splitOn (sep : Char) : List Char → List (List Char)
  | [] => [[]]
  | c :: r =>
    if c = sep then [] :: splitOn sep r
    else match splitOn sep r with
      | [] => [[c]]
      | s :: rest => (c :: s) :: rest

/-! ## Addresses of four bytes -/

/-- The first number that is too large for an address. -/
def addressLimit : Nat := Nat.pow 2 32

/-- The value of a digit in a base up to sixteen. -/
def digitIn? (base : Nat) (c : Char) : Option Nat :=
  (Text.hexValue? c).bind fun n => if n < base then some n else none

/-- A part of an address: decimal, octal after a zero, hexadecimal after `0x`.  The mark alone is
zero. -/
def addressPart? (cs : List Char) : Option Nat :=
  let (base, digits) := match cs with
    | '0' :: 'x' :: r => (16, r)
    | '0' :: 'X' :: r => (16, r)
    | '0' :: c :: r => (8, c :: r)
    | _ => (10, cs)
  if cs.isEmpty then none
  else digits.foldlM (fun n c => (digitIn? base c).map (n * base + ·)) 0

/-- The labels of a name, an empty one at the end left out. -/
def labels (cs : List Char) : List (List Char) :=
  let parts := splitOn '.' cs
  if parts.getLast? = some [] then parts.dropLast else parts

/-- Whether the last label of a name is a number. -/
def endsInNumber (cs : List Char) : Bool :=
  match (labels cs).getLast? with
  | none => false
  | some last => (!last.isEmpty && last.all Char.isDigit) || (addressPart? last).isSome

/-- The address that a name ending in a number stands for. -/
def ipv4? (cs : List Char) : Option Nat := do
  let parts := labels cs
  if 4 < parts.length then none
  else
    let numbers ← parts.mapM addressPart?
    let last ← numbers.getLast?
    let leading := numbers.dropLast
    if leading.all (· < 256) && last < addressLimit / Nat.pow 256 leading.length then
      some (leading.zipIdx.foldl (fun sum (n, i) => sum + n * Nat.pow 256 (3 - i)) last)
    else none

/-! ## Addresses of eight pieces -/

/-- Up to four hexadecimal digits, and how many they were. -/
def takePiece : Nat → Nat → List Char → Nat × Nat × List Char
  | 0, n, cs => (0, n, cs)
  | _ + 1, n, [] => (0, n, [])
  | width + 1, n, c :: r =>
    match Text.hexValue? c with
    | some d =>
      let (count, m, rest) := takePiece width (n * 16 + d) r
      (count + 1, m, rest)
    | none => (0, n, c :: r)

/-- A byte in decimal, without a zero in front. -/
def decimalByte? (cs : List Char) : Option Nat :=
  match cs with
  | [] => none
  | ['0'] => some 0
  | '0' :: _ => none
  | _ =>
    if cs.all Char.isDigit then
      let n := cs.foldl (fun n c => n * 10 + (c.toNat - '0'.toNat)) 0
      if n < 256 then some n else none
    else none

/-- The two pieces that four bytes at the end of an address stand for. -/
def dottedPieces? (cs : List Char) : Option (List Nat) := do
  match ← (splitOn '.' cs).mapM decimalByte? with
  | [a, b, c, d] => some [a * 256 + b, c * 256 + d]
  | _ => none

/-- Reads pieces from a place where one may begin.  `before` are the pieces in front of the double
colon once there was one, `found` those since, newest first. -/
def readPieces : Nat → Option (List Nat) → List Nat → List Char →
    Option (Option (List Nat) × List Nat)
  | 0, _, _, _ => none
  | _ + 1, before, found, [] => some (before, found)
  | fuel + 1, before, found, ':' :: r =>
    if (before.getD []).length + found.length + (if before.isSome then 1 else 0) ≥ 8 then none
    else match before with
      | some _ => none
      | none => readPieces fuel (some found) [] r
  | fuel + 1, before, found, cs =>
    let count := (before.getD []).length + found.length + (if before.isSome then 1 else 0)
    if 8 ≤ count then none
    else
      let (digits, n, rest) := takePiece 4 0 cs
      match rest with
      | [] => some (before, n :: found)
      | '.' :: _ =>
        if digits = 0 ∨ 6 < count then none
        else (dottedPieces? cs).map fun ps => (before, ps.reverse ++ found)
      | ':' :: [] => none
      | ':' :: r => readPieces fuel before (n :: found) r
      | _ => none

/-- The address between brackets. -/
def ipv6? (cs : List Char) : Option (List Nat) := do
  if cs.length < 2 then none
  else
    let (before, found) ← match cs with
      | ':' :: ':' :: r => readPieces (cs.length + 1) (some []) [] r
      | ':' :: _ => none
      | _ => readPieces (cs.length + 1) none [] cs
    match before with
    | none => if found.length = 8 then some found.reverse else none
    | some ps =>
      let known := ps.length + found.length
      if known ≤ 8 then
        some (ps.reverse ++ List.replicate (8 - known) 0 ++ found.reverse)
      else none

/-! ## Hosts -/

/-- What stands between brackets, if the text ends in one. -/
def bracketed (r : List Char) : Except UrlFault Host :=
  if r.getLast? = some ']' then
    match ipv6? r.dropLast with
    | some pieces => .ok (.ipv6 pieces)
    | none => .error .ipv6Address
  else .error .ipv6Address

/-- Characters that no domain name holds. -/
def isForbiddenInDomain (c : Char) : Bool :=
  c.toNat ≤ 0x20 || 0x7F ≤ c.toNat || "%#/:<>?@[\\]^|".toList.contains c

/-- Characters that no host holds. -/
def isForbiddenInHost (c : Char) : Bool :=
  c == '\x00' || "\t\n\r #/:<>?@[\\]^|".toList.contains c

/-- The domain name that a text with escapes stands for. -/
def domain? (cs : List Char) : Option (List Char) := do
  let name ← Text.Utf8.strict? (Text.Percent.decode cs)
  let name := name.toList.map Char.toLower
  if name.any isForbiddenInDomain then none else some name

/-- The host of a special URL. -/
def specialHost (cs : List Char) : Except UrlFault Host :=
  match cs with
  | '[' :: r => bracketed r
  | _ =>
    match domain? cs with
    | none => .error .domainName
    | some [] => .error .emptyHost
    | some name =>
      if endsInNumber name then
        match ipv4? name with
        | some n => .ok (.ipv4 n)
        | none => .error .ipv4Address
      else .ok (.name name)

/-- The host of a URL that is not special. -/
def otherHost (cs : List Char) : Except UrlFault Host :=
  match cs with
  | '[' :: r => bracketed r
  | _ =>
    if cs.any isForbiddenInHost then .error .domainCharacter
    else .ok (.name (Text.Percent.encodeChars keepsUndivided cs))

end EntityQuery.Url
