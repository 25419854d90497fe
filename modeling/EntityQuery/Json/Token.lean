import EntityQuery.Json.Cursor
import EntityQuery.Text.Utf8

/-!
# Words, numbers and strings of JSON

The parts of a JSON text that hold no others.

**Numbers.**  Digits are gathered into an integer of sixty-four bits.  A number without point and
exponent that fits is that integer; zero with a minus sign is not, and becomes a double.  Any other
number becomes `m · 10^e` with as many leading digits in `m` as fit, and is computed as the double of
`m` multiplied or divided once by the double of `10^e`.  Powers past `10^308` are taken off in steps.
A result too large for a double is a fault; one too small is zero.

**Strings.**  Text between quotes is read as bytes, so that faults inside come in the order of the
text, and only then as UTF-8.  Surrogates have to come in pairs.

The readers named `pass…` go over a part that nobody asked for.  They check less: a number has no
range and a string no encoding.
-/

set_option autoImplicit false

namespace EntityQuery.Token

/-- The rest of a word, after its first letter was seen. -/
def word : List UInt8 → Reading Unit
  | [], c => .ok ((), c)
  | b :: r, c =>
    match c.peek with
    | none => .error (c.fault .endInValue)
    | some d => if d = b then word r c.advance else .error (c.advance.fault .expectedIdentifier)

def isDigit (b : UInt8) : Bool := 0x30 ≤ b && b ≤ 0x39

def digitValue (b : UInt8) : Nat := b.toNat - 0x30

/-! ## Numbers -/

/-- The first number too large for sixty-four bits. -/
def limit : Nat := Nat.pow 2 64

/-- The largest power of ten that is a double. -/
def maxPower : Nat := 308

/-- Divides by `10^308` as often as the exponent is below `-308`, and then by what is left. -/
def scaleDown : Nat → Binary64 → Nat → Binary64
  | 0, x, _ => x
  | steps + 1, x, e =>
    if e ≤ maxPower then x.div (Binary64.ofNat (Nat.pow 10 e))
    else if x.isZero then x
    else scaleDown steps (x.div (Binary64.ofNat (Nat.pow 10 maxPower))) (e - maxPower)

/-- The double of `m · 10^e`; `none` when it is too large. -/
def scaled? (m : Nat) (e : Int) : Option Binary64 :=
  let x := Binary64.ofNat m
  if e < 0 then some (scaleDown 8 x e.natAbs)
  else if e.toNat ≤ maxPower then
    let y := x.mul (Binary64.ofNat (Nat.pow 10 e.toNat))
    if y.isFinite then some y else none
  else if m = 0 then some x else none

/-- The number `±m · 10^e`, read up to the cursor. -/
def float (positive : Bool) (m : Nat) (e : Int) : Reading JsonNumber := fun c =>
  match scaled? m e with
  | some x => .ok (.float (if positive then x else x.neg), c)
  | none => .error (c.fault .numberOutOfRange)

/-- Skips digits. -/
def skipDigits (c : Cursor) : Nat → Cursor
  | 0 => c
  | n + 1 =>
    match c.peek with
    | some b => if isDigit b then skipDigits c.advance n else c
    | none => c

/-- The largest exponent that is still counted. -/
def maxExponent : Nat := Nat.pow 2 31 - 1

/-- The digits of an exponent after the first. -/
def exponentDigits (positive up : Bool) (m : Nat) (e : Int) :
    Nat → Nat → Reading JsonNumber
  | 0, _, c => .error (c.fault .invalidNumber)
  | fuel + 1, x, c =>
    match c.peek with
    | some b =>
      if isDigit b then
        let next := x * 10 + digitValue b
        if maxExponent < next then
          if m ≠ 0 && up then .error (c.advance.fault .numberOutOfRange)
          else
            let zero : Binary64 := ⟨0⟩
            .ok (.float (if positive then zero else zero.neg),
              skipDigits c.advance c.rest.length)
        else exponentDigits positive up m e fuel next c.advance
      else float positive m (if up then e + x else e - x) c
    | none => float positive m (if up then e + x else e - x) c

/-- An exponent, from its mark on. -/
def exponent (positive : Bool) (m : Nat) (e : Int) : Reading JsonNumber := fun c =>
  let c := c.advance
  let (up, c) := match c.peek with
    | some 0x2B => (true, c.advance)
    | some 0x2D => (false, c.advance)
    | _ => (true, c)
  match c.peek with
  | none => .error (c.fault .endInValue)
  | some b =>
    if isDigit b then
      exponentDigits positive up m e (c.rest.length + 1) (digitValue b) c.advance
    else .error (c.advance.fault .invalidNumber)

def isExponentMark (b : Option UInt8) : Bool := b == some 0x65 || b == some 0x45

/-- What follows the digits of a fraction. -/
def afterDigits (positive : Bool) (m : Nat) (e : Int) : Reading JsonNumber := fun c =>
  if isExponentMark c.peek then exponent positive m e c else float positive m e c

/-- The digits behind a point; once one does not fit any more the rest are left out. -/
def fractionDigits (positive : Bool) (before : Int) :
    Nat → Nat → Nat → Reading JsonNumber
  | 0, _, _, c => .error (c.fault .invalidNumber)
  | fuel + 1, m, count, c =>
    match c.peek with
    | some b =>
      if isDigit b then
        let next := m * 10 + digitValue b
        if next < limit then fractionDigits positive before fuel next (count + 1) c.advance
        else afterDigits positive m (before - count) (skipDigits c c.rest.length)
      else if count = 0 then .error (c.peekFault .invalidNumber)
      else afterDigits positive m (before - count) c
    | none =>
      if count = 0 then .error (c.fault .endInValue) else afterDigits positive m (before - count) c

/-- A fraction, from its point on. -/
def fraction (positive : Bool) (m : Nat) (before : Int) : Reading JsonNumber := fun c =>
  fractionDigits positive before (c.rest.length + 1) m 0 c.advance

/-- The digits of an integer that does not fit. -/
def longInteger (positive : Bool) (m : Nat) : Nat → Int → Reading JsonNumber
  | 0, _, c => .error (c.fault .invalidNumber)
  | fuel + 1, e, c =>
    match c.peek with
    | some b =>
      if isDigit b then longInteger positive m fuel (e + 1) c.advance
      else if b = 0x2E then fraction positive m e c
      else afterDigits positive m e c
    | none => float positive m e c

/-- An integer whose digits have ended, or what follows them. -/
def afterInteger (positive : Bool) (m : Nat) : Reading JsonNumber := fun c =>
  if c.peek = some 0x2E then fraction positive m 0 c
  else if isExponentMark c.peek then exponent positive m 0 c
  else if positive then .ok (.integer m, c)
  else if m = 0 ∨ Nat.pow 2 63 < m then .ok (.float (Binary64.ofNat m).neg, c)
  else .ok (.integer (-(m : Int)), c)

/-- The digits of an integer after the first. -/
def integerDigits (positive : Bool) : Nat → Nat → Reading JsonNumber
  | 0, _, c => .error (c.fault .invalidNumber)
  | fuel + 1, m, c =>
    match c.peek with
    | some b =>
      if isDigit b then
        let next := m * 10 + digitValue b
        if next < limit then integerDigits positive fuel next c.advance
        else longInteger positive m (c.rest.length + 1) 0 c
      else afterInteger positive m c
    | none => afterInteger positive m c

/-- A number without its sign. -/
def unsigned (positive : Bool) : Reading JsonNumber := fun c =>
  match c.peek with
  | none => .error (c.fault .endInValue)
  | some b =>
    if b = 0x30 then
      let c := c.advance
      match c.peek with
      | some d =>
        if isDigit d then .error (c.peekFault .invalidNumber) else afterInteger positive 0 c
      | none => afterInteger positive 0 c
    else if isDigit b then
      integerDigits positive (c.rest.length + 1) (digitValue b) c.advance
    else .error (c.advance.fault .invalidNumber)

/-- A number, its sign included. -/
def number : Reading JsonNumber := fun c =>
  if c.peek = some 0x2D then unsigned false c.advance else unsigned true c

/-! ## Strings -/

/-- Four hexadecimal digits. -/
def hexEscape : Reading Nat := fun c =>
  match c.rest with
  | a :: b :: d :: e :: _ =>
    let c := c.advance.advance.advance.advance
    match Text.hexNumber? ([a, b, d, e].map fun x => Char.ofNat x.toNat) with
    | some n => .ok (n, c)
    | none => .error (c.fault .invalidEscape)
  | _ => .error ((skipAll c c.rest.length).fault .endInString)
where
  /-- The cursor at the end of the text. -/
  skipAll (c : Cursor) : Nat → Cursor
    | 0 => c
    | n + 1 => skipAll c.advance n

def isTrailSurrogate (n : Nat) : Bool := 0xDC00 ≤ n && n ≤ 0xDFFF

def isLeadSurrogate (n : Nat) : Bool := 0xD800 ≤ n && n ≤ 0xDBFF

/-- The byte that has to come next inside a surrogate pair. -/
def pairByte (b : UInt8) : Reading Unit := fun c =>
  match c.peek with
  | none => .error (c.fault .endInString)
  | some d => if d = b then .ok ((), c.advance) else .error (c.advance.fault .endOfHexEscape)

/-- The character of an escape by number, after its `u`. -/
def unicodeEscape : Reading Char := fun c => do
  let (n, c) ← hexEscape c
  if isTrailSurrogate n then .error (c.fault .loneSurrogate)
  else if isLeadSurrogate n then
    let ((), c) ← pairByte 0x5C c
    let ((), c) ← pairByte 0x75 c
    let (m, c) ← hexEscape c
    if isTrailSurrogate m then
      .ok (Char.ofNat (0x10000 + (n - 0xD800) * 0x400 + (m - 0xDC00)), c)
    else .error (c.fault .loneSurrogate)
  else .ok (Char.ofNat n, c)

/-- The character that one letter after a backslash stands for. -/
def simpleEscape? (b : UInt8) : Option Char :=
  if b = 0x22 then some '"'
  else if b = 0x5C then some '\\'
  else if b = 0x2F then some '/'
  else if b = 0x62 then some '\x08'
  else if b = 0x66 then some '\x0c'
  else if b = 0x6E then some '\n'
  else if b = 0x72 then some '\r'
  else if b = 0x74 then some '\t'
  else none

/-- The character of an escape, after its backslash. -/
def escape : Reading Char := fun c =>
  match c.peek with
  | none => .error (c.fault .endInString)
  | some b =>
    if b = 0x75 then unicodeEscape c.advance
    else match simpleEscape? b with
      | some x => .ok (x, c.advance)
      | none => .error (c.advance.fault .invalidEscape)

/-- The bytes of a string up to its closing quote, `done` being those before, newest first. -/
def stringBytes : Nat → List UInt8 → Reading (List UInt8)
  | 0, _, c => .error (c.fault .endInString)
  | fuel + 1, done, c =>
    match c.peek with
    | none => .error (c.fault .endInString)
    | some b =>
      if b = 0x22 then .ok (done.reverse, c)
      else if b = 0x5C then do
        let (x, c) ← escape c.advance
        stringBytes fuel ((String.utf8EncodeChar x).reverse ++ done) c
      else if b < 0x20 then .error (c.advance.fault .controlCharacter)
      else stringBytes fuel (b :: done) c.advance

/-- A string, after its opening quote.  Its bytes have to be well-formed.  When they are not, the
place of the fault is counted back from the closing quote by the bytes from the first ill-formed one
on, escapes before it or behind it being resolved already. -/
def string : Reading String := fun c => do
  let (bytes, c) ← stringBytes (c.rest.length + 1) [] c
  match Text.Utf8.strict? bytes with
  | some s => .ok (s, c.advance)
  | none =>
    let behind := bytes.length - Text.Utf8.validLength bytes
    .error ((c.advance.back behind).fault .invalidCodePoint)

/-! ## Parts nobody asked for -/

/-- Goes over an escape, after its backslash. -/
def passEscape : Reading Unit := fun c =>
  match c.peek with
  | none => .error (c.fault .endInString)
  | some b =>
    if b = 0x75 then (hexEscape c.advance).map fun (_, c) => ((), c)
    else if (simpleEscape? b).isSome then .ok ((), c.advance)
    else .error (c.advance.fault .invalidEscape)

/-- Goes over a string, after its opening quote. -/
def passStringFrom : Nat → Reading Unit
  | 0, c => .error (c.fault .endInString)
  | fuel + 1, c =>
    match c.peek with
    | none => .error (c.fault .endInString)
    | some b =>
      if b = 0x22 then .ok ((), c.advance)
      else if b = 0x5C then do
        let ((), c) ← passEscape c.advance
        passStringFrom fuel c
      else if b < 0x20 then .error (c.fault .controlCharacter)
      else passStringFrom fuel c.advance

@[inherit_doc passStringFrom]
def passString : Reading Unit := fun c => passStringFrom (c.rest.length + 1) c

/-- Goes over an exponent, if there is one. -/
def passExponent : Reading Unit := fun c =>
  if isExponentMark c.peek then
    let c := c.advance
    let c := if c.peek = some 0x2B ∨ c.peek = some 0x2D then c.advance else c
    match c.peek with
    | some b =>
      if isDigit b then .ok ((), skipDigits c c.rest.length)
      else .error (c.advance.fault .invalidNumber)
    | none => .error (c.fault .invalidNumber)
  else .ok ((), c)

/-- Goes over a number. -/
def passNumber : Reading Unit := fun c =>
  let c := if c.peek = some 0x2D then c.advance else c
  match c.peek with
  | none => .error (c.fault .invalidNumber)
  | some b =>
    if isDigit b then
      let after := if b = 0x30 then c.advance else skipDigits c c.rest.length
      if b = 0x30 ∧ after.peek.any isDigit then .error (after.peekFault .invalidNumber)
      else if after.peek = some 0x2E then
        let point := after.advance
        if point.peek.any isDigit then passExponent (skipDigits point point.rest.length)
        else .error (point.peekFault .invalidNumber)
      else passExponent after
    else .error (c.advance.fault .invalidNumber)

end EntityQuery.Token
