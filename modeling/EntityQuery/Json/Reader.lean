import EntityQuery.Json.Token

/-!
# Reading JSON text

`Reader.value` reads the value at a cursor, `Reader.pass` goes over one that nobody asked for, and
`Json.ofBytes` reads a whole body: one value with nothing but white space after it.

The three differ in what they refuse.  A value that is read may not nest 128 containers deep, its
numbers have to be in range and its strings have to be text; a value that is passed over only has to
have the form of one.  They also name some faults differently, because going over a list does not
tell a comma before its end from any other missing value.

Every reader carries a bound on its steps, two for each byte that is left, which none of them
reaches.
-/

set_option autoImplicit false

namespace EntityQuery.Reader

/-- Whether the list at a cursor goes on.  `first` says that no item was read yet. -/
def moreItems (first : Bool) (c : Cursor) : Except JsonFault (Bool × Cursor) :=
  let c := c.skip
  match c.peek with
  | none => .error (c.peekFault .endInList)
  | some b =>
    if b = 0x5D then .ok (false, c)
    else if first then .ok (true, c)
    else if b = 0x2C then
      let c := c.advance.skip
      match c.peek with
      | none => .error (c.peekFault .endInValue)
      | some d => if d = 0x5D then .error (c.peekFault .trailingComma) else .ok (true, c)
    else .error (c.peekFault .expectedListCommaOrEnd)

/-- Whether the object at a cursor goes on; if so, the cursor behind the quote of the next key. -/
def moreMembers (first : Bool) (c : Cursor) : Except JsonFault (Bool × Cursor) :=
  let c := c.skip
  match c.peek with
  | none => .error (c.peekFault .endInObject)
  | some b =>
    if b = 0x7D then .ok (false, c)
    else if first then
      if b = 0x22 then .ok (true, c.advance) else .error (c.peekFault .keyMustBeString)
    else if b = 0x2C then
      let c := c.advance.skip
      match c.peek with
      | none => .error (c.peekFault .endInValue)
      | some d =>
        if d = 0x22 then .ok (true, c.advance)
        else if d = 0x7D then .error (c.peekFault .trailingComma)
        else .error (c.peekFault .keyMustBeString)
    else .error (c.peekFault .expectedObjectCommaOrEnd)

/-- The colon between a key and its value. -/
def colon : Reading Unit := fun c =>
  let c := c.skip
  match c.peek with
  | none => .error (c.peekFault .endInObject)
  | some b => if b = 0x3A then .ok ((), c.advance) else .error (c.peekFault .expectedColon)

mutual

/-- The value at a cursor. -/
def valueWithin : Nat → Reading Json
  | 0, c => .error (c.fault .endInValue)
  | fuel + 1, c =>
    let c := c.skip
    match c.peek with
    | none => .error (c.peekFault .endInValue)
    | some b =>
      if b = 0x6E then do
        let ((), c) ← Token.word [0x75, 0x6C, 0x6C] c.advance
        .ok (.null, c)
      else if b = 0x74 then do
        let ((), c) ← Token.word [0x72, 0x75, 0x65] c.advance
        .ok (.bool true, c)
      else if b = 0x66 then do
        let ((), c) ← Token.word [0x61, 0x6C, 0x73, 0x65] c.advance
        .ok (.bool false, c)
      else if b = 0x2D ∨ Token.isDigit b then do
        let (n, c) ← Token.number c
        .ok (.number n, c)
      else if b = 0x22 then do
        let (s, c) ← Token.string c.advance
        .ok (.text s, c)
      else if b = 0x5B then do
        let inner ← c.enter
        let (items, close) ← itemsWithin fuel true inner
        .ok (.array items, close.leave c.room)
      else if b = 0x7B then do
        let inner ← c.enter
        let (members, close) ← membersWithin fuel true inner
        .ok (.ofMembers members, close.leave c.room)
      else .error (c.peekFault .expectedValue)

/-- The items of a list, up to its closing bracket. -/
def itemsWithin : Nat → Bool → Reading (List Json)
  | 0, _, c => .error (c.fault .endInList)
  | fuel + 1, first, c => do
    let (more, c) ← moreItems first c
    if more then
      let (item, c) ← valueWithin fuel c
      let (rest, c) ← itemsWithin fuel false c
      .ok (item :: rest, c)
    else .ok ([], c)

/-- The members of an object in the order of the text, up to its closing brace. -/
def membersWithin : Nat → Bool → Reading (List (String × Json))
  | 0, _, c => .error (c.fault .endInObject)
  | fuel + 1, first, c => do
    let (more, c) ← moreMembers first c
    if more then
      let (key, c) ← Token.string c
      let ((), c) ← colon c
      let (value, c) ← valueWithin fuel c
      let (rest, c) ← membersWithin fuel false c
      .ok ((key, value) :: rest, c)
    else .ok ([], c)

end

/-- The value at a cursor. -/
def value : Reading Json := fun c => valueWithin c.fuel c

mutual

/-- Goes over the value at a cursor. -/
def passWithin : Nat → Reading Unit
  | 0, c => .error (c.fault .endInValue)
  | fuel + 1, c =>
    let c := c.skip
    match c.peek with
    | none => .error (c.peekFault .endInValue)
    | some b =>
      if b = 0x6E then Token.word [0x75, 0x6C, 0x6C] c.advance
      else if b = 0x74 then Token.word [0x72, 0x75, 0x65] c.advance
      else if b = 0x66 then Token.word [0x61, 0x6C, 0x73, 0x65] c.advance
      else if b = 0x2D ∨ Token.isDigit b then Token.passNumber c
      else if b = 0x22 then Token.passString c.advance
      else if b = 0x5B then
        let c := c.advance.skip
        if c.peek = some 0x5D then .ok ((), c.advance)
        else if c.peek = none then .error (c.peekFault .endInList)
        else passItemsWithin fuel c
      else if b = 0x7B then
        let c := c.advance.skip
        if c.peek = some 0x7D then .ok ((), c.advance)
        else passMembersWithin fuel c
      else .error (c.peekFault .expectedValue)

/-- Goes over the next item of a list and all after it. -/
def passItemsWithin : Nat → Reading Unit
  | 0, c => .error (c.fault .endInList)
  | fuel + 1, c => do
    let ((), c) ← passWithin fuel c
    let c := c.skip
    match c.peek with
    | none => .error (c.peekFault .endInList)
    | some b =>
      if b = 0x5D then .ok ((), c.advance)
      else if b = 0x2C then passItemsWithin fuel c.advance
      else .error (c.peekFault .expectedListCommaOrEnd)

/-- Goes over the next member of an object and all after it. -/
def passMembersWithin : Nat → Reading Unit
  | 0, c => .error (c.fault .endInObject)
  | fuel + 1, c => do
    let c := c.skip
    match c.peek with
    | none => .error (c.peekFault .endInObject)
    | some b =>
      if b = 0x22 then
        let ((), c) ← Token.passString c.advance
        let ((), c) ← colon c
        let ((), c) ← passWithin fuel c
        let c := c.skip
        match c.peek with
        | none => .error (c.peekFault .endInObject)
        | some d =>
          if d = 0x7D then .ok ((), c.advance)
          else if d = 0x2C then passMembersWithin fuel c.advance
          else .error (c.peekFault .expectedObjectCommaOrEnd)
      else .error (c.peekFault .keyMustBeString)

end

/-- Goes over the value at a cursor. -/
def pass : Reading Unit := fun c => passWithin c.fuel c

/-- Reads a whole text: nothing but white space may follow. -/
def whole {α : Type} (read : Reading α) (bytes : List UInt8) : Except JsonFault α := do
  let (a, c) ← read (Cursor.start bytes)
  let c := c.skip
  match c.peek with
  | none => .ok a
  | some _ => .error (c.peekFault .trailingCharacters)

end EntityQuery.Reader

namespace EntityQuery

/-- The JSON value of a body. -/
def Json.ofBytes (bytes : List UInt8) : Except JsonFault Json := Reader.whole Reader.value bytes

/-- The JSON value of a text. -/
def Json.ofText (s : String) : Except JsonFault Json := Json.ofBytes (Text.Utf8.encode s)

end EntityQuery
