import EntityQuery.Json.Reader

/-!
# Decoding JSON into types

A `Decoder` knows one shape and takes it from two sources: from a value that was read before
(`ofJson`), and straight from text (`read`).  From text it goes along with the reading, so a value of
the wrong kind is reported before a fault of form further on, and every fault has a place.

* `Decoder.any` is the JSON value itself; `text`, `natural`, `integer` are one kind of value;
* `Decoder.optional` takes null for absence, and `list` takes every item;
* `Decoder.record` takes an object with named properties, or a list of their values in order.  Keys
  it does not know are passed over.  Of several things wrong with an object the first in reading
  order is reported, and a property that is missing comes last, when the object has ended;
* `Decoder.beside` takes one annotation out of an object and gives all other members to a second
  decoder.
-/

set_option autoImplicit false

namespace EntityQuery

/-- A shape that values can be taken in. -/
structure Decoder (α : Type) where
  /-- Takes the shape from a value. -/
  ofJson : Json → Except JsonFault α
  /-- Takes the shape from text. -/
  read : Reading α

namespace Decoder

/-- Takes the shape from a whole body. -/
def ofBytes {α : Type} (d : Decoder α) (bytes : List UInt8) : Except JsonFault α :=
  Reader.whole d.read bytes

/-- The same shape, put into another form. -/
def map {α β : Type} (f : α → β) (d : Decoder α) : Decoder β :=
  ⟨fun j => (d.ofJson j).map f, fun c => (d.read c).map fun (a, c) => (f a, c)⟩

/-! ## Values of one kind -/

/-- The fault that a value is of another kind. -/
def unexpected (expected : String) (j : Json) : JsonFault :=
  .ofMismatch (.invalidType j.described expected)

/-- The fault that the value at a cursor is of another kind.  A list or an object is not gone into. -/
def unexpectedAt (expected : String) (c : Cursor) : JsonFault :=
  match c.peek with
  | some 0x5B => (unexpected expected (.array [])).at? c.place
  | some 0x7B => (unexpected expected (.object [])).at? c.place
  | none => c.peekFault .expectedValue
  | _ =>
    match Reader.value c with
    | .ok (j, c) => (unexpected expected j).at? c.place
    | .error f => f

/-- The value as it is. -/
def any : Decoder Json := ⟨.ok, Reader.value⟩

/-- A value that is of the wanted kind as soon as `take` says so; `starts` tells from its first byte
whether it could be. -/
def scalar {α : Type} (expected : String) (starts : UInt8 → Bool)
    (take : Json → Except JsonFault α) : Decoder α where
  ofJson := take
  read c :=
    let c := c.skip
    match c.peek with
    | none => .error (c.peekFault .endInValue)
    | some b =>
      if starts b then do
        let (j, c) ← Reader.value c
        match take j with
        | .ok a => .ok (a, c)
        | .error f => .error (f.at? c.place)
      else .error (unexpectedAt expected c)

/-- A text. -/
def text : Decoder String :=
  scalar "a string" (· == 0x22) fun
    | .text s => .ok s
    | j => .error (unexpected "a string" j)

def startsNumber (b : UInt8) : Bool := b == 0x2D || Token.isDigit b

/-- An integer from `low` to `high`; `name` is how a message calls that range. -/
def integer (low high : Int) (name : String) : Decoder Int :=
  scalar name startsNumber fun
    | .number (.integer n) =>
      if low ≤ n ∧ n ≤ high then .ok n
      else .error (.ofMismatch (.invalidValue (Json.number (.integer n)).described name))
    | j => .error (unexpected name j)

/-- A natural number below `2^64`. -/
def natural : Decoder Nat := (integer 0 (Int.pow 2 64 - 1) "u64").map Int.toNat

/-! ## Absence and lists -/

/-- Null for absence, or a value of the shape. -/
def optional {α : Type} (d : Decoder α) : Decoder (Option α) where
  ofJson
    | .null => .ok none
    | j => (d.ofJson j).map some
  read c :=
    let c := c.skip
    if c.peek = some 0x6E then do
      let ((), c) ← Token.word [0x75, 0x6C, 0x6C] c.advance
      .ok (none, c)
    else (d.read c).map fun (a, c) => (some a, c)

/-- The items of a list, up to its closing bracket. -/
def readItems {α : Type} (d : Decoder α) : Nat → Bool → Reading (List α)
  | 0, _, c => .error (c.fault .endInList)
  | fuel + 1, first, c => do
    let (more, c) ← Reader.moreItems first c
    if more then
      let (item, c) ← d.read c
      let (rest, c) ← readItems d fuel false c
      .ok (item :: rest, c)
    else .ok ([], c)

/-- A list of values of the shape. -/
def list {α : Type} (d : Decoder α) : Decoder (List α) where
  ofJson
    | .array items => items.mapM d.ofJson
    | j => .error (unexpected "a sequence" j)
  read c :=
    let c := c.skip
    match c.peek with
    | none => .error (c.peekFault .endInValue)
    | some b =>
      if b = 0x5B then do
        let inner ← c.enter
        let (items, close) ← readItems d inner.fuel true inner
        .ok (items, close.leave c.room)
      else .error (unexpectedAt "a sequence" c)

/-! ## Records -/

/-- What it means that a property is not there. -/
inductive Absence
  /-- It keeps its default. -/
  | allowed
  /-- An object may leave it out, a list may not. -/
  | allowedByName
  /-- It has to be there. -/
  | refused
deriving DecidableEq

/-- A property of a record under construction. -/
structure Property (σ : Type) where
  name : String
  absence : Absence
  /-- Takes the property's value and puts it into the record. -/
  decoder : Decoder (σ → σ)

/-- A property whose value is put into the record by `put`. -/
def property {σ α : Type} (name : String) (absence : Absence) (d : Decoder α)
    (put : α → σ → σ) : Property σ :=
  ⟨name, absence, d.map put⟩

/-- A record: its name in messages, its properties in order, and what it holds before any of them is
read. -/
structure Record (σ : Type) where
  name : String
  properties : List (Property σ)
  initial : σ

namespace Record

variable {σ : Type}

/-- How messages name the record. -/
def expected (r : Record σ) : String := "struct " ++ r.name

/-- How messages name the record as a list. -/
def expectedList (r : Record σ) : String :=
  r.expected ++ " with " ++ toString r.properties.length
    ++ (if r.properties.length = 1 then " element" else " elements")

def find? (r : Record σ) (key : String) : Option (Property σ) :=
  r.properties.find? (·.name == key)

/-- The fault that a property is missing, if one is: the first of those that have to be there. -/
def missing? (r : Record σ) (seen : List String) : Option Mismatch :=
  (r.properties.find? fun p => p.absence == .refused && !seen.contains p.name).map
    (.missingField ·.name)

/-- Takes the properties from members; a key the record knows may come only once. -/
def takeMembers (r : Record σ) :
    List String → σ → List (String × Json) → Except JsonFault σ
  | seen, s, [] =>
    match r.missing? seen with
    | none => .ok s
    | some m => .error (.ofMismatch m)
  | seen, s, (key, j) :: rest =>
    match r.find? key with
    | none => takeMembers r seen s rest
    | some p =>
      if seen.contains key then .error (.ofMismatch (.duplicateField key))
      else do
        let put ← p.decoder.ofJson j
        takeMembers r (key :: seen) (put s) rest

/-- Takes the properties from a list of their values.  `index` counts those before. -/
def takeItems (r : Record σ) (length : Nat) :
    Nat → σ → List (Property σ) → List Json → Except JsonFault σ
  | _, s, [], [] => .ok s
  | _, _, [], _ :: _ => .error (.ofMismatch (.invalidLength length "fewer elements in array"))
  | index, s, p :: ps, [] =>
    if p.absence = .allowed then takeItems r length (index + 1) s ps []
    else .error (.ofMismatch (.invalidLength index r.expectedList))
  | index, s, p :: ps, j :: rest => do
    let put ← p.decoder.ofJson j
    takeItems r length (index + 1) (put s) ps rest

/-- Takes the record from a value. -/
def ofJson (r : Record σ) : Json → Except JsonFault σ
  | .object members => r.takeMembers [] r.initial members
  | .array items => r.takeItems items.length 0 r.initial r.properties items
  | j => .error (unexpected r.expected j)

/-- Reads members up to the closing brace, with the keys seen. -/
def readMembers (r : Record σ) :
    Nat → Bool → List String → σ → Reading (List String × σ)
  | 0, _, _, _, c => .error (c.fault .endInObject)
  | fuel + 1, first, seen, s, c => do
    let (more, c) ← Reader.moreMembers first c
    if more then
      let (key, c) ← Token.string c
      match r.find? key with
      | none =>
        let ((), c) ← Reader.colon c
        let ((), c) ← Reader.pass c
        readMembers r fuel false seen s c
      | some p =>
        if seen.contains key then
          .error ((JsonFault.ofMismatch (.duplicateField key)).at? c.objectPlace)
        else
          let ((), c) ← Reader.colon c
          let (put, c) ← p.decoder.read c
          readMembers r fuel false (key :: seen) (put s) c
    else .ok ((seen, s), c)

/-- Reads values in the order of the properties; the cursor after the last one stands before the
closing bracket, if the list ended there. -/
def readValues (r : Record σ) (room : Nat) : Nat → Bool → σ → List (Property σ) → Reading σ
  | _, _, s, [], c =>
    let c := c.skip
    match c.peek with
    | none => .error (c.peekFault .endInList)
    | some b =>
      if b = 0x5D then .ok (s, c.leave room)
      else if b = 0x2C then
        let next := c.advance.skip
        if next.peek = some 0x5D then .error (next.peekFault .trailingComma)
        else .error (next.peekFault .trailingCharacters)
      else .error (c.peekFault .trailingCharacters)
  | index, first, s, p :: ps, c => do
    let (more, c) ← Reader.moreItems first c
    if more then
      let (put, c) ← p.decoder.read c
      readValues r room (index + 1) false (put s) ps c
    else if p.absence = .allowed then readValues r room (index + 1) first s ps c
    else
      .error ((JsonFault.ofMismatch (.invalidLength index r.expectedList)).at? c.advance.place)

/-- Reads the record from text. -/
def read (r : Record σ) : Reading σ := fun c =>
  let c := c.skip
  match c.peek with
  | none => .error (c.peekFault .endInValue)
  | some b =>
    if b = 0x7B then do
      let inner ← c.enter
      let ((seen, s), close) ← r.readMembers inner.fuel true [] r.initial inner
      let c := close.leave c.room
      match r.missing? seen with
      | none => .ok (s, c)
      | some m => .error ((JsonFault.ofMismatch m).at? c.place)
    else if b = 0x5B then do
      let inner ← c.enter
      r.readValues c.room 0 true r.initial r.properties inner
    else .error (unexpectedAt r.expected c)

end Record

/-- A record. -/
def record {σ : Type} (r : Record σ) : Decoder σ := ⟨r.ofJson, r.read⟩

/-! ## An annotation beside other members -/

/-- What `beside` has found so far: the annotation, if it came, and the other members in order,
newest first. -/
abbrev Found (α : Type) := Option α × List (String × Json)

/-- Members with the annotation taken out. -/
def takeNote {α : Type} (name : String) (d : Decoder α) :
    Found α → List (String × Json) → Except JsonFault (Found α)
  | found, [] => .ok found
  | (note, others), (key, j) :: rest =>
    if key = name then
      if note.isSome then .error (.ofMismatch (.duplicateField name))
      else do
        let a ← d.ofJson j
        takeNote name d (some a, others) rest
    else takeNote name d (note, (key, j) :: others) rest

/-- Reads members up to the closing brace, with the annotation taken out. -/
def readNote {α : Type} (name : String) (d : Decoder α) :
    Nat → Bool → Found α → Reading (Found α)
  | 0, _, _, c => .error (c.fault .endInObject)
  | fuel + 1, first, (note, others), c => do
    let (more, c) ← Reader.moreMembers first c
    if more then
      let (key, c) ← Token.string c
      if key = name then
        if note.isSome then
          .error ((JsonFault.ofMismatch (.duplicateField name)).at? c.objectPlace)
        else
          let ((), c) ← Reader.colon c
          let (a, c) ← d.read c
          readNote name d fuel false (some a, others) c
      else
        let ((), c) ← Reader.colon c
        let (j, c) ← Reader.value c
        readNote name d fuel false (note, (key, j) :: others) c
    else .ok ((note, others), c)

/-- An object with one annotation and, beside it, the members that `rest` takes. -/
def beside {α β : Type} (typeName name : String) (d : Decoder α)
    (rest : List (String × Json) → Except JsonFault β) : Decoder (Option α × β) where
  ofJson
    | .object members => do
      let (note, others) ← takeNote name d (none, []) members
      let b ← rest others.reverse
      .ok (note, b)
    | j => .error (unexpected ("struct " ++ typeName) j)
  read c :=
    let c := c.skip
    match c.peek with
    | none => .error (c.peekFault .endInValue)
    | some b =>
      if b = 0x7B then do
        let inner ← c.enter
        let ((note, others), close) ← readNote name d inner.fuel true (none, []) inner
        let c := close.leave c.room
        match rest others.reverse with
        | .ok b => .ok ((note, b), c)
        | .error f => .error (f.at? c.place)
      else .error (unexpectedAt ("struct " ++ typeName) c)

end Decoder

end EntityQuery
