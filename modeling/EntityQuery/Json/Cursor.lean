import EntityQuery.Json.Fault

/-!
# A place to read from

A `Cursor` is the part of a text that is still to be read, as bytes, with the place it has reached
and how many more containers may be opened inside each other.  Readers take a cursor and return
what they read with the cursor behind it.

A fault found **at** a byte is placed behind that byte (`Cursor.peekFault`); one found after a byte
was taken is placed where the cursor stands (`Cursor.fault`).
-/

set_option autoImplicit false

namespace EntityQuery

/-- What is left of a text. -/
structure Cursor where
  rest : List UInt8
  place : Place
  /-- Containers that may still be opened inside each other. -/
  room : Nat

namespace Cursor

/-- A text nests at most this many containers, less one. -/
def nestingLimit : Nat := 128

/-- The beginning of a text. -/
def start (bytes : List UInt8) : Cursor := ⟨bytes, ⟨1, 0⟩, nestingLimit⟩

/-- The place behind one more byte. -/
def after (p : Place) (b : UInt8) : Place :=
  if b = 0x0A then ⟨p.line + 1, 0⟩ else ⟨p.line, p.column + 1⟩

def peek (c : Cursor) : Option UInt8 := c.rest.head?

/-- The cursor behind the next byte. -/
def advance (c : Cursor) : Cursor :=
  match c.rest with
  | [] => c
  | b :: r => ⟨r, after c.place b, c.room⟩

/-- The same cursor with its place a number of bytes back on the line. -/
def back (c : Cursor) (n : Nat) : Cursor := { c with place.column := c.place.column - n }

def fault (c : Cursor) (m : Malformed) : JsonFault := ⟨.inl m, some c.place⟩

def peekFault (c : Cursor) (m : Malformed) : JsonFault := c.advance.fault m

/-- White space between the parts of a JSON text. -/
def isGap (b : UInt8) : Bool := b == 0x20 || b == 0x0A || b == 0x09 || b == 0x0D

/-- Skips white space from a place. -/
def skipFrom (room : Nat) : Place → List UInt8 → Cursor
  | p, [] => ⟨[], p, room⟩
  | p, b :: r => if isGap b then skipFrom room (after p b) r else ⟨b :: r, p, room⟩

/-- The cursor behind any white space. -/
def skip (c : Cursor) : Cursor := skipFrom c.room c.place c.rest

/-- Where a fault is placed that an object has as a whole: behind white space, and behind the brace
too if the object ends there. -/
def objectPlace (c : Cursor) : Place :=
  let c := c.skip
  if c.peek = some 0x7D then c.advance.place else c.place

/-- A bound on the steps that reading the rest can take. -/
def fuel (c : Cursor) : Nat := 2 * c.rest.length + 2

/-- The cursor behind the bracket it stands at, with room for one container less. -/
def enter (c : Cursor) : Except JsonFault Cursor :=
  if c.room ≤ 1 then .error (c.peekFault .nestingLimit)
  else .ok { c.advance with room := c.room - 1 }

/-- The cursor behind a closing bracket, with the room there was outside. -/
def leave (c : Cursor) (room : Nat) : Cursor := { c.advance with room := room }

end Cursor

/-- A reader of JSON text. -/
abbrev Reading (α : Type) := Cursor → Except JsonFault (α × Cursor)

end EntityQuery
