import EntityQuery.Response

/-!
# Following pages

Results come page by page.  A `Pager` asks for the first page without a link and for every other with
the link of the page before it, until a page has none or something goes wrong; after that it is at its
end for good.  It is polled: a poll goes on with the fetch that is under way, or begins one if none is,
and answers a page, an error, the end, or that there is nothing yet.

An `ItemPager` answers single items.  It keeps the items of a page until all are handed out, and only
then goes on, so that it may have come to its last page and still have items.  Pages without items pass
unseen, so that one poll may go over several.  The number of pages a poll goes over is bounded; at the
bound it answers that there is nothing yet, and the next poll goes on.

What fetches the pages is a `Fetcher`: it begins a fetch from a link, and takes up a fetch that was
begun, which either finishes or is still under way.  All that changes outside a pager is the fetcher's
state `σ`.
-/

set_option autoImplicit false

namespace EntityQuery

/-- What fetches pages.  `φ` is a fetch that is under way. -/
structure Fetcher (σ φ ε α : Type) where
  /-- Begins a fetch: of the first page without a link, of any other with the link to it. -/
  start : Option String → σ → φ × σ
  /-- Takes a fetch up: it is still under way, or it has finished. -/
  resume : φ → σ → (φ ⊕ Except ε (Page α)) × σ

/-- Takes up the fetch that is under way, or begins one from a link. -/
def Fetcher.advance {σ φ ε α : Type} (f : Fetcher σ φ ε α) (underway : Option φ)
    (link : Option String) (s : σ) : (φ ⊕ Except ε (Page α)) × σ :=
  match underway with
  | some run => f.resume run s
  | none =>
    let (run, s) := f.start link s
    f.resume run s

/-- What a poll answers. -/
inductive Poll (α : Type)
  /-- Nothing yet. -/
  | pending
  | ready (answer : α)

/-! ## Pages -/

/-- A walk over pages. -/
structure Pager (φ : Type) where
  /-- The link to the page that comes next.  It is used once. -/
  link : Option String
  done : Bool
  underway : Option φ

namespace Pager

variable {σ φ ε α : Type}

/-- A walk that has not begun. -/
def fresh : Pager φ := ⟨none, false, none⟩

/-- Polls for a page; an answer of `none` is the end. -/
def poll (f : Fetcher σ φ ε α) (p : Pager φ) (s : σ) :
    Poll (Option (Except ε (Page α))) × Pager φ × σ :=
  if p.done then (.ready none, p, s)
  else
    match f.advance p.underway p.link s with
    | (.inl run, s) => (.pending, ⟨none, false, some run⟩, s)
    | (.inr (.ok page), s) =>
      (.ready (some (.ok page)), ⟨page.nextLink, page.nextLink.isNone, none⟩, s)
    | (.inr (.error e), s) => (.ready (some (.error e)), ⟨none, true, none⟩, s)

/-- Polls until there is an answer, at most so many times. -/
def pollReady (f : Fetcher σ φ ε α) :
    Nat → Pager φ → σ → Poll (Option (Except ε (Page α))) × Pager φ × σ
  | 0, p, s => (.pending, p, s)
  | tries + 1, p, s =>
    match p.poll f s with
    | (.pending, p, s) => pollReady f tries p s
    | answer => answer

end Pager

/-! ## Items -/

/-- A walk over items. -/
structure ItemPager (φ α : Type) where
  /-- The link to the page that comes next.  It is used once. -/
  link : Option String
  /-- Items of the last page that were not handed out yet. -/
  buffer : List α
  /-- Whether the last page was the last of all; there may still be items of it. -/
  done : Bool
  underway : Option φ

namespace ItemPager

variable {σ φ ε α : Type}

/-- A walk that has not begun. -/
def fresh : ItemPager φ α := ⟨none, [], false, none⟩

/-- Polls for an item, going over at most `bound` pages; an answer of `none` is the end. -/
def poll (f : Fetcher σ φ ε α) :
    Nat → ItemPager φ α → σ → Poll (Option (Except ε α)) × ItemPager φ α × σ
  | _, ⟨link, item :: rest, done, underway⟩, s =>
    (.ready (some (.ok item)), ⟨link, rest, done, underway⟩, s)
  | _, ⟨link, [], true, underway⟩, s => (.ready none, ⟨link, [], true, underway⟩, s)
  | 0, ⟨link, [], false, underway⟩, s => (.pending, ⟨link, [], false, underway⟩, s)
  | bound + 1, ⟨link, [], false, underway⟩, s =>
    match f.advance underway link s with
    | (.inl run, s) => (.pending, ⟨none, [], false, some run⟩, s)
    | (.inr (.ok page), s) =>
      poll f bound ⟨page.nextLink, page.value, page.nextLink.isNone, none⟩ s
    | (.inr (.error e), s) => (.ready (some (.error e)), ⟨none, [], true, none⟩, s)

/-- Polls until there is an answer, at most so many times. -/
def pollReady (f : Fetcher σ φ ε α) (bound : Nat) :
    Nat → ItemPager φ α → σ → Poll (Option (Except ε α)) × ItemPager φ α × σ
  | 0, p, s => (.pending, p, s)
  | tries + 1, p, s =>
    match p.poll f bound s with
    | (.pending, p, s) => pollReady f bound tries p s
    | answer => answer

end ItemPager

/-! ## Scripts -/

/-- A fetch whose outcome is known beforehand: it is polled so many times in vain, and then
finishes. -/
structure ScriptedFetch (ε α : Type) where
  delay : Nat
  outcome : Except ε (Page α)

/-- The fetches to come, and the links of those that were begun, in order. -/
structure Script (ε α : Type) where
  fetches : List (ScriptedFetch ε α)
  links : List (Option String)

/-- A fetcher that goes by a script; past its end every fetch fails at once. -/
def Script.fetcher {ε α : Type} (pastEnd : ε) :
    Fetcher (Script ε α) (ScriptedFetch ε α) ε α where
  start link s :=
    match s.fetches with
    | [] => (⟨0, .error pastEnd⟩, { s with links := s.links ++ [link] })
    | r :: rest => (r, ⟨rest, s.links ++ [link]⟩)
  resume r s :=
    match r.delay with
    | 0 => (.inr r.outcome, s)
    | n + 1 => (.inl { r with delay := n }, s)

end EntityQuery
