import EntityQuery.Proofs.Except
import EntityQuery.Proofs.Url.Path
import EntityQuery.Url.Reader

/-!
# References below a host

A reference that names neither a scheme nor a host leaves everything in front of the path as it is,
and what it makes of the rest does not depend on it.  A `Location` is that rest, and
`Location.resolve` is what a reference makes of it (`join_under`).

The text of a location that has been read leads to it from everywhere below a host
(`resolve_text`), as long as it is not taken for a host itself.  Without its first slash it leads to
the same segments below the directory of any location (`resolve_rootless`).

Two locations may lie one above the other: the path of one is that of the other behind a base
(`IsBelow`).  References keep them so, except those that leave the directory they are resolved in
(`Location.leaves`).
-/

set_option autoImplicit false

namespace EntityQuery.Url

variable {cs : List Char} {u : Url} {s : String}

/-! ## Kinds of references -/

/-- A text that begins with no scheme. -/
def IsReference (s : String) : Prop := readScheme? (cleaned s) = none

instance (s : String) : Decidable (IsReference s) :=
  decidable_of_iff ((readScheme? (cleaned s)).isNone = true) Option.isNone_iff_eq_none

/-- Whether a text begins with a slash. -/
def isRooted (cs : List Char) : Bool := cs.head?.any isSlash

/-- Whether a text begins with the two slashes in front of a host. -/
def namesHost (cs : List Char) : Bool := isRooted cs && isRooted cs.tail

/-- What follows the slashes in front of a host: exactly two when they are none but slashes, and as
many as there are when one of the two is a backslash. -/
def hostOnward (cs : List Char) : List Char :=
  match cs with
  | '/' :: '/' :: after => after
  | _ => cs.dropWhile isSlash

theorem endsSegment_special (c : Char) : endsSegment .special c = isSlash c := by
  rw [endsSegment, isSlash, show SchemeKind.hasBackslash .special = true from rfl, Bool.and_true]

theorem IsSegmentChar.isSlash_eq {c : Char} (h : IsSegmentChar c) : isSlash c = false :=
  endsSegment_special c ▸ h.2.2

theorem isRooted_of_isPathless (h : isPathless cs = true) : isRooted cs = false := by
  cases cs with
  | nil => rfl
  | cons c r => rcases isPathless_cons.1 h with rfl | rfl <;> rfl

theorem exists_of_namesHost (h : namesHost cs = true) :
    ∃ c d r, cs = c :: d :: r ∧ isSlash c = true ∧ isSlash d = true := by
  rw [namesHost, Bool.and_eq_true] at h
  cases cs with
  | nil => cases h.1
  | cons c r =>
    cases r with
    | nil => cases h.2
    | cons d r => exact ⟨c, d, r, rfl, h.1, h.2⟩

/-! ## What stands behind a host -/

/-- What stands behind the host of a URL. -/
structure Location where
  path : List (List Char)
  query : Option (List Char)
  fragment : Option (List Char)

namespace Location

variable {l m : Location}

/-- Where a host begins. -/
def root : Location := ⟨[[]], none, none⟩

/-- The location behind the host of a URL. -/
def under (l : Location) (u : Url) : Url :=
  ⟨u.scheme, u.authority, .segments l.path, l.query, l.fragment⟩

/-- Query and fragment with the marks that introduce them. -/
def tail (l : Location) : List Char :=
  (match l.query with
    | none => []
    | some q => '?' :: q)
  ++ match l.fragment with
    | none => []
    | some f => '#' :: f

def text (l : Location) : List Char := segmentsText l.path ++ l.tail

theorem referenceText_under (l : Location) (u : Url) : (l.under u).referenceText = l.text := rfl

/-- The location that a reference without a host leads to. -/
def resolve (l : Location) (cs : List Char) : Location :=
  let tail := readTail .special (afterPath cs)
  if isPathless cs then ⟨l.path, tail.1.or l.query, tail.2⟩
  else
    let path :=
      if isRooted cs then settle [] (pathParts cs.tail)
      else settle l.path.dropLast (pathParts cs)
    ⟨path, tail.1, tail.2⟩

theorem resolve_of_isPathless (h : isPathless cs = true) (l : Location) :
    l.resolve cs = ⟨l.path, (readTail .special cs).1.or l.query, (readTail .special cs).2⟩ := by
  rw [resolve, if_pos h, afterPath_of_isPathless h]

theorem resolve_of_isRooted (h : isRooted cs = true) (l : Location) :
    l.resolve cs = ⟨settle [] (pathParts cs.tail), (readTail .special (afterPath cs)).1,
      (readTail .special (afterPath cs)).2⟩ := by
  have hpath : ¬isPathless cs = true := by
    intro hpath
    rw [isRooted_of_isPathless hpath] at h
    cases h
  rw [resolve, if_neg hpath]
  dsimp only
  rw [if_pos h]

theorem resolve_of_relative (hpath : ¬isPathless cs = true) (h : ¬isRooted cs = true)
    (l : Location) :
    l.resolve cs = ⟨settle l.path.dropLast (pathParts cs), (readTail .special (afterPath cs)).1,
      (readTail .special (afterPath cs)).2⟩ := by
  rw [resolve, if_neg hpath]
  dsimp only
  rw [if_neg h]

end Location

section Join

variable (hkind : schemeKind u.scheme = .special)

include hkind

theorem withTail_readPath (authority : Option Authority) (done : List (List Char))
    (cs : List Char) :
    withTail u.scheme authority (readPath .special done cs) =
      ⟨u.scheme, authority, .segments (settle done (pathParts cs)),
        (readTail .special (afterPath cs)).1, (readTail .special (afterPath cs)).2⟩ := by
  rw [readPath_eq, withTail, hkind]
  rfl

theorem resolveRelative_under (hhost : namesHost cs = false) (l : Location) :
    resolveRelative (l.under u) cs = .ok ((l.resolve cs).under u) := by
  have hscheme : schemeKind (l.under u).scheme = .special := hkind
  cases cs with
  | nil => rfl
  | cons c r =>
    rw [resolveRelative, hscheme]
    by_cases hquery : c = '?'
    · obtain rfl := hquery
      rfl
    by_cases hfragment : c = '#'
    · obtain rfl := hfragment
      rfl
    have hpath : ¬isPathless (c :: r) = true := fun h => (isPathless_cons.1 h).elim hquery hfragment
    dsimp only
    rw [if_neg hquery, if_neg hfragment]
    by_cases hslash : isSlash c = true
    · have hrooted : isRooted (c :: r) = true := hslash
      have hnext : ¬isRooted r = true := by
        intro h
        rw [namesHost, hrooted, List.tail_cons, h] at hhost
        cases hhost
      rw [Location.resolve_of_isRooted hrooted, if_pos hslash, List.tail_cons, afterPath_cons,
        if_neg (not_or.2 ⟨hquery, hfragment⟩)]
      split
      · next heq =>
        obtain ⟨-, rfl⟩ := List.cons.inj heq
        exact absurd rfl hnext
      · exact (if_neg hnext).trans (congrArg Except.ok (withTail_readPath hkind _ _ _))
    · have hrooted : ¬isRooted (c :: r) = true := hslash
      rw [Location.resolve_of_relative hpath hrooted, if_neg hslash]
      exact congrArg Except.ok (withTail_readPath hkind _ _ _)

/-- **A reference without a host is resolved behind the host.** -/
theorem join_under (hs : IsReference s) (hhost : namesHost (cleaned s) = false) (l : Location) :
    join (l.under u) s = .ok ((l.resolve (cleaned s)).under u) := by
  have hfile : schemeKind (l.under u).scheme ≠ .file := by
    rw [show schemeKind (l.under u).scheme = .special from hkind]
    decide
  rw [join, read, hs, ← resolveRelative_under hkind hhost]
  dsimp only
  split
  · next heq =>
    rw [heq]
    rfl
  · exact if_neg hfile

/-- **A reference with a host takes only the scheme from its base.** -/
theorem join_of_namesHost (hs : IsReference s) (hhost : namesHost (cleaned s) = true)
    (l : Location) :
    join (l.under u) s = readAfterSlashes u.scheme (hostOnward (cleaned s)) := by
  have hfile : schemeKind (l.under u).scheme ≠ .file := by
    rw [show schemeKind (l.under u).scheme = .special from hkind]
    decide
  rw [namesHost, Bool.and_eq_true] at hhost
  rw [join, read, hs]
  generalize cleaned s = cs at hhost
  dsimp only
  cases cs with
  | nil => cases hhost.1
  | cons c r =>
    have hslash : isSlash c = true := hhost.1
    have hmarks : c ≠ '?' ∧ c ≠ '#' := by
      constructor <;> (rintro rfl; cases hslash)
    split
    · next heq => exact absurd (List.cons.inj heq).1 hmarks.2
    · refine (if_neg hfile).trans ?_
      rw [resolveRelative]
      dsimp only
      rw [if_neg hmarks.1, if_neg hmarks.2, if_pos hslash]
      split
      · next heq =>
        rw [heq]
        rfl
      · next hne =>
        rw [show r.head?.any isSlash = true from hhost.2, if_pos rfl, hostOnward]
        · rfl
        · exact hne

end Join

namespace Location

variable {l m : Location}

/-! ## Locations that have been read -/

/-- A location that is written without anything that reading would change. -/
structure IsNormal (l : Location) : Prop where
  path_ne_nil : l.path ≠ []
  segments : ∀ s ∈ l.path, IsSegment s
  query : ∀ q ∈ l.query, Text.Percent.IsKept (keepsQuery .special) q
  fragment : ∀ f ∈ l.fragment, Text.Percent.IsKept keepsFragment f

theorem isNormal_root : root.IsNormal :=
  ⟨List.cons_ne_nil _ _, fun _ h => List.mem_singleton.1 h ▸ isSegment_nil, nofun, nofun⟩

theorem isKept_readTail (cs : List Char) :
    (∀ q ∈ (readTail .special cs).1, Text.Percent.IsKept (keepsQuery .special) q) ∧
      ∀ f ∈ (readTail .special cs).2, Text.Percent.IsKept keepsFragment f := by
  have hquery (cs : List Char) := Text.Percent.isKept_encodeChars
    (by decide : "%0123456789ABCDEF".toList.all (keepsQuery .special) = true) cs
  have hfragment (cs : List Char) := Text.Percent.isKept_encodeChars
    (by decide : "%0123456789ABCDEF".toList.all keepsFragment = true) cs
  unfold readTail
  split
  · refine ⟨fun q hq => Option.some.inj hq ▸ hquery _, fun f hf => ?_⟩
    dsimp only at hf
    split at hf
    · exact Option.some.inj hf ▸ hfragment _
    · cases hf
  · exact ⟨nofun, fun f hf => Option.some.inj hf ▸ hfragment _⟩
  · exact ⟨nofun, nofun⟩

theorem isNormal_settle {done : List (List Char)} (hdone : ∀ s ∈ done, IsSegment s)
    (path cs : List Char) :
    IsNormal ⟨settle done (pathParts path), (readTail .special cs).1, (readTail .special cs).2⟩ where
  path_ne_nil := settle_ne_nil (partsFrom_ne_nil _ _) _
  segments _ hs := isSegment_of_mem_settle hdone
    (fun _ hp => isSegmentChar_of_mem_partsFrom (List.forall_mem_nil _) hp) hs
  query := (isKept_readTail cs).1
  fragment := (isKept_readTail cs).2

/-- **What a reference leads to is written as it is read.** -/
theorem IsNormal.resolve (h : l.IsNormal) (cs : List Char) : (l.resolve cs).IsNormal := by
  by_cases hpath : isPathless cs = true
  · rw [resolve_of_isPathless hpath]
    refine ⟨h.path_ne_nil, h.segments, fun q hq => ?_, (isKept_readTail _).2⟩
    cases hread : (readTail .special cs).1 with
    | none => exact h.query q (by simpa [hread] using hq)
    | some q' => exact (isKept_readTail cs).1 q (by simpa [hread] using hq)
  by_cases hrooted : isRooted cs = true
  · rw [resolve_of_isRooted hrooted]
    exact isNormal_settle (List.forall_mem_nil _) _ _
  · rw [resolve_of_relative hpath hrooted]
    exact isNormal_settle (fun s hs => h.segments s (List.dropLast_subset _ hs)) _ _

/-! ## Reading the text of a location -/

theorem isPathless_tail (l : Location) : isPathless l.tail = true := by
  rw [tail]
  cases l.query with
  | some q => rfl
  | none => cases l.fragment <;> rfl

theorem readTail_tail (h : l.IsNormal) : readTail .special l.tail = (l.query, l.fragment) := by
  have hfragment {f : List Char} (hf : l.fragment = some f) :
      Text.Percent.encodeChars keepsFragment f = f :=
    Text.Percent.encodeChars_of_isKept (h.fragment f hf)
  rw [tail]
  cases hq : l.query with
  | none =>
    cases hf : l.fragment with
    | none => rfl
    | some f => simp only [List.nil_append, readTail, hfragment hf]
  | some q =>
    have hkept := h.query q hq
    have hhash : ∀ c ∈ q, (decide (c ≠ '#')) = true := by
      intro c hc
      refine decide_eq_true ?_
      rintro rfl
      exact absurd (hkept _ hc).2 (by decide)
    have hquery := Text.Percent.encodeChars_of_isKept hkept
    simp only [List.cons_append, readTail, List.takeWhile_append_of_pos hhash,
      List.dropWhile_append_of_pos hhash]
    cases hf : l.fragment with
    | none => simp only [List.takeWhile_nil, List.dropWhile_nil, List.append_nil, hquery]
    | some f => simp [hquery, hfragment hf]

/-- A text without a path leads to the place it is resolved at. -/
theorem resolve_tail (h : l.IsNormal) (m : Location) :
    m.resolve l.tail = ⟨m.path, l.query.or m.query, l.fragment⟩ := by
  rw [resolve_of_isPathless l.isPathless_tail, readTail_tail h]

/-- **The text of a location leads to it**, from everywhere. -/
theorem resolve_text (h : l.IsNormal) (m : Location) : m.resolve l.text = l := by
  obtain ⟨path, query, fragment⟩ := l
  cases path with
  | nil => exact absurd rfl h.path_ne_nil
  | cons segment segments =>
    obtain ⟨hsegment, hsegments⟩ := List.forall_mem_cons.1 h.segments
    have htail := isPathless_tail ⟨segment :: segments, query, fragment⟩
    rw [text, segmentsText_cons, resolve_of_isRooted rfl, List.tail_cons,
      pathParts_segmentsText hsegment hsegments htail, afterPath_cons, if_neg (by decide),
      afterPath_append_segmentsText hsegment hsegments htail, readTail_tail h,
      settle_of_isSegment h.segments]
    rfl

/-- **Segments without a slash in front lead to the same segments in a directory.** -/
theorem resolve_segments (h : l.IsNormal) {segment : List Char} {segments : List (List Char)}
    (hsegment : IsSegment segment) (hne : segment ≠ []) (hsegments : ∀ s ∈ segments, IsSegment s)
    (m : Location) :
    m.resolve (segment ++ (segmentsText segments ++ l.tail)) =
      ⟨m.path.dropLast ++ segment :: segments, l.query, l.fragment⟩ := by
  have hmarks : ¬isPathless (segment ++ (segmentsText segments ++ l.tail)) = true ∧
      ¬isRooted (segment ++ (segmentsText segments ++ l.tail)) = true := by
    cases segment with
    | nil => exact absurd rfl hne
    | cons c rest =>
      have hc := hsegment.chars c (List.mem_cons_self ..)
      exact ⟨fun h => hc.not_mark (isPathless_cons.1 h), Bool.eq_false_iff.1 hc.isSlash_eq⟩
  rw [resolve_of_relative hmarks.1 hmarks.2,
    pathParts_segmentsText hsegment hsegments l.isPathless_tail,
    afterPath_append_segmentsText hsegment hsegments l.isPathless_tail, readTail_tail h,
    settle_of_isSegment (List.forall_mem_cons.2 ⟨hsegment, hsegments⟩)]

/-! ## Locations above each other -/

/-- The location with a base in front of its path. -/
def behind (base : List (List Char)) (l : Location) : Location :=
  ⟨base ++ l.path, l.query, l.fragment⟩

/-- The directory of one location is that of another behind a base. -/
def IsBelow (base : List (List Char)) (m l : Location) : Prop :=
  l.path ≠ [] ∧ m.path.dropLast = base ++ l.path.dropLast

/-- Whether a reference leads out of the directory it is resolved in. -/
def leaves (l : Location) (cs : List Char) : Bool :=
  !isPathless cs && (isRooted cs || climbs l.path.dropLast (pathParts cs))

theorem leaves_eq_false :
    l.leaves cs = false ↔ isPathless cs = true ∨
      ¬isRooted cs = true ∧ climbs l.path.dropLast (pathParts cs) = false := by
  rw [leaves, Bool.and_eq_false_iff, Bool.not_eq_false', Bool.or_eq_false_iff, Bool.not_eq_true]

section Base

variable {base : List (List Char)} {segment cs' : List Char}

theorem isBelow_behind (h : l.path ≠ []) (base : List (List Char)) :
    IsBelow base (l.behind base) l :=
  ⟨h, List.dropLast_append_of_ne_nil h⟩

theorem isBelow_root (l : Location) : IsBelow l.path.dropLast l root :=
  ⟨List.cons_ne_nil _ _, (List.append_nil _).symm⟩

theorem path_resolve_ne_nil (h : l.path ≠ []) (cs : List Char) : (l.resolve cs).path ≠ [] := by
  by_cases hpath : isPathless cs = true
  · rwa [resolve_of_isPathless hpath]
  by_cases hrooted : isRooted cs = true
  · rw [resolve_of_isRooted hrooted]
    exact settle_ne_nil (partsFrom_ne_nil _ _) _
  · rw [resolve_of_relative hpath hrooted]
    exact settle_ne_nil (partsFrom_ne_nil _ _) _

theorem resolve_behind (h : isPathless cs = true) (base : List (List Char)) (l : Location) :
    (l.behind base).resolve cs = (l.resolve cs).behind base := by
  rw [resolve_of_isPathless h, resolve_of_isPathless h]
  rfl

/-- A path that does not leave its directory leads below the base as it leads without it. -/
theorem IsBelow.resolve_eq (h : IsBelow base m l) (hpath : ¬isPathless cs = true)
    (hleaves : l.leaves cs = false) : m.resolve cs = (l.resolve cs).behind base := by
  obtain ⟨hrooted, hclimbs⟩ := (leaves_eq_false.1 hleaves).resolve_left hpath
  rw [resolve_of_relative hpath hrooted, resolve_of_relative hpath hrooted, h.2,
    settle_append hclimbs]
  rfl

theorem IsBelow.resolve (h : IsBelow base m l) (hleaves : l.leaves cs = false) :
    IsBelow base (m.resolve cs) (l.resolve cs) := by
  by_cases hpath : isPathless cs = true
  · rw [resolve_of_isPathless hpath, resolve_of_isPathless hpath]
    exact h
  · rw [h.resolve_eq hpath hleaves]
    exact isBelow_behind (path_resolve_ne_nil h.1 cs) base

/-- **A reference that leaves its directory does not see a base of one segment.** -/
theorem IsBelow.resolve_of_leaves (h : IsBelow [segment] m l) (hsegment : isDrive segment = false)
    (hleaves : l.leaves cs = true) : m.resolve cs = l.resolve cs := by
  rw [leaves, Bool.and_eq_true, Bool.not_eq_true'] at hleaves
  by_cases hrooted : isRooted cs = true
  · rw [resolve_of_isRooted hrooted, resolve_of_isRooted hrooted]
  · have hclimbs := hleaves.2
    rw [Bool.not_eq_true] at hrooted
    rw [hrooted, Bool.false_or] at hclimbs
    rw [resolve_of_relative (Bool.eq_false_iff.1 hleaves.1) (Bool.eq_false_iff.1 hrooted),
      resolve_of_relative (Bool.eq_false_iff.1 hleaves.1) (Bool.eq_false_iff.1 hrooted), h.2,
      List.singleton_append, settle_of_climbs hclimbs hsegment]

/-- **Two references that stay in their directories lead below the base as they lead without it.** -/
theorem IsBelow.resolve_resolve (h : IsBelow base m l)
    (hpath : ¬(isPathless cs = true ∧ isPathless cs' = true)) (hleaves : l.leaves cs = false)
    (hleaves' : (l.resolve cs).leaves cs' = false) :
    (m.resolve cs).resolve cs' = ((l.resolve cs).resolve cs').behind base := by
  by_cases hpath' : isPathless cs' = true
  · have hfirst : ¬isPathless cs = true := fun hcs => hpath ⟨hcs, hpath'⟩
    rw [h.resolve_eq hfirst hleaves, resolve_behind hpath']
  · exact (h.resolve hleaves).resolve_eq hpath' hleaves'

theorem IsBelow.resolve_resolve_of_leaves (h : IsBelow [segment] m l)
    (hsegment : isDrive segment = false)
    (hleaves : ¬(l.leaves cs = false ∧ (l.resolve cs).leaves cs' = false)) :
    (m.resolve cs).resolve cs' = (l.resolve cs).resolve cs' := by
  cases hfirst : l.leaves cs with
  | true => rw [h.resolve_of_leaves hsegment hfirst]
  | false =>
    have hsecond : (l.resolve cs).leaves cs' = true :=
      Bool.not_eq_false _ ▸ fun hcs' => hleaves ⟨hfirst, hcs'⟩
    exact (h.resolve hfirst).resolve_of_leaves hsegment hsecond

/-- Two references without a path lead where the tail of both together leads. -/
theorem resolve_resolve_of_isPathless (h : isPathless cs = true) (h' : isPathless cs' = true)
    (m : Location) :
    (m.resolve cs).resolve cs' = m.resolve ((root.resolve cs).resolve cs').tail := by
  rw [resolve_tail ((isNormal_root.resolve cs).resolve cs')]
  simp only [resolve_of_isPathless h, resolve_of_isPathless h']
  rw [root, Option.or_none, Option.or_assoc]

end Base

end Location

end EntityQuery.Url
