import EntityQuery.Proofs.Url.Reading
import EntityQuery.Url.NextLink

/-!
# Next links on any base

A transport that knows the base of all URLs can be given relative ones.  It resolves the URL of a
request against the base, and then the URL of the next page as well, which `nextLink` has made from
the request and the link without knowing the base.  The second page is the right one if resolving the
result against the base leads where the link leads from the request (`LeadsOn`).

That is so for every base of the web when the result is portable (`IsPortable`), and for requests and
links without a host in no other case (`leadsOn_of_isPortable`, `isPortable_of_leadsOn`).  Two bases
of different schemes, or of different hosts, tell a result apart that says too much, and a base of two
segments one that says too little.
-/

set_option autoImplicit false

namespace EntityQuery.Url

variable {request link next : String} {u : Url} {l : Location}

/-- A URL of the web. -/
def IsWeb (u : Url) : Prop := u.scheme = "http".toList ∨ u.scheme = "https".toList

/-- Behind every base of the web, `next` leads where the link leads from the request. -/
def LeadsOn (request link next : String) : Prop :=
  ∀ base u, ofText base = .ok u → IsWeb u →
    join u next = join u request >>= fun page => join page link

theorem IsWeb.schemeKind_eq (h : IsWeb u) : schemeKind u.scheme = .special := by
  rcases h with h | h <;> (rw [h]; decide)

/-- Where the link leads from the request, at a base without a path. -/
def reached (request link : String) : Location :=
  (Location.root.resolve (cleaned request)).resolve (cleaned link)

theorem isNormal_reached (request link : String) : (reached request link).IsNormal :=
  (Location.isNormal_root.resolve _).resolve _

/-! ## The text of a next link -/

/-- Segments without a slash in front of the first, and what follows them. -/
def rootlessText (segments : List (List Char)) (tail : List Char) : List Char :=
  match segments with
  | [] => tail
  | s :: rest => s ++ (segmentsText rest ++ tail)

/-- Where slashes are dropped from a text, empty segments are dropped from a path. -/
theorem dropWhile_segmentsText {p : Char → Bool} (hslash : p '/' = true)
    (hother : ∀ c, p c = true → isSlash c = true) {segments : List (List Char)} {cs : List Char}
    (hsegments : ∀ s ∈ segments, IsSegment s) (hcs : isPathless cs = true) :
    (segmentsText segments ++ cs).dropWhile p =
      rootlessText (segments.dropWhile List.isEmpty) cs := by
  have hneg {c : Char} (h : isSlash c = false) : ¬p c = true := by
    intro hc
    rw [hother c hc] at h
    cases h
  induction segments with
  | nil =>
    rw [segmentsText, List.flatMap_nil, List.nil_append, List.dropWhile_nil, rootlessText]
    cases cs with
    | nil => rfl
    | cons c r => rw [List.dropWhile_cons, if_neg (hneg (isRooted_of_isPathless hcs))]
  | cons s rest ih =>
    obtain ⟨hs, hrest⟩ := List.forall_mem_cons.1 hsegments
    rw [segmentsText_cons, List.dropWhile_cons, if_pos hslash]
    cases s with
    | nil => exact ih hrest
    | cons c s' =>
      have hc := hs.chars c (List.mem_cons_self ..)
      rw [List.cons_append, List.dropWhile_cons, if_neg (hneg hc.isSlash_eq)]
      rfl

theorem isGraphic_text (h : l.IsNormal) : IsGraphic l.text :=
  isGraphic_append (isGraphic_segmentsText h.segments) h.isGraphic_tail

theorem isGraphic_rootlessText {segments : List (List Char)} (hsegments : ∀ s ∈ segments, IsSegment s)
    (h : l.IsNormal) : IsGraphic (rootlessText segments l.tail) := by
  cases segments with
  | nil => exact h.isGraphic_tail
  | cons s rest =>
    obtain ⟨hs, hrest⟩ := List.forall_mem_cons.1 hsegments
    exact isGraphic_append hs.isGraphic (isGraphic_append (isGraphic_segmentsText hrest)
      h.isGraphic_tail)

theorem isSegment_of_mem_dropWhile (h : l.IsNormal) {s : List Char}
    (hs : s ∈ l.path.dropWhile List.isEmpty) : IsSegment s :=
  h.segments s ((List.dropWhile_sublist _).subset hs)

/-- **What is left of a URL on the stand-in**, by the way the request begins. -/
theorem cleaned_withoutStandIn (hsame : (l.under u).sameOrigin standIn = true) (h : l.IsNormal)
    (request : String) :
    cleaned (withoutStandIn request (l.under u)) =
      if request.toList.head? = some '/' then l.text
      else rootlessText (l.path.dropWhile List.isEmpty) l.tail := by
  rw [withoutStandIn, if_pos hsame, Location.referenceText_under]
  split
  · next heq =>
    rw [heq, List.head?_cons, if_pos rfl]
    exact cleaned_ofList (isGraphic_text h)
  · next hne =>
    have hslash : request.toList.head? ≠ some '/' := by
      intro hslash
      obtain ⟨r, hr⟩ := List.head?_eq_some_iff.1 hslash
      exact hne r hr
    have hdrop : l.text.dropWhile (· == '/') =
        rootlessText (l.path.dropWhile List.isEmpty) l.tail :=
      dropWhile_segmentsText rfl (fun c hc => by rw [isSlash, hc, Bool.true_or]) h.segments
        l.isPathless_tail
    rw [if_neg hslash, hdrop]
    exact cleaned_ofList (isGraphic_rootlessText (fun _ hs => isSegment_of_mem_dropWhile h hs) h)

/-- **A relative next link.** -/
theorem nextLink_of_isReference (hrequest : IsReference request) (hlink : IsReference link) :
    nextLink request link = (join standIn request >>= fun page => join page link) >>= fun page =>
      .ok (withoutStandIn request page) := by
  rw [nextLink, ofText_eq_relativeWithoutBase.2 hlink, ofText_eq_relativeWithoutBase.2 hrequest]
  dsimp only
  rw [bind_assoc]

/-! ## Requests and links without a host -/

section Hostless

variable (hrequest : IsReference request) (hlink : IsReference link)
  (hrequestHost : namesHost (cleaned request) = false) (hlinkHost : namesHost (cleaned link) = false)

include hrequest hlink hrequestHost hlinkHost

theorem join_join (hkind : schemeKind u.scheme = .special) (l : Location) :
    (join (l.under u) request >>= fun page => join page link) =
      .ok (((l.resolve (cleaned request)).resolve (cleaned link)).under u) := by
  rw [join_under hkind hrequest hrequestHost]
  exact join_under hkind hlink hlinkHost _

theorem nextLink_eq :
    nextLink request link = .ok (withoutStandIn request ((reached request link).under standIn)) := by
  have hroot : standIn = Location.root.under standIn := rfl
  rw [nextLink_of_isReference hrequest hlink, hroot,
    join_join hrequest hlink hrequestHost hlinkHost (by decide)]
  rfl

end Hostless

/-- When the result for a request and a link without a host does not depend on the base. -/
inductive IsPortable (request link next : String) : Prop
  /-- The request begins with a slash, and the result does not begin with two. -/
  | rooted (hrequest : request.toList.head? = some '/') 
      (hnext : namesHost (cleaned next) = false)
  /-- Neither the request nor the link has a path. -/
  | pathless (hrequest : isPathless (cleaned request) = true)
      (hlink : isPathless (cleaned link) = true)
  /-- Neither leaves the directory it is resolved in, the first segment of the path is not empty,
  and it is not taken for a scheme. -/
  | inside (hrequest : Location.root.leaves (cleaned request) = false)
      (hlink : (Location.root.resolve (cleaned request)).leaves (cleaned link) = false)
      (hfirst : (reached request link).path.head? ≠ some []) (hnext : IsReference next)

theorem isRooted_cleaned (h : request.toList.head? = some '/') :
    isRooted (cleaned request) = true := by
  obtain ⟨r, hr⟩ := List.head?_eq_some_iff.1 h
  have hgraphic : IsGraphic ['/'] := isGraphic_cons (by decide) nofun
  obtain ⟨r', hcleaned⟩ := exists_cleaned_append hgraphic (List.cons_ne_nil _ _) r
  rw [List.singleton_append, ← hr, String.ofList_toList] at hcleaned
  rw [hcleaned]
  rfl

theorem head?_ne_slash (h : ¬isRooted (cleaned request) = true) :
    request.toList.head? ≠ some '/' :=
  fun hslash => h (isRooted_cleaned hslash)

/-- Without a path in the request and the link, the path is that of the host. -/
theorem path_reached (h : isPathless (cleaned request) = true)
    (h' : isPathless (cleaned link) = true) : (reached request link).path = [[]] := by
  rw [reached, Location.resolve_of_isPathless h', Location.resolve_of_isPathless h]
  rfl

/-- The path of a location is its first segment, which is not empty, and the others. -/
theorem Location.IsNormal.dropWhile_path (h : l.IsNormal) (hfirst : l.path.head? ≠ some []) :
    ∃ s rest, l.path.dropWhile List.isEmpty = s :: rest ∧ l.path = s :: rest ∧ s ≠ [] := by
  cases hpath : l.path with
  | nil => exact absurd hpath h.path_ne_nil
  | cons s rest =>
    have hs : s ≠ [] := by
      rintro rfl
      exact hfirst (by rw [hpath]; rfl)
    refine ⟨s, rest, ?_, rfl, hs⟩
    rw [List.dropWhile_cons, if_neg (by simpa using hs)]

theorem readScheme?_of_not_isAlpha {cs : List Char} (h : cs.head?.all fun c => !c.isAlpha) :
    readScheme? cs = none := by
  cases cs with
  | nil => rfl
  | cons c r =>
    have hc : c.isAlpha = false := by simpa using h
    rw [readScheme?, hc]
    rfl

theorem readScheme?_of_isPathless {cs : List Char} (h : isPathless cs = true) :
    readScheme? cs = none := by
  refine readScheme?_of_not_isAlpha ?_
  cases cs with
  | nil => rfl
  | cons c r => rcases isPathless_cons.1 h with rfl | rfl <;> rfl

theorem readScheme?_of_isRooted {cs : List Char} (h : isRooted cs = true) :
    readScheme? cs = none := by
  refine readScheme?_of_not_isAlpha ?_
  cases cs with
  | nil => rfl
  | cons c r =>
    have hc : c = '/' ∨ c = '\\' := by simpa [isRooted, isSlash] using h
    rcases hc with rfl | rfl <;> rfl

theorem isRooted_text (h : l.IsNormal) : isRooted l.text = true := by
  cases hpath : l.path with
  | nil => exact absurd hpath h.path_ne_nil
  | cons s rest =>
    rw [Location.text, hpath, segmentsText_cons]
    rfl

theorem isRooted_append_of_isSegment {segment : List Char} (h : IsSegment segment)
    (hne : segment ≠ []) (r : List Char) : isRooted (segment ++ r) = false := by
  cases segment with
  | nil => exact absurd rfl hne
  | cons c rest => exact (h.chars c (List.mem_cons_self ..)).isSlash_eq

section Hostless

variable (hrequest : IsReference request) (hlink : IsReference link)
  (hrequestHost : namesHost (cleaned request) = false) (hlinkHost : namesHost (cleaned link) = false)
  (h : nextLink request link = .ok next)

include hrequest hlink hrequestHost hlinkHost h

theorem cleaned_next :
    cleaned next = if request.toList.head? = some '/' then (reached request link).text
      else rootlessText ((reached request link).path.dropWhile List.isEmpty)
        (reached request link).tail := by
  have hsame : ((reached request link).under standIn).sameOrigin standIn = true := by
    show standIn.sameOrigin standIn = true
    decide
  rw [nextLink_eq hrequest hlink hrequestHost hlinkHost] at h
  rw [← Except.ok.inj h, cleaned_withoutStandIn hsame (isNormal_reached request link)]

omit h in
/-- A next link that is a reference without a host is resolved behind the host as it would be
anywhere. -/
theorem leadsOn_of_resolve (hnext : IsReference next) (hnextHost : namesHost (cleaned next) = false)
    (hresolve : ∀ m : Location,
      m.resolve (cleaned next) = (m.resolve (cleaned request)).resolve (cleaned link)) :
    LeadsOn request link next := by
  intro base u hbase hweb
  obtain ⟨m, hu⟩ := exists_location hweb.schemeKind_eq hbase
  rw [hu, join_join hrequest hlink hrequestHost hlinkHost hweb.schemeKind_eq m,
    join_under hweb.schemeKind_eq hnext hnextHost m, hresolve m]

theorem leadsOn_of_rooted (hslash : request.toList.head? = some '/')
    (hhost : namesHost (cleaned next) = false) : LeadsOn request link next := by
  have hnormal := isNormal_reached request link
  have hnext := cleaned_next hrequest hlink hrequestHost hlinkHost h
  rw [if_pos hslash] at hnext
  refine leadsOn_of_resolve hrequest hlink hrequestHost hlinkHost ?_ hhost fun m => ?_
  · rw [IsReference, hnext]
    exact readScheme?_of_isRooted (isRooted_text hnormal)
  · rw [hnext, Location.resolve_text hnormal, reached,
      Location.resolve_of_isRooted (isRooted_cleaned hslash),
      Location.resolve_of_isRooted (isRooted_cleaned hslash)]

theorem leadsOn_of_pathless (hpath : isPathless (cleaned request) = true)
    (hpath' : isPathless (cleaned link) = true) : LeadsOn request link next := by
  have hpathless := (reached request link).isPathless_tail
  have hslash := head?_ne_slash (Bool.eq_false_iff.1 (isRooted_of_isPathless hpath))
  have htail : cleaned next = (reached request link).tail := by
    rw [cleaned_next hrequest hlink hrequestHost hlinkHost h, if_neg hslash,
      path_reached hpath hpath']
    rfl
  refine leadsOn_of_resolve hrequest hlink hrequestHost hlinkHost ?_ ?_ fun m => ?_
  · rw [IsReference, htail]
    exact readScheme?_of_isPathless hpathless
  · rw [htail, namesHost, isRooted_of_isPathless hpathless, Bool.false_and]
  · rw [htail, reached, ← Location.resolve_resolve_of_isPathless hpath hpath']

theorem leadsOn_of_inside (hleaves : Location.root.leaves (cleaned request) = false)
    (hleaves' : (Location.root.resolve (cleaned request)).leaves (cleaned link) = false)
    (hfirst : (reached request link).path.head? ≠ some []) (hreference : IsReference next) :
    LeadsOn request link next := by
  have hnormal := isNormal_reached request link
  have hslash : request.toList.head? ≠ some '/' := by
    rcases Location.leaves_eq_false.1 hleaves with hpath | ⟨hrooted, -⟩
    · exact head?_ne_slash (Bool.eq_false_iff.1 (isRooted_of_isPathless hpath))
    · exact head?_ne_slash hrooted
  obtain ⟨s, rest, hdrop, hpath, hs⟩ := hnormal.dropWhile_path hfirst
  obtain ⟨hsegment, hsegments⟩ := List.forall_mem_cons.1 (hpath ▸ hnormal.segments)
  have htext : cleaned next = s ++ (segmentsText rest ++ (reached request link).tail) := by
    rw [cleaned_next hrequest hlink hrequestHost hlinkHost h, if_neg hslash, hdrop]
    rfl
  have hsome : ¬(isPathless (cleaned request) = true ∧ isPathless (cleaned link) = true) := by
    rintro ⟨hrequest, hlink⟩
    exact hfirst (by rw [path_reached hrequest hlink]; rfl)
  refine leadsOn_of_resolve hrequest hlink hrequestHost hlinkHost hreference ?_ fun m => ?_
  · rw [htext, namesHost, isRooted_append_of_isSegment hsegment hs, Bool.false_and]
  · rw [htext, Location.resolve_segments hnormal hsegment hs hsegments,
      (Location.isBelow_root m).resolve_resolve hsome hleaves hleaves', ← hpath]
    rfl

/-- **What is portable leads on behind every base.** -/
theorem leadsOn_of_isPortable (hportable : IsPortable request link next) :
    LeadsOn request link next := by
  cases hportable with
  | rooted hslash hhost =>
    exact leadsOn_of_rooted hrequest hlink hrequestHost hlinkHost h hslash hhost
  | pathless hpath hpath' =>
    exact leadsOn_of_pathless hrequest hlink hrequestHost hlinkHost h hpath hpath'
  | inside hleaves hleaves' hfirst hreference =>
    exact leadsOn_of_inside hrequest hlink hrequestHost hlinkHost h hleaves hleaves' hfirst
      hreference

end Hostless

/-! ## Bases that tell results apart -/

/-- A location two segments below its host. -/
def twoDeep : Location := ⟨[['a'], ['b']], none, none⟩

/-- A URL two segments below a host. -/
def sample (scheme host : List Char) : Url :=
  twoDeep.under ⟨scheme, some ⟨[], .name host, none⟩, .segments [], none, none⟩

theorem ofText_sample :
    ofText "http://h/a/b" = .ok (sample "http".toList ['h']) ∧
      ofText "https://h/a/b" = .ok (sample "https".toList ['h']) ∧
      ofText "https://g/a/b" = .ok (sample "https".toList ['g']) := by
  decide

theorem isWeb_sample (host : List Char) :
    IsWeb (sample "http".toList host) ∧ IsWeb (sample "https".toList host) :=
  ⟨.inl rfl, .inr rfl⟩

theorem dropWhile_isEmpty_cases (segments : List (List Char)) :
    segments.dropWhile List.isEmpty = [] ∨
      ∃ s rest, segments.dropWhile List.isEmpty = s :: rest ∧ s ≠ [] := by
  induction segments with
  | nil => exact .inl rfl
  | cons s rest ih =>
    cases s with
    | nil => exact ih
    | cons c s' => exact .inr ⟨c :: s', rest, rfl, List.cons_ne_nil _ _⟩

/-- The path that a next link without a slash in front leads to from two segments below a host. -/
def rebased (path : List (List Char)) : List (List Char) :=
  if path.dropWhile List.isEmpty = [] then [['a'], ['b']]
  else ['a'] :: path.dropWhile List.isEmpty

theorem resolve_rootlessText (h : l.IsNormal) :
    namesHost (rootlessText (l.path.dropWhile List.isEmpty) l.tail) = false ∧
      (twoDeep.resolve (rootlessText (l.path.dropWhile List.isEmpty) l.tail)).path =
        rebased l.path := by
  rcases dropWhile_isEmpty_cases l.path with hdrop | ⟨s, rest, hdrop, hs⟩
  · rw [rebased, hdrop, if_pos rfl, rootlessText, Location.resolve_tail h, namesHost,
      isRooted_of_isPathless l.isPathless_tail]
    exact ⟨rfl, rfl⟩
  · have hsegments : ∀ t ∈ s :: rest, IsSegment t :=
      fun t ht => isSegment_of_mem_dropWhile h (hdrop ▸ ht)
    obtain ⟨hsegment, hrest⟩ := List.forall_mem_cons.1 hsegments
    rw [rebased, hdrop, if_neg (List.cons_ne_nil _ _), rootlessText,
      Location.resolve_segments h hsegment hs hrest, namesHost,
      isRooted_append_of_isSegment hsegment hs]
    exact ⟨rfl, rfl⟩

/-- That is never the path itself, which is where a reference leads that leaves its directory. -/
theorem rebased_ne (path : List (List Char)) : rebased path ≠ path := by
  rw [rebased]
  cases path with
  | nil => exact List.cons_ne_nil _ _
  | cons s rest =>
    cases s with
    | nil => split <;> exact fun h => absurd (List.cons.inj h).1 (List.cons_ne_nil _ _)
    | cons c s' =>
      have hdrop : ((c :: s') :: rest).dropWhile List.isEmpty = (c :: s') :: rest := rfl
      rw [hdrop, if_neg (List.cons_ne_nil _ _)]
      exact fun h => absurd (congrArg List.length h) (by simp)

/-- Nor is it the path below the directory, which is where any other leads, if the path begins with an
empty segment. -/
theorem rebased_ne_cons {path : List (List Char)} (hfirst : path.head? = some []) :
    rebased path ≠ ['a'] :: path := by
  obtain ⟨rest, rfl⟩ := List.head?_eq_some_iff.1 hfirst
  have hdrop : ([] :: rest).dropWhile List.isEmpty = rest.dropWhile List.isEmpty := rfl
  have hlength : (rest.dropWhile List.isEmpty).length ≤ rest.length :=
    (List.dropWhile_sublist _).length_le
  rw [rebased, hdrop]
  split
  · exact fun h => absurd (List.cons.inj (List.cons.inj h).2).1 (List.cons_ne_nil _ _)
  · intro h
    have hrest := congrArg List.length (List.cons.inj h).2
    rw [List.length_cons] at hrest
    omega

section Hostless

variable (hrequest : IsReference request) (hlink : IsReference link)
  (hrequestHost : namesHost (cleaned request) = false) (hlinkHost : namesHost (cleaned link) = false)
  (h : nextLink request link = .ok next) (hleads : LeadsOn request link next)

include hrequest hlink hrequestHost hlinkHost hleads

/-- What leads on leads there from two segments below a host. -/
theorem join_sample {base : String} {scheme host : List Char}
    (hbase : ofText base = .ok (sample scheme host)) (hweb : IsWeb (sample scheme host)) :
    join (sample scheme host) next =
      .ok (((twoDeep.resolve (cleaned request)).resolve (cleaned link)).under
        (sample scheme host)) := by
  rw [hleads base _ hbase hweb]
  exact join_join hrequest hlink hrequestHost hlinkHost hweb.schemeKind_eq twoDeep

theorem isReference_next : IsReference next := by
  obtain ⟨hhttp, hhttps, -⟩ := ofText_sample
  obtain ⟨hweb, hweb'⟩ := isWeb_sample ['h']
  cases hs : readScheme? (cleaned next) with
  | none => exact hs
  | some p =>
    obtain ⟨scheme, r⟩ := p
    -- A base of another scheme than the one that the result seems to have.
    have hne {base : String} {scheme' : List Char}
        (hbase : ofText base = .ok (sample scheme' ['h'])) (hweb : IsWeb (sample scheme' ['h'])) :
        scheme' = scheme := by
      refine Decidable.byContradiction fun hne => hne ?_
      exact scheme_of_join hs hweb.schemeKind_eq hne
        (join_sample hrequest hlink hrequestHost hlinkHost hleads hbase hweb)
    exact absurd ((hne hhttp hweb).trans (hne hhttps hweb').symm) (by decide)

/-- A result with a host leads to that host from two others. -/
theorem namesHost_next : namesHost (cleaned next) = false := by
  obtain ⟨-, hbase, hbase'⟩ := ofText_sample
  have hreference := isReference_next hrequest hlink hrequestHost hlinkHost hleads
  have hjoin := join_sample hrequest hlink hrequestHost hlinkHost hleads hbase (isWeb_sample _).2
  have hjoin' := join_sample hrequest hlink hrequestHost hlinkHost hleads hbase' (isWeb_sample _).2
  refine Bool.eq_false_iff.2 fun hhost => ?_
  have hread (host : List Char) : join (sample "https".toList host) next =
      readAfterSlashes "https".toList (hostOnward (cleaned next)) :=
    join_of_namesHost (isWeb_sample host).2.schemeKind_eq hreference hhost twoDeep
  have hsame := (hjoin.symm.trans (hread ['h'])).trans ((hread ['g']).symm.trans hjoin')
  have hauthority : some (⟨[], .name ['h'], none⟩ : Authority) = some ⟨[], .name ['g'], none⟩ :=
    congrArg Url.authority (Except.ok.inj hsame)
  exact absurd hauthority (by decide)

include h

/-- **What leads on behind every base is portable.** -/
theorem isPortable_of_leadsOn : IsPortable request link next := by
  obtain ⟨-, hbase, -⟩ := ofText_sample
  have hnormal := isNormal_reached request link
  have hnext := cleaned_next hrequest hlink hrequestHost hlinkHost h
  have hreference := isReference_next hrequest hlink hrequestHost hlinkHost hleads
  have hhost := namesHost_next hrequest hlink hrequestHost hlinkHost hleads
  have hjoin := join_sample hrequest hlink hrequestHost hlinkHost hleads hbase (isWeb_sample _).2
  by_cases hslash : request.toList.head? = some '/'
  · exact .rooted hslash hhost
  rw [if_neg hslash] at hnext
  by_cases hpath : isPathless (cleaned request) = true ∧ isPathless (cleaned link) = true
  · exact .pathless hpath.1 hpath.2
  have hresolved := (resolve_rootlessText hnormal).2
  rw [← hnext] at hresolved
  have hpaths : rebased (reached request link).path =
      ((twoDeep.resolve (cleaned request)).resolve (cleaned link)).path := by
    have hread := join_under (isWeb_sample ['h']).2.schemeKind_eq hreference hhost twoDeep
    have hsame := congrArg Url.path (Except.ok.inj (hread.symm.trans hjoin))
    exact hresolved.symm.trans (UrlPath.segments.inj hsame)
  by_cases hleaves : Location.root.leaves (cleaned request) = false ∧
      (Location.root.resolve (cleaned request)).leaves (cleaned link) = false
  · refine .inside hleaves.1 hleaves.2 (fun hfirst => ?_) hreference
    rw [(Location.isBelow_root twoDeep).resolve_resolve hpath hleaves.1 hleaves.2] at hpaths
    exact rebased_ne_cons hfirst hpaths
  · rw [(Location.isBelow_root twoDeep).resolve_resolve_of_leaves (by decide) hleaves] at hpaths
    exact absurd hpaths (rebased_ne _)

end Hostless

end EntityQuery.Url
