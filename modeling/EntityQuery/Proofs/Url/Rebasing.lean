import EntityQuery.Proofs.Url.NextLink

/-!
# Next links between hosts

A request or a link may name a host and leave the scheme to its base.  The result then never leads on
behind every base (`not_leadsOn_of_namesHost`): a URL that leaves the stand-in is written with the
scheme of the stand-in, which is wrong below the other one, and a URL that comes back to the stand-in
loses a host that no base but one has.

With that the condition is exact for all relative requests and links.
-/

set_option autoImplicit false

namespace EntityQuery.Url

variable {request link next : String} {s : String} {scheme cs r : List Char} {u v : Url}
  {l : Location}

/-! ## URLs with a host -/

/-- A URL of a scheme, with a host and a location that has been read. -/
def IsHosted (scheme : List Char) (u : Url) : Prop :=
  ∃ (authority : Authority) (l : Location),
    l.IsNormal ∧ u = l.under ⟨scheme, some authority, .segments [], none, none⟩

theorem isHosted_standIn : IsHosted "http".toList standIn :=
  ⟨_, Location.root, Location.isNormal_root, rfl⟩

theorem isHosted_sample (scheme host : List Char) : IsHosted scheme (sample scheme host) := by
  refine ⟨_, twoDeep, ⟨List.cons_ne_nil _ _, ?_, nofun, nofun⟩, rfl⟩
  refine List.forall_mem_cons.2 ⟨?_, List.forall_mem_singleton.2 ?_⟩
  · exact ⟨List.forall_mem_singleton.2 (by decide), by decide, by decide⟩
  · exact ⟨List.forall_mem_singleton.2 (by decide), by decide, by decide⟩

theorem IsHosted.scheme_eq (h : IsHosted scheme u) : u.scheme = scheme := by
  obtain ⟨authority, l, -, rfl⟩ := h
  rfl

theorem isHosted_of_readAfterSlashes (hkind : schemeKind scheme = .special)
    (h : readAfterSlashes scheme cs = .ok v) : IsHosted scheme v := by
  obtain ⟨authority, hv⟩ := exists_of_readAfterSlashes hkind h
  exact ⟨authority, _, Location.isNormal_start _, hv⟩

/-- What a reference leads to is of the scheme of its base and has a host. -/
theorem IsHosted.join (hu : IsHosted scheme u) (hkind : schemeKind scheme = .special)
    (hs : IsReference s) (h : join u s = .ok v) : IsHosted scheme v := by
  obtain ⟨authority, l, hnormal, rfl⟩ := hu
  by_cases hhost : namesHost (cleaned s) = true
  · rw [join_of_namesHost hkind hs hhost] at h
    exact isHosted_of_readAfterSlashes hkind h
  · rw [join_under hkind hs (Bool.eq_false_iff.2 hhost)] at h
    rw [← Except.ok.inj h]
    exact ⟨authority, _, hnormal.resolve _, rfl⟩

/-- **Where a host is named, nothing but the scheme of the base counts.** -/
theorem join_join_of_namesHost (hkind : schemeKind scheme = .special)
    (hrequest : IsReference request) (hlink : IsReference link)
    (hhost : namesHost (cleaned request) = true ∨ namesHost (cleaned link) = true)
    {u u' : Url} (hu : IsHosted scheme u) (hu' : IsHosted scheme u') :
    (join u request >>= fun page => join page link) =
      join u' request >>= fun page => join page link := by
  obtain ⟨authority, l, -, rfl⟩ := hu
  obtain ⟨authority', l', -, rfl⟩ := hu'
  have hread {s : String} (hs : IsReference s) (hhost : namesHost (cleaned s) = true)
      (a : Authority) (m : Location) :
      join (m.under ⟨scheme, some a, .segments [], none, none⟩) s =
        readAfterSlashes scheme (hostOnward (cleaned s)) :=
    join_of_namesHost (u := ⟨scheme, some a, .segments [], none, none⟩) hkind hs hhost m
  by_cases hfirst : namesHost (cleaned request) = true
  · rw [hread hrequest hfirst, hread hrequest hfirst]
  · have hstay (a : Authority) (m : Location) :
        join (m.under ⟨scheme, some a, .segments [], none, none⟩) request =
          .ok ((m.resolve (cleaned request)).under ⟨scheme, some a, .segments [], none, none⟩) :=
      join_under (u := ⟨scheme, some a, .segments [], none, none⟩) hkind hrequest
        (Bool.eq_false_iff.2 hfirst) m
    have hsecond := hread hlink (hhost.resolve_left hfirst)
    rw [hstay, hstay]
    dsimp only [bind, Except.bind]
    rw [hsecond, hsecond]

/-! ## The host of a text that came back to the stand-in -/

theorem dropWhile_endsAuthority (hcs : isPathless cs = true ∨ isRooted cs = true) :
    (cs.dropWhile fun c => !endsAuthority .special c) = cs := by
  cases cs with
  | nil => rfl
  | cons c r =>
    have hc : endsAuthority .special c = true := by
      rcases hcs with h | h
      · rcases isPathless_cons.1 h with rfl | rfl <;> decide
      · have hslash : c = '/' ∨ c = '\\' := by simpa [isRooted, isSlash] using h
        rcases hslash with rfl | rfl <;> decide
    rw [List.dropWhile_cons, hc]
    rfl

theorem isPathless_or_isRooted (segments : List (List Char)) (l : Location) :
    isPathless (segmentsText segments ++ l.tail) = true ∨
      isRooted (segmentsText segments ++ l.tail) = true := by
  cases segments with
  | nil => exact .inl l.isPathless_tail
  | cons s rest =>
    rw [segmentsText_cons]
    exact .inr rfl

/-- **A path that is read behind a host has lost the segment that the host was read from.** -/
theorem path_of_readAfterSlashes (hkind : schemeKind scheme = .special)
    {segments : List (List Char)} (hsegments : ∀ s ∈ segments, IsSegment s) {m : Location}
    {authority : Authority}
    (h : readAfterSlashes scheme (rootlessText segments l.tail) =
      .ok (m.under ⟨scheme, some authority, .segments [], none, none⟩)) :
    m.path = if segments.tail = [] then [[]] else segments.tail := by
  have hdrop : ((rootlessText segments l.tail).dropWhile fun c => !endsAuthority .special c) =
      segmentsText segments.tail ++ l.tail := by
    cases segments with
    | nil => exact dropWhile_endsAuthority (.inl l.isPathless_tail)
    | cons s rest =>
      have hs := (List.forall_mem_cons.1 hsegments).1
      have hchars : ∀ c ∈ s, (!endsAuthority .special c) = true := by
        intro c hc
        have hmarks := not_or.1 (hs.chars c hc).not_mark
        have hslash := (hs.chars c hc).2.2
        rw [endsSegment, Bool.or_eq_false_iff] at hslash
        rw [endsAuthority, hslash.1, beq_eq_false_iff_ne.2 hmarks.1,
          beq_eq_false_iff_ne.2 hmarks.2, hslash.2]
        rfl
      rw [rootlessText, List.dropWhile_append_of_pos hchars,
        dropWhile_endsAuthority (isPathless_or_isRooted rest l)]
      rfl
  obtain ⟨authority', hv⟩ := exists_of_readAfterSlashes hkind h
  have hpath := UrlPath.segments.inj (congrArg Url.path hv)
  rw [hdrop] at hpath
  rw [hpath, Location.path_start (fun s hs => hsegments s (List.mem_of_mem_tail hs))
    l.isPathless_tail]

/-- **A text of fewer segments is not read as the location it was taken from.** -/
theorem readAfterSlashes_ne_under (hkind : schemeKind scheme = .special)
    {segments : List (List Char)} (hsegments : ∀ s ∈ segments, IsSegment s)
    (hlength : segments.length < l.path.length) (hlong : 1 < l.path.length)
    (authority : Authority) :
    readAfterSlashes scheme (rootlessText segments l.tail) ≠
      .ok (l.under ⟨scheme, some authority, .segments [], none, none⟩) := by
  intro h
  have hpath := congrArg List.length (path_of_readAfterSlashes hkind hsegments h)
  split at hpath
  · rw [List.length_singleton] at hpath
    omega
  · rw [List.length_tail] at hpath
    omega

/-- The text of a location that is taken for a host, and the segments the host is read from. -/
theorem exists_of_namesHost_text (h : l.IsNormal) (hhost : namesHost l.text = true) :
    ∃ s rest, l.path = [] :: s :: rest ∧
      hostOnward l.text = rootlessText (s :: rest) l.tail := by
  have hrooted : isRooted l.text.tail = true := by
    rw [namesHost, Bool.and_eq_true] at hhost
    exact hhost.2
  cases hpath : l.path with
  | nil => exact absurd hpath h.path_ne_nil
  | cons first rest =>
    have hfirst := (List.forall_mem_cons.1 (hpath ▸ h.segments)).1
    have htext : l.text = '/' :: (first ++ (segmentsText rest ++ l.tail)) := by
      rw [Location.text, hpath, segmentsText_cons]
    rw [htext, List.tail_cons] at hrooted
    by_cases hempty : first = []
    · obtain rfl := hempty
      cases rest with
      | nil =>
        rw [List.nil_append, segmentsText, List.flatMap_nil, List.nil_append,
          isRooted_of_isPathless l.isPathless_tail] at hrooted
        cases hrooted
      | cons s rest =>
        refine ⟨s, rest, rfl, ?_⟩
        rw [htext, List.nil_append, segmentsText_cons]
        rfl
    · rw [isRooted_append_of_isSegment hfirst hempty] at hrooted
      cases hrooted

/-- A scheme with a host behind it ends with the segment it is read from. -/
theorem eq_of_readScheme? {segment : List Char} (hsegment : IsSegment segment)
    (hcs : isPathless cs = true ∨ isRooted cs = true)
    (h : readScheme? (segment ++ cs) = some (scheme, r)) (hr : namesHost r = true) : r = cs := by
  cases hcons : segment ++ cs with
  | nil =>
    rw [hcons] at h
    cases h
  | cons c rest =>
    rw [hcons, readScheme?] at h
    split at h
    · split at h
      · next heq =>
        obtain ⟨-, rfl⟩ := Prod.mk.inj (Option.some.inj h)
        rw [← hcons, List.dropWhile_append] at heq
        split at heq
        · -- All of the segment would belong to the scheme, and what follows has no colon.
          cases cs with
          | nil => cases heq
          | cons d r' =>
            have hd : d = '/' ∨ d = '\\' ∨ d = '?' ∨ d = '#' := by
              rcases hcs with h | h
              · exact .inr (.inr (isPathless_cons.1 h))
              · have hslash : d = '/' ∨ d = '\\' := by simpa [isRooted, isSlash] using h
                exact hslash.elim .inl (.inr ∘ .inl)
            rcases hd with rfl | rfl | rfl | rfl <;>
              exact absurd (List.cons.inj heq).1 (by decide)
        · next hne =>
          obtain ⟨d, r', hdrop⟩ := List.exists_cons_of_ne_nil (mt List.isEmpty_iff.2 hne)
          have hsuffix := hdrop ▸ List.dropWhile_suffix _ (l := segment)
          rw [hdrop] at heq
          obtain ⟨rfl, rfl⟩ := List.cons.inj heq
          cases r' with
          | nil => rfl
          | cons d r' =>
            have hd := (hsegment.chars d (hsuffix.subset (by simp))).isSlash_eq
            have hrooted : isRooted (d :: r' ++ cs) = true := (Bool.and_eq_true_iff.1 hr).1
            exact absurd hrooted (Bool.eq_false_iff.1 hd)
      · cases h
    · cases h

/-- The text of a location that is taken for a scheme with a host behind it, and the segments the
host is read from. -/
theorem exists_of_readScheme?_rootlessText (h : l.IsNormal)
    (hs : readScheme? (rootlessText (l.path.dropWhile List.isEmpty) l.tail) = some (scheme, r))
    (hr : namesHost r = true) :
    ∃ s rest, l.path.dropWhile List.isEmpty = s :: rest ∧ rest ≠ [] ∧
      r.dropWhile isSlash = rootlessText (rest.dropWhile List.isEmpty) l.tail := by
  cases hdrop : l.path.dropWhile List.isEmpty with
  | nil =>
    rw [hdrop, rootlessText, readScheme?_of_isPathless l.isPathless_tail] at hs
    cases hs
  | cons s rest =>
    have hsegments : ∀ t ∈ s :: rest, IsSegment t :=
      fun t ht => isSegment_of_mem_dropWhile h (hdrop ▸ ht)
    obtain ⟨hsegment, hrest⟩ := List.forall_mem_cons.1 hsegments
    rw [hdrop] at hs
    have hr' := eq_of_readScheme? hsegment (isPathless_or_isRooted rest l) hs hr
    refine ⟨s, rest, rfl, ?_, ?_⟩
    · rintro rfl
      rw [hr', segmentsText, List.flatMap_nil, List.nil_append, namesHost,
        isRooted_of_isPathless l.isPathless_tail] at hr
      cases hr
    · rw [hr', dropWhile_segmentsText rfl (fun _ hc => hc) hrest l.isPathless_tail]

/-! ## What a named host does to a next link -/

section StandIn

variable {authority : Authority}

theorem under_sample_ne (hhost : authority.host = .name "relative.invalid".toList)
    (l m : Location) :
    (.ok (m.under (sample "http".toList ['h'])) : Except UrlFault Url) ≠
      .ok (l.under ⟨"http".toList, some authority, .segments [], none, none⟩) := by
  intro h
  have hauthority : some ⟨[], .name ['h'], none⟩ = some authority :=
    congrArg Url.authority (Except.ok.inj h)
  rw [← Option.some.inj hauthority] at hhost
  exact absurd hhost (by decide)

variable (h : l.IsNormal) (hhost : authority.host = .name "relative.invalid".toList)
  (hnext : cleaned next = l.text ∨
    cleaned next = rootlessText (l.path.dropWhile List.isEmpty) l.tail)

include h hhost hnext

theorem join_sample_ne_of_isReference (hs : IsReference next) :
    join (sample "http".toList ['h']) next ≠
      .ok (l.under ⟨"http".toList, some authority, .segments [], none, none⟩) := by
  intro hjoin
  have hkind : schemeKind (sample "http".toList ['h']).scheme = .special := by decide
  by_cases hnames : namesHost (cleaned next) = true
  · have hread : readAfterSlashes "http".toList (hostOnward (cleaned next)) = .ok _ :=
      (join_of_namesHost hkind hs hnames twoDeep).symm.trans hjoin
    have htext : cleaned next = l.text := by
      refine hnext.resolve_right fun htext => ?_
      rw [htext, (resolve_rootlessText h).1] at hnames
      cases hnames
    rw [htext] at hnames hread
    obtain ⟨s, rest, hpath, honward⟩ := exists_of_namesHost_text h hnames
    rw [honward] at hread
    refine readAfterSlashes_ne_under hkind (fun t ht => ?_) ?_ ?_ authority hread
    · exact h.segments t (hpath ▸ List.mem_cons_of_mem _ ht)
    · rw [hpath]
      exact Nat.lt_succ_self _
    · rw [hpath, List.length_cons, List.length_cons]
      omega
  · have hread := join_under hkind hs (Bool.eq_false_iff.2 hnames) twoDeep
    exact under_sample_ne hhost l _ (hread.symm.trans hjoin)

theorem join_sample_ne_of_scheme (hs : readScheme? (cleaned next) = some (scheme, r)) :
    join (sample "http".toList ['h']) next ≠
      .ok (l.under ⟨"http".toList, some authority, .segments [], none, none⟩) := by
  intro hjoin
  have hkind : schemeKind (sample "http".toList ['h']).scheme = .special := by decide
  have hscheme : (sample "http".toList ['h']).scheme = scheme := by
    refine Decidable.byContradiction fun hne => ?_
    have hkept := scheme_of_join hs hkind hne hjoin
    exact hne hkept
  by_cases hnames : namesHost r = true
  · have hread : readAfterSlashes "http".toList (r.dropWhile isSlash) = .ok _ :=
      (join_of_scheme_of_namesHost (hscheme ▸ hs) hkind hnames _).symm.trans hjoin
    have htext : cleaned next = rootlessText (l.path.dropWhile List.isEmpty) l.tail := by
      refine hnext.resolve_left fun htext => ?_
      rw [htext, readScheme?_of_isRooted (isRooted_text h)] at hs
      cases hs
    rw [htext] at hs
    obtain ⟨s, rest, hdrop, hne, honward⟩ := exists_of_readScheme?_rootlessText h hs hnames
    have hlength := (List.dropWhile_sublist List.isEmpty (l := l.path)).length_le
    have hlength' := (List.dropWhile_sublist List.isEmpty (l := rest)).length_le
    have hpos := List.length_pos_iff.2 hne
    rw [hdrop, List.length_cons] at hlength
    rw [honward] at hread
    refine readAfterSlashes_ne_under hkind (fun t ht => ?_) (by omega) (by omega) authority hread
    exact isSegment_of_mem_dropWhile h
      (hdrop ▸ List.mem_cons_of_mem _ ((List.dropWhile_sublist _).subset ht))
  · have hread := join_of_same_scheme (hscheme ▸ hs) hkind (Bool.eq_false_iff.2 hnames) twoDeep
    exact under_sample_ne hhost l _ (hread.symm.trans hjoin)

/-- **A location on the stand-in is not where its own text leads from another host.** -/
theorem join_sample_ne :
    join (sample "http".toList ['h']) next ≠
      .ok (l.under ⟨"http".toList, some authority, .segments [], none, none⟩) := by
  cases hs : readScheme? (cleaned next) with
  | none => exact join_sample_ne_of_isReference h hhost hnext hs
  | some p => exact join_sample_ne_of_scheme h hhost hnext hs

end StandIn

/-- A result that left the stand-in is the same behind every base. -/
theorem exists_join_text (hv : IsHosted "http".toList v) :
    ∃ cs, ∀ u : Url, join u v.text = readAfterSlashes "http".toList cs := by
  have hall : ("http://".toList.all fun c => 0x20 < c.toNat) = true := by decide
  have hgraphic : IsGraphic "http://".toList :=
    fun c hc => of_decide_eq_true (List.all_eq_true.1 hall c hc)
  obtain ⟨authority, l, -, rfl⟩ := hv
  obtain ⟨r, hr⟩ := exists_cleaned_append hgraphic (by decide) (authorityText authority ++ l.text)
  have htext : (l.under ⟨"http".toList, some authority, .segments [], none, none⟩).text =
      String.ofList ("http://".toList ++ (authorityText authority ++ l.text)) := rfl
  refine ⟨('/' :: '/' :: r).dropWhile isSlash, fun u => ?_⟩
  refine join_of_scheme_of_namesHost ?_ (by decide) rfl u
  rw [htext, hr]
  rfl

theorem not_leadsOn_of_namesHost (hrequest : IsReference request) (hlink : IsReference link)
    (hhost : namesHost (cleaned request) = true ∨ namesHost (cleaned link) = true)
    (h : nextLink request link = .ok next) : ¬LeadsOn request link next := by
  intro hleads
  have hhttp : schemeKind "http".toList = .special := by decide
  have hhttps : schemeKind "https".toList = .special := by decide
  obtain ⟨hbase, hbase', -⟩ := ofText_sample
  obtain ⟨hweb, hweb'⟩ := isWeb_sample ['h']
  rw [nextLink_of_isReference hrequest hlink] at h
  obtain ⟨v, hv, hnext⟩ := bind_eq_ok.1 h
  have hnext : withoutStandIn request v = next := Except.ok.inj hnext
  have hleads' := hleads _ _ hbase hweb
  rw [join_join_of_namesHost hhttp hrequest hlink hhost (isHosted_sample _ ['h'])
    isHosted_standIn, hv] at hleads'
  have hhosted : IsHosted "http".toList v := by
    obtain ⟨page, hpage, hv⟩ := bind_eq_ok.1 hv
    exact (isHosted_standIn.join hhttp hrequest hpage).join hhttp hlink hv
  by_cases hsame : v.sameOrigin standIn = true
  · obtain ⟨authority, l, hnormal, rfl⟩ := hhosted
    have hhost : authority.host = .name "relative.invalid".toList := by
      rw [sameOrigin, Bool.and_eq_true, Bool.and_eq_true] at hsame
      exact Option.some.inj (beq_iff_eq.1 hsame.1.2)
    have hcleaned := cleaned_withoutStandIn hsame hnormal request
    rw [hnext] at hcleaned
    refine join_sample_ne hnormal hhost ?_ hleads'
    split at hcleaned
    · exact .inl hcleaned
    · exact .inr hcleaned
  · -- The result has the scheme of the stand-in, also behind a base with the other scheme.
    have htext : v.text = next := by
      rw [← hnext, withoutStandIn, if_neg hsame]
    obtain ⟨cs, hcs⟩ := exists_join_text hhosted
    rw [htext] at hcs
    have hother := (hleads _ _ hbase' hweb').symm.trans ((hcs _).trans ((hcs _).symm.trans hleads'))
    have hhosted' : IsHosted "https".toList v := by
      obtain ⟨page, hpage, hv⟩ := bind_eq_ok.1 hother
      exact ((isHosted_sample _ _).join hhttps hrequest hpage).join hhttps hlink hv
    exact absurd (hhosted.scheme_eq.symm.trans hhosted'.scheme_eq) (by decide)

/-- **A next link leads on behind every base of the web exactly when neither the request nor the link
names a host and the result is portable.** -/
theorem leadsOn_iff (hrequest : IsReference request) (hlink : IsReference link)
    (h : nextLink request link = .ok next) :
    LeadsOn request link next ↔ namesHost (cleaned request) = false ∧
      namesHost (cleaned link) = false ∧ IsPortable request link next := by
  constructor
  · intro hleads
    have hhosts : ¬(namesHost (cleaned request) = true ∨ namesHost (cleaned link) = true) :=
      fun hhost => not_leadsOn_of_namesHost hrequest hlink hhost h hleads
    have hrequestHost := Bool.eq_false_iff.2 (not_or.1 hhosts).1
    have hlinkHost := Bool.eq_false_iff.2 (not_or.1 hhosts).2
    exact ⟨hrequestHost, hlinkHost,
      isPortable_of_leadsOn hrequest hlink hrequestHost hlinkHost h hleads⟩
  · rintro ⟨hrequestHost, hlinkHost, hportable⟩
    exact leadsOn_of_isPortable hrequest hlink hrequestHost hlinkHost h hportable

/-- A request and a link of two segments each, with dots between them. -/
theorem leadsOn_iff_inside :
    IsReference "odata/users?$top=2" ∧ IsReference "./old/../people?page=2#top" ∧
      nextLink "odata/users?$top=2" "./old/../people?page=2#top" =
        .ok "odata/people?page=2#top" ∧
      LeadsOn "odata/users?$top=2" "./old/../people?page=2#top" "odata/people?page=2#top" := by
  have hrequest : IsReference "odata/users?$top=2" := by decide
  have hlink : IsReference "./old/../people?page=2#top" := by decide
  have hnext : nextLink "odata/users?$top=2" "./old/../people?page=2#top" =
      .ok "odata/people?page=2#top" := by decide
  refine ⟨hrequest, hlink, hnext, (leadsOn_iff hrequest hlink hnext).2 ⟨by decide, by decide, ?_⟩⟩
  exact .inside (by decide) (by decide) (by decide) (by decide)

/-- A link that begins with a slash is resolved against the host, and its result against the
directory of the base. -/
theorem not_leadsOn_users :
    nextLink "odata/users" "/api/users?page=2" = .ok "api/users?page=2" ∧
      ¬LeadsOn "odata/users" "/api/users?page=2" "api/users?page=2" := by
  refine ⟨by decide, fun hleads => ?_⟩
  have hbase : ofText "https://host/svc/" = .ok ⟨"https".toList, some ⟨[], .name "host".toList, none⟩,
      .segments ["svc".toList, []], none, none⟩ := by decide
  exact absurd (hleads _ _ hbase (.inr rfl)) (by decide)

end EntityQuery.Url
