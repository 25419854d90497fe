import EntityQuery.Proofs.Url.Location

/-!
# Reading whole URLs

A text with a scheme gives a URL of that scheme, unless it is resolved against a base of the same
scheme and says no more than a reference does (`scheme_of_join`).  Behind the slashes of a special
scheme stand an authority and a location (`exists_of_readAfterSlashes`), and the authority goes as far
as a segment would (`rest_of_readAuthority`).
-/

set_option autoImplicit false

namespace EntityQuery.Url

variable {cs r : List Char} {scheme : List Char} {s : String} {u v : Url}

/-! ## Texts that are read as they are -/

/-- Neither white space nor controls. -/
def IsGraphic (cs : List Char) : Prop := ∀ c ∈ cs, 0x20 < c.toNat

theorem dropWhile_of_isGraphic (h : IsGraphic cs) (hne : cs ≠ []) (r : List Char) :
    (cs ++ r).dropWhile (fun c => decide (c.toNat ≤ 0x20)) = cs ++ r := by
  cases cs with
  | nil => exact absurd rfl hne
  | cons c rest =>
    have hc := h c (List.mem_cons_self ..)
    rw [List.cons_append, List.dropWhile_cons, if_neg (by rw [decide_eq_true_eq]; omega)]

theorem exists_dropWhile_append (h : IsGraphic cs) (hne : cs ≠ []) (r : List Char) :
    ∃ r', (r ++ cs).dropWhile (fun c => decide (c.toNat ≤ 0x20)) = r' ++ cs := by
  induction r with
  | nil => exact ⟨[], by simpa using dropWhile_of_isGraphic h hne []⟩
  | cons c rest ih =>
    rw [List.cons_append, List.dropWhile_cons]
    split
    · exact ih
    · exact ⟨c :: rest, rfl⟩

theorem IsGraphic.reverse (h : IsGraphic cs) : IsGraphic cs.reverse :=
  fun c hc => h c (List.mem_reverse.1 hc)

theorem filter_of_isGraphic (h : IsGraphic cs) :
    cs.filter (fun c => !(c == '\t' || c == '\n' || c == '\r')) = cs := by
  refine List.filter_eq_self.2 fun c hc => ?_
  have hlarge := h c hc
  rw [Bool.not_eq_true', Bool.or_eq_false_iff, Bool.or_eq_false_iff]
  refine ⟨⟨beq_eq_false_iff_ne.2 ?_, beq_eq_false_iff_ne.2 ?_⟩, beq_eq_false_iff_ne.2 ?_⟩ <;>
    (rintro rfl; exact absurd hlarge (by decide))

/-- What a text begins with stays, if it is neither white space nor a control. -/
theorem exists_cleaned_append (h : IsGraphic cs) (hne : cs ≠ []) (r : List Char) :
    ∃ r', cleaned (String.ofList (cs ++ r)) = cs ++ r' := by
  have hne' : cs.reverse ≠ [] := List.reverse_ne_nil_iff.2 hne
  obtain ⟨r', hr⟩ := exists_dropWhile_append h.reverse hne' r.reverse
  refine ⟨r'.reverse.filter fun c => !(c == '\t' || c == '\n' || c == '\r'), ?_⟩
  rw [cleaned, String.toList_ofList, dropWhile_of_isGraphic h hne, List.reverse_append, hr,
    List.reverse_append, List.reverse_reverse, List.filter_append, filter_of_isGraphic h]

theorem cleaned_ofList (h : IsGraphic cs) : cleaned (String.ofList cs) = cs := by
  by_cases hne : cs = []
  · rw [hne]
    rfl
  · have hne' : cs.reverse ≠ [] := List.reverse_ne_nil_iff.2 hne
    have hfront := dropWhile_of_isGraphic h hne []
    have hback := dropWhile_of_isGraphic h.reverse hne' []
    rw [List.append_nil] at hfront hback
    rw [cleaned, String.toList_ofList, hfront, hback, List.reverse_reverse, filter_of_isGraphic h]

theorem isGraphic_of_isKept {keeps : Char → Bool} (h : ∀ n < 0x21, keeps (Char.ofNat n) = false)
    (hcs : Text.Percent.IsKept keeps cs) : IsGraphic cs := by
  intro c hc
  have hkeeps := (hcs c hc).2
  by_contra hsmall
  have hfalse := h c.toNat (by omega)
  rw [Char.ofNat_toNat, hkeeps] at hfalse
  cases hfalse

theorem isGraphic_append (h : IsGraphic cs) (h' : IsGraphic r) : IsGraphic (cs ++ r) :=
  List.forall_mem_append.2 ⟨h, h'⟩

theorem isGraphic_cons {c : Char} (hc : 0x20 < c.toNat) (h : IsGraphic cs) : IsGraphic (c :: cs) :=
  List.forall_mem_cons.2 ⟨hc, h⟩

theorem IsSegment.isGraphic {segment : List Char} (h : IsSegment segment) : IsGraphic segment := by
  have hkept : Text.Percent.IsKept keepsPath segment :=
    fun c hc => ⟨(h.chars c hc).1, (h.chars c hc).2.1⟩
  exact isGraphic_of_isKept (by decide) hkept

theorem isGraphic_segmentsText {segments : List (List Char)} (h : ∀ s ∈ segments, IsSegment s) :
    IsGraphic (segmentsText segments) := by
  induction segments with
  | nil => exact nofun
  | cons s rest ih =>
    obtain ⟨hs, hrest⟩ := List.forall_mem_cons.1 h
    exact isGraphic_append (isGraphic_cons (by decide) hs.isGraphic) (ih hrest)

theorem Location.IsNormal.isGraphic_tail {l : Location} (h : l.IsNormal) : IsGraphic l.tail := by
  rw [Location.tail]
  refine isGraphic_append ?_ ?_
  · cases hq : l.query with
    | none => exact List.forall_mem_nil _
    | some q => exact isGraphic_cons (by decide) (isGraphic_of_isKept (by decide) (h.query q hq))
  · cases hf : l.fragment with
    | none => exact List.forall_mem_nil _
    | some f => exact isGraphic_cons (by decide) (isGraphic_of_isKept (by decide) (h.fragment f hf))

/-! ## The scheme of what is read -/

theorem eq_fileScheme (h : schemeKind scheme = .file) : scheme = fileScheme := by
  rw [schemeKind] at h
  split at h
  · next heq =>
    have htext := congrArg String.toList heq
    rwa [String.toList_ofList] at htext
  · split at h <;> cases h

theorem scheme_of_readAfterSlashes (h : readAfterSlashes scheme cs = .ok v) :
    v.scheme = scheme := by
  obtain ⟨⟨authority, rest⟩, -, hv⟩ := bind_eq_ok.1 h
  rw [← Except.ok.inj hv]
  rfl

theorem scheme_of_readFileHost (h : readFileHost cs = .ok v) : v.scheme = fileScheme := by
  rw [readFileHost] at h
  dsimp only at h
  split at h
  · rw [← Except.ok.inj h]
    rfl
  · split at h <;>
    · obtain ⟨host, -, h⟩ := bind_eq_ok.1 h
      split at h <;> (rw [← Except.ok.inj h]; rfl)

theorem scheme_of_readFile (h : readFile none cs = .ok v) : v.scheme = fileScheme := by
  have hslash {r : List Char} (h : readFile.oneSlash none r = .ok v) : v.scheme = fileScheme := by
    rw [← Except.ok.inj h]
    rfl
  have hnone {path : List (List Char) × List Char}
      (h : (.ok (withTail fileScheme (fileAuthority (.name [])) path) : Except UrlFault Url) =
        .ok v) : v.scheme = fileScheme := by
    rw [← Except.ok.inj h]
    rfl
  unfold readFile at h
  split at h
  · split at h
    · exact scheme_of_readFileHost h
    · split at h
      · exact hslash h
      · exact hnone h
  · split at h
    · exact hslash h
    · exact hnone h
  · exact hnone h

theorem scheme_of_readWithScheme {base : Option Url}
    (hbase : ∀ b ∈ base, schemeKind b.scheme = .special ∧ b.scheme ≠ scheme)
    (h : readWithScheme base scheme cs = .ok v) : v.scheme = scheme := by
  unfold readWithScheme at h
  split at h
  · next hkind =>
    have hnone : base.filter (·.scheme == fileScheme) = none := by
      refine Option.filter_eq_none_iff.2 fun b hb heq => ?_
      have hspecial := (hbase b hb).1
      rw [beq_iff_eq.1 heq] at hspecial
      exact absurd hspecial (by decide)
    rw [hnone] at h
    rw [eq_fileScheme hkind]
    exact scheme_of_readFile h
  · dsimp only at h
    split at h
    · next b =>
      rw [if_neg fun hb => (hbase b rfl).2 hb.1] at h
      exact scheme_of_readAfterSlashes h
    · exact scheme_of_readAfterSlashes h
  · split at h
    · exact scheme_of_readAfterSlashes h
    · rw [← Except.ok.inj h]
      rfl
    · rw [← Except.ok.inj h]

/-- **A text with another scheme than its base keeps it.** -/
theorem scheme_of_join (hs : readScheme? (cleaned s) = some (scheme, r))
    (hkind : schemeKind u.scheme = .special) (hne : u.scheme ≠ scheme) (h : join u s = .ok v) :
    v.scheme = scheme := by
  rw [join, read, hs] at h
  exact scheme_of_readWithScheme (fun b hb => Option.some.inj hb ▸ ⟨hkind, hne⟩) h

/-- A text that names the scheme of its base and no host is resolved as a reference. -/
theorem join_of_same_scheme (hs : readScheme? (cleaned s) = some (u.scheme, cs))
    (hkind : schemeKind u.scheme = .special) (hhost : namesHost cs = false) (l : Location) :
    join (l.under u) s = .ok ((l.resolve cs).under u) := by
  have hlength : cs.length < (cs.dropWhile isSlash).length + 2 := by
    cases cs with
    | nil => exact Nat.zero_lt_succ _
    | cons c r =>
      by_cases hc : isSlash c = true
      · have hr : isRooted r = false := by
          rw [namesHost, show isRooted (c :: r) = true from hc, Bool.true_and] at hhost
          exact hhost
        have hdrop : r.dropWhile isSlash = r := by
          cases r with
          | nil => rfl
          | cons d r' =>
            have hd : isSlash d = false := hr
            rw [List.dropWhile_cons, hd, if_neg Bool.false_ne_true]
        rw [List.dropWhile_cons, if_pos hc, hdrop, List.length_cons]
        omega
      · rw [List.dropWhile_cons, if_neg hc]
        omega
  rw [join, read, hs]
  dsimp only
  unfold readWithScheme
  rw [hkind]
  dsimp only
  rw [if_pos ⟨rfl, hlength⟩, resolveRelative_under hkind hhost]

/-- **A text with a scheme and a host is read as it would be without a base.** -/
theorem join_of_scheme_of_namesHost (hs : readScheme? (cleaned s) = some (scheme, cs))
    (hkind : schemeKind scheme = .special) (hhost : namesHost cs = true) (u : Url) :
    join u s = readAfterSlashes scheme (cs.dropWhile isSlash) := by
  have hlength : ¬cs.length < (cs.dropWhile isSlash).length + 2 := by
    obtain ⟨c, d, r, rfl, hc, hd⟩ := exists_of_namesHost hhost
    have hle : (r.dropWhile isSlash).length ≤ r.length := (List.dropWhile_sublist _).length_le
    rw [List.dropWhile_cons, if_pos hc, List.dropWhile_cons, if_pos hd, List.length_cons,
      List.length_cons]
    omega
  rw [join, read, hs]
  dsimp only
  unfold readWithScheme
  rw [hkind]
  dsimp only
  rw [if_neg fun h => hlength h.2]

/-! ## Authorities and what follows them -/

namespace Location

/-- The location behind an authority. -/
def start (cs : List Char) : Location :=
  ⟨(readPathStart .special cs).1, (readTail .special (readPathStart .special cs).2).1,
    (readTail .special (readPathStart .special cs).2).2⟩

theorem isNormal_start (cs : List Char) : (start cs).IsNormal := by
  cases cs with
  | nil => exact isNormal_root
  | cons c r =>
    rw [start, readPathStart]
    split
    · next h => exact absurd h.1 (by decide)
    · split
      · rw [readPath_eq]
        exact isNormal_settle (List.forall_mem_nil _) _ _
      · rw [readPath_eq]
        exact isNormal_settle (List.forall_mem_nil _) _ _

/-- Segments behind an authority are its path. -/
theorem path_start {segments : List (List Char)} (hsegments : ∀ s ∈ segments, IsSegment s)
    (hcs : isPathless cs = true) :
    (start (segmentsText segments ++ cs)).path = if segments = [] then [[]] else segments := by
  cases segments with
  | nil =>
    have hparts : pathParts cs = [[]] := partsFrom_of_isPathless hcs []
    rw [if_pos rfl, start, segmentsText, List.flatMap_nil, List.nil_append]
    cases cs with
    | nil => rfl
    | cons c r =>
      have hslash : ¬endsSegment .special c = true := by
        rcases isPathless_cons.1 hcs with rfl | rfl <;> decide
      rw [readPathStart, if_neg (by simp), if_neg hslash, readPath_eq, hparts]
      rfl
  | cons s rest =>
    obtain ⟨hs, hrest⟩ := List.forall_mem_cons.1 hsegments
    rw [if_neg (List.cons_ne_nil _ _), start, segmentsText_cons, readPathStart, if_neg (by simp),
      if_pos (by decide), readPath_eq, pathParts_segmentsText hs hrest hcs,
      settle_of_isSegment hsegments]
    rfl

end Location

theorem mem_of_mem_splitHost {c : Char} {inside : Bool} (h : c ∈ (splitHost inside cs).2) :
    c ∈ cs := by
  induction cs generalizing inside with
  | nil => exact h
  | cons d rest ih =>
    rw [splitHost] at h
    split at h
    · exact h
    · exact List.mem_cons_of_mem _ (ih h)

theorem mem_of_mem_splitAtSign {c : Char} {before after : List Char}
    (hsplit : splitAtSign cs = some (before, after)) (h : c ∈ after) : c ∈ cs := by
  rw [splitAtSign] at hsplit
  split at hsplit
  · obtain ⟨-, rfl⟩ := Prod.mk.inj (Option.some.inj hsplit)
    exact List.mem_reverse.1 ((List.takeWhile_sublist _).subset (List.mem_reverse.1 h))
  · cases hsplit

/-- **An authority of a special scheme ends where a segment ends.** -/
theorem rest_of_readAuthority (hkind : schemeKind scheme = .special) {authority : Authority}
    {rest : List Char} (h : readAuthority scheme cs = .ok (authority, rest)) :
    rest = cs.dropWhile fun c => !endsAuthority .special c := by
  have hbackslash {text : List Char} (htext : ∀ c ∈ text, endsAuthority .special c = false) :
      text.dropWhile (· ≠ '\\') = [] := by
    induction text with
    | nil => rfl
    | cons c r ih =>
      obtain ⟨hc, hr⟩ := List.forall_mem_cons.1 htext
      have hne : c ≠ '\\' := by
        rintro rfl
        exact absurd hc (by decide)
      rw [List.dropWhile_cons, if_pos (decide_eq_true hne), ih hr]
  rw [readAuthority, hkind] at h
  dsimp only at h
  have h := eq_ok_of_ite (eq_ok_of_ite h)
  rw [if_pos rfl] at h
  obtain ⟨host, -, h⟩ := bind_eq_ok.1 h
  obtain ⟨port, -, h⟩ := bind_eq_ok.1 (eq_ok_of_ite h)
  obtain ⟨-, hrest⟩ := Prod.mk.inj (Except.ok.inj (eq_ok_of_ite h))
  -- What follows the colon of a port is part of the text before the rest, which has no backslash.
  rw [← hrest, hbackslash, List.nil_append]
  intro c hc
  have htext := mem_of_mem_splitHost hc
  have htaken : c ∈ cs.takeWhile fun c => !endsAuthority .special c := by
    split at htext
    · next hsplit => exact mem_of_mem_splitAtSign hsplit htext
    · exact htext
  simpa using List.all_eq_true.1 List.all_takeWhile c htaken

/-- **Behind the slashes of a special scheme stand an authority and a location.** -/
theorem exists_of_readAfterSlashes (hkind : schemeKind scheme = .special)
    (h : readAfterSlashes scheme cs = .ok v) :
    ∃ authority, v = (Location.start (cs.dropWhile fun c => !endsAuthority .special c)).under
      ⟨scheme, some authority, .segments [], none, none⟩ := by
  obtain ⟨⟨authority, rest⟩, hread, hv⟩ := bind_eq_ok.1 h
  refine ⟨authority, ?_⟩
  rw [← rest_of_readAuthority hkind hread, ← Except.ok.inj hv, withTail, hkind]
  rfl

theorem readWithScheme_none (hkind : schemeKind scheme = .special) (cs : List Char) :
    readWithScheme none scheme cs = readAfterSlashes scheme (cs.dropWhile isSlash) := by
  unfold readWithScheme
  rw [hkind]

/-- An absolute URL of a special scheme is a location behind a host. -/
theorem exists_location (hkind : schemeKind u.scheme = .special) (h : ofText s = .ok u) :
    ∃ l : Location, u = l.under u := by
  rw [ofText, read] at h
  cases hs : readScheme? (cleaned s) with
  | none =>
    rw [hs] at h
    cases h
  | some p =>
    obtain ⟨scheme, r⟩ := p
    rw [hs] at h
    have hscheme : u.scheme = scheme :=
      scheme_of_readWithScheme (fun _ hb => absurd hb (Option.not_mem_none _)) h
    rw [hscheme] at hkind
    have hread : readWithScheme none scheme r = .ok u := h
    rw [readWithScheme_none hkind] at hread
    obtain ⟨authority, hu⟩ := exists_of_readAfterSlashes hkind hread
    rw [hu]
    exact ⟨_, rfl⟩

/-! ## Why a text is no URL -/

section Fault

variable {kind : SchemeKind}

theorem bracketed_ne (cs : List Char) : bracketed cs ≠ .error .relativeWithoutBase := by
  rw [bracketed]
  split
  · split <;> nofun
  · nofun

theorem specialHost_ne (cs : List Char) : specialHost cs ≠ .error .relativeWithoutBase := by
  unfold specialHost
  split
  · exact bracketed_ne _
  · split
    · nofun
    · nofun
    · split
      · split <;> nofun
      · nofun

theorem otherHost_ne (cs : List Char) : otherHost cs ≠ .error .relativeWithoutBase := by
  unfold otherHost
  split
  · exact bracketed_ne _
  · split <;> nofun

theorem readPort_ne (n : Nat) (cs : List Char) : readPort n cs ≠ .error .relativeWithoutBase := by
  induction cs generalizing n with
  | nil => nofun
  | cons c r ih =>
    rw [readPort]
    split
    · exact ite_ne_error nofun (ih _)
    · nofun

theorem readAuthority_ne (scheme cs : List Char) :
    readAuthority scheme cs ≠ .error .relativeWithoutBase := by
  rw [readAuthority]
  dsimp only
  refine ite_ne_error nofun (ite_ne_error nofun ?_)
  by_cases hkind : schemeKind scheme = .special
  · rw [if_pos hkind]
    exact bind_ne_error (specialHost_ne _) fun _ => ite_ne_error nofun
      (bind_ne_error (readPort_ne _ _) fun _ => ite_ne_error nofun nofun)
  · rw [if_neg hkind]
    exact bind_ne_error (otherHost_ne _) fun _ => ite_ne_error nofun
      (bind_ne_error (readPort_ne _ _) fun _ => ite_ne_error nofun nofun)

theorem readAfterSlashes_ne (scheme cs : List Char) :
    readAfterSlashes scheme cs ≠ .error .relativeWithoutBase :=
  bind_ne_error (readAuthority_ne _ _) fun _ => nofun

theorem readFileHost_ne (cs : List Char) : readFileHost cs ≠ .error .relativeWithoutBase := by
  rw [readFileHost]
  dsimp only
  split
  · nofun
  · split
    · exact bind_ne_error nofun fun _ => by split <;> nofun
    · exact bind_ne_error (specialHost_ne _) fun _ => by split <;> nofun

theorem readFile_ne (cs : List Char) : readFile none cs ≠ .error .relativeWithoutBase := by
  unfold readFile
  split
  · split
    · exact readFileHost_ne _
    · split <;> nofun
  · split <;> nofun
  · nofun

theorem readWithScheme_ne (scheme cs : List Char) :
    readWithScheme none scheme cs ≠ .error .relativeWithoutBase := by
  unfold readWithScheme
  split
  · exact readFile_ne cs
  · exact readAfterSlashes_ne _ _
  · split
    · exact readAfterSlashes_ne _ _
    · nofun
    · nofun

end Fault

/-- A text has no scheme when it cannot be read without a base. -/
theorem ofText_eq_relativeWithoutBase :
    ofText s = .error .relativeWithoutBase ↔ IsReference s := by
  rw [ofText, read, IsReference]
  cases readScheme? (cleaned s) with
  | none => exact iff_of_true rfl rfl
  | some p => exact iff_of_false (readWithScheme_ne _ _) (Option.some_ne_none p)

end EntityQuery.Url
