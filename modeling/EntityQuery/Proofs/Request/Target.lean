import EntityQuery.Http.Transport
import EntityQuery.Proofs.Except
import EntityQuery.Proofs.Request.Parameters

/-!
# Requests pass the transport's check

A transport looks at a URL byte by byte before it connects.  The URL is an endpoint with something
behind it.  **An endpoint that passes alone, and has neither query nor fragment, passes with
whatever a request without a key puts behind it** (`HttpTransport.check_url`): any filter, any
fields, any characters in them.

* What is put behind begins with a slash or a question mark, if it is anything.  So it does not reach
  into the scheme (`Target.splitScheme_append`) or the authority (`Target.splitAuthority_append`),
  even of an endpoint without a path.
* Its bytes are of the classes that a path and a query admit (`Segments.checkPath_extension`), as
  every character outside ASCII, and every one inside with a meaning of its own, was escaped.
-/

set_option autoImplicit false

namespace EntityQuery

/-! ## Bytes of a text -/

namespace Text.Utf8

theorem encode_append (s t : String) : encode (s ++ t) = encode s ++ encode t := by
  rw [encode, String.toList_append, List.flatMap_append, encode, encode]

/-- A byte of ASCII stands for the character with its number. -/
theorem toNat_of_mem_encodeChar {c : Char} {b : UInt8} (h : b ∈ String.utf8EncodeChar c)
    (hb : b.toNat < 128) : c.toNat = b.toNat := by
  have hval : c.val.toNat = c.toNat := rfl
  rw [String.utf8EncodeChar.eq_def, hval] at h
  dsimp only at h
  split at h
  · obtain rfl := List.mem_singleton.1 h
    rw [UInt8.toNat_ofNat', Nat.mod_eq_of_lt (by omega)]
  · -- The bytes of a longer sequence are all from 128 on.
    exfalso
    split at h
    · simp only [List.mem_cons, List.not_mem_nil, or_false] at h
      rcases h with rfl | rfl <;> rw [UInt8.toNat_ofNat'] at hb <;> omega
    · split at h
      · simp only [List.mem_cons, List.not_mem_nil, or_false] at h
        rcases h with rfl | rfl | rfl <;> rw [UInt8.toNat_ofNat'] at hb <;> omega
      · simp only [List.mem_cons, List.not_mem_nil, or_false] at h
        rcases h with rfl | rfl | rfl | rfl <;> rw [UInt8.toNat_ofNat'] at hb <;> omega

theorem encodeChar_of_lt {c : Char} (h : c.toNat < 128) :
    String.utf8EncodeChar c = [UInt8.ofNat c.toNat] := by
  have hval : c.val.toNat = c.toNat := rfl
  rw [String.utf8EncodeChar.eq_def, hval]
  dsimp only
  rw [if_pos (by omega)]

end Text.Utf8

namespace Http.Target

/-! ## A text with more behind it -/

section Extension

variable {ext : List UInt8} {p : UInt8 → Bool} (hext : ∀ b ∈ ext.head?, p b = false)

include hext

theorem takeWhile_append_of_head (bs : List UInt8) :
    (bs ++ ext).takeWhile p = bs.takeWhile p := by
  induction bs with
  | nil =>
    cases ext with
    | nil => rfl
    | cons b r => exact List.takeWhile_cons_of_neg (by rw [hext b rfl]; exact Bool.false_ne_true)
  | cons b r ih => rw [List.cons_append, List.takeWhile_cons, List.takeWhile_cons, ih]

theorem dropWhile_append_of_head (bs : List UInt8) :
    (bs ++ ext).dropWhile p = bs.dropWhile p ++ ext := by
  induction bs with
  | nil =>
    cases ext with
    | nil => rfl
    | cons b r => exact List.dropWhile_cons_of_neg (by rw [hext b rfl]; exact Bool.false_ne_true)
  | cons b r ih =>
    rw [List.cons_append, List.dropWhile_cons, List.dropWhile_cons, ih]
    split <;> rfl

end Extension

variable {bs rest : List UInt8}

/-! ## Schemes -/

/-- The schemes that a transport may let through. -/
def webSchemes : List (List UInt8) := [bytes "http", bytes "https"]

theorem length_le_of_take {n : Nat} {word : List UInt8} (hn : word.length = n)
    (h : (bs.take n).map lower = word) : n ≤ bs.length := by
  have hlen := congrArg List.length h
  rw [List.length_map, List.length_take, hn] at hlen
  omega

theorem splitScheme_cases {s : List UInt8} (hs : s ∈ webSchemes)
    (h : splitScheme bs = .ok (some s, rest)) :
    (s = bytes "http" ∧ (bs.take 7).map lower = bytes "http://" ∧ rest = bs.drop 7) ∨
      (s = bytes "https" ∧ (bs.take 7).map lower ≠ bytes "http://" ∧
        (bs.take 8).map lower = bytes "https://" ∧ rest = bs.drop 8) := by
  rw [splitScheme] at h
  dsimp only at h
  split at h
  · next hhttp =>
    obtain ⟨rfl, rfl⟩ := (Prod.mk.inj (Except.ok.inj h)).imp_left Option.some.inj
    exact .inl ⟨rfl, hhttp, rfl⟩
  · next hhttp =>
    split at h
    · next hhttps =>
      obtain ⟨rfl, rfl⟩ := (Prod.mk.inj (Except.ok.inj h)).imp_left Option.some.inj
      exact .inr ⟨rfl, hhttp, hhttps, rfl⟩
    · next hhttps =>
      -- What the general rule finds is neither of the two, or one of the first two rules had applied.
      exfalso
      split at h
      · cases h
      · split at h
        · next hmarks =>
          split at h
          · cases h
          · obtain ⟨rfl, -⟩ := (Prod.mk.inj (Except.ok.inj h)).imp_left Option.some.inj
            have hbs : bs = bs.takeWhile isSchemeByte ++
                (bytes "://" ++ (bs.dropWhile isSchemeByte).drop 3) := by
              rw [← hmarks, List.take_append_drop, List.takeWhile_append_dropWhile]
            rcases List.mem_cons.1 hs with hs | hs
            · rw [hs] at hbs
              exact hhttp (by rw [hbs]; rfl)
            · rw [List.mem_singleton.1 hs] at hbs
              exact hhttps (by rw [hbs]; rfl)
        · cases h

theorem splitScheme_append {s : List UInt8} (hs : s ∈ webSchemes)
    (h : splitScheme bs = .ok (some s, rest)) (ext : List UInt8) :
    splitScheme (bs ++ ext) = .ok (some s, rest ++ ext) := by
  rcases splitScheme_cases hs h with ⟨rfl, hhttp, rfl⟩ | ⟨rfl, hhttp, hhttps, rfl⟩
  · have hlen : 7 ≤ bs.length := length_le_of_take (by decide) hhttp
    rw [splitScheme]
    dsimp only
    rw [List.take_append_of_le_length hlen, if_pos hhttp, List.drop_append_of_le_length hlen]
  · have hlen : 8 ≤ bs.length := length_le_of_take (by decide) hhttps
    rw [splitScheme]
    dsimp only
    rw [List.take_append_of_le_length (Nat.le_of_succ_le hlen), if_neg hhttp,
      List.take_append_of_le_length hlen, if_pos hhttps, List.drop_append_of_le_length hlen]

/-! ## Authorities -/

/-- Bytes that do not end an authority. -/
def inAuthority (b : UInt8) : Bool := !endsAuthority b

/-- Checks an authority that was cut out of a text. -/
def checkAuthority (authority : List UInt8) : Except TargetFault Unit := do
  let s ← authority.foldlM AuthorityScan.step ⟨0, false, false, false, false⟩
  if (s.opened != s.closed) || 1 < s.colons || s.endsInAt || s.percent then .error .authority
  else .ok ()

/-- Whether an authority is admitted does not depend on what follows it. -/
theorem splitAuthority_eq (h : bs ≠ []) :
    splitAuthority bs = (checkAuthority (bs.takeWhile inAuthority)).map fun _ =>
      (bs.takeWhile inAuthority, bs.dropWhile inAuthority) := by
  have hne : ¬bs.isEmpty = true := by rwa [List.isEmpty_iff]
  rw [splitAuthority, if_neg hne, checkAuthority]
  show (List.foldlM _ _ (bs.takeWhile inAuthority) >>= _) = _
  cases List.foldlM AuthorityScan.step ⟨0, false, false, false, false⟩
      (bs.takeWhile inAuthority) with
  | error e => rfl
  | ok s =>
    show ite _ _ _ = Except.map _ (ite _ _ _)
    split <;> rfl

theorem ne_nil_of_splitAuthority {authority path : List UInt8}
    (h : splitAuthority bs = .ok (authority, path)) : bs ≠ [] := by
  rintro rfl
  cases h

theorem splitAuthority_append {ext : List UInt8} (hext : ∀ b ∈ ext.head?, endsAuthority b = true)
    {authority path : List UInt8} (h : splitAuthority bs = .ok (authority, path)) :
    splitAuthority (bs ++ ext) = .ok (authority, path ++ ext) := by
  have hne := ne_nil_of_splitAuthority h
  have hstop : ∀ b ∈ ext.head?, inAuthority b = false := by
    intro b hb
    rw [inAuthority, hext b hb]
    rfl
  rw [splitAuthority_eq hne] at h
  obtain ⟨u, hcheck, hpair⟩ := map_eq_ok.1 h
  obtain ⟨rfl, rfl⟩ := Prod.mk.inj hpair
  rw [splitAuthority_eq (List.append_ne_nil_of_left_ne_nil hne ext),
    takeWhile_append_of_head hstop, dropWhile_append_of_head hstop, hcheck]
  rfl

theorem mem_of_mem_path {authority path : List UInt8}
    (h : splitAuthority bs = .ok (authority, path)) {b : UInt8} (hb : b ∈ path) : b ∈ bs := by
  rw [splitAuthority_eq (ne_nil_of_splitAuthority h)] at h
  obtain ⟨u, -, hpair⟩ := map_eq_ok.1 h
  obtain ⟨-, rfl⟩ := Prod.mk.inj hpair
  exact (List.dropWhile_sublist _).subset hb

/-! ## Paths and queries -/

theorem checkPath_append {path : List UInt8} (hfree : ∀ b ∈ path, b ≠ byte '?' ∧ b ≠ byte '#')
    (h : checkPath path = .ok ()) (ext : List UInt8) :
    checkPath (path ++ ext) = checkPath ext := by
  induction path with
  | nil => rfl
  | cons b r ih =>
    obtain ⟨hb, hr⟩ := List.forall_mem_cons.1 hfree
    rw [checkPath, if_neg hb.1, if_neg hb.2] at h
    rw [List.cons_append, checkPath, if_neg hb.1, if_neg hb.2]
    by_cases hpath : isPathByte b = true
    · rw [if_pos hpath] at h ⊢
      exact ih hr h
    · rw [if_neg hpath] at h
      cases h

theorem checkQuery_of_forall {query : List UInt8} (h : ∀ b ∈ query, isQueryByte b = true) :
    checkQuery query = .ok () := by
  induction query with
  | nil => rfl
  | cons b r ih =>
    obtain ⟨hb, hr⟩ := List.forall_mem_cons.1 h
    rw [checkQuery, if_pos hb, ih hr, ite_self]

/-! ## Whole targets -/

/-- What an absolute target consists of. -/
structure Parts (bs scheme authority path : List UInt8) : Prop where
  splitScheme : ∃ rest, splitScheme bs = .ok (some scheme, rest) ∧
    splitAuthority rest = .ok (authority, path)
  authority_ne_nil : authority ≠ []
  checkPath : checkPath path = .ok ()

theorem ofFull_of_parts {scheme authority path : List UInt8} (h : Parts bs scheme authority path) :
    ofFull bs = .ok ⟨some scheme, true⟩ := by
  obtain ⟨⟨rest, hscheme, hauthority⟩, hne, hpath⟩ := h
  have hne' : ¬authority.isEmpty = true := by rwa [List.isEmpty_iff]
  rw [ofFull, hscheme]
  show (splitAuthority rest >>= _) = _
  rw [hauthority]
  show ite _ _ _ = _
  rw [if_neg hne', hpath]
  rfl

theorem parts_of_ofFull {scheme : List UInt8} {target : Target} (h : ofFull bs = .ok target)
    (hscheme : target.scheme = some scheme) :
    ∃ authority path, Parts bs scheme authority path := by
  obtain ⟨⟨found, rest⟩, hsplit, h⟩ := bind_eq_ok.1 h
  obtain ⟨⟨authority, path⟩, hauthority, h⟩ := bind_eq_ok.1 h
  cases found with
  | none =>
    replace h : ite _ _ _ = _ := h
    split at h
    · obtain rfl := Except.ok.inj h
      cases hscheme
    · cases h
  | some s =>
    replace h : ite _ _ _ = _ := h
    split at h
    · cases h
    · next hne =>
      obtain ⟨u, hpath, h⟩ := bind_eq_ok.1 h
      obtain rfl := Except.ok.inj h
      obtain rfl := Option.some.inj hscheme
      exact ⟨authority, path, ⟨rest, hsplit, hauthority⟩, by rwa [List.isEmpty_iff] at hne, hpath⟩

theorem Parts.append {scheme authority path ext : List UInt8}
    (h : Parts bs scheme authority path) (hscheme : scheme ∈ webSchemes)
    (hfree : ∀ b ∈ bs, b ≠ byte '?' ∧ b ≠ byte '#')
    (hhead : ∀ b ∈ ext.head?, endsAuthority b = true)
    (hext : Target.checkPath ext = .ok ()) :
    Parts (bs ++ ext) scheme authority (path ++ ext) := by
  obtain ⟨⟨rest, hsplit, hauthority⟩, hne, hpath⟩ := h
  refine ⟨⟨rest ++ ext, splitScheme_append hscheme hsplit ext,
    splitAuthority_append hhead hauthority⟩, hne, ?_⟩
  have hrest : ∀ b ∈ rest, b ∈ bs := by
    rcases splitScheme_cases hscheme hsplit with ⟨-, -, rfl⟩ | ⟨-, -, -, rfl⟩ <;>
      exact fun b hb => List.mem_of_mem_drop hb
  rw [checkPath_append (fun b hb => hfree b (hrest b (mem_of_mem_path hauthority hb))) hpath, hext]

/-- A text with a scheme is longer than one byte and does not begin with a slash. -/
theorem ofFull_of_ofText {s : String} {target : Target} (h : ofText s = .ok target)
    {scheme : List UInt8} (hscheme : target.scheme = some scheme) :
    ofFull (Text.Utf8.encode s) = .ok target ∧
      ∃ b c r, Text.Utf8.encode s = b :: c :: r ∧ b ≠ byte '/' := by
  rw [ofText] at h
  dsimp only at h
  split at h
  · cases h
  · split at h
    · cases h
    · split at h
      · obtain rfl := Except.ok.inj h
        cases hscheme
      · obtain ⟨⟨authority, path⟩, -, h⟩ := bind_eq_ok.1 h
        replace h : ite _ _ _ = _ := h
        split at h
        · obtain rfl := Except.ok.inj h
          cases hscheme
        · cases h
    · next b r hsingle heq =>
      split at h
      · obtain ⟨u, -, h⟩ := bind_eq_ok.1 h
        obtain rfl := Except.ok.inj h
        cases hscheme
      · next hslash =>
        cases r with
        | nil => exact (hsingle rfl).elim
        | cons c r => exact ⟨heq ▸ h, b, c, r, heq, hslash⟩

theorem ofText_of_ofFull {s : String} {target : Target}
    (hlength : (Text.Utf8.encode s).length ≤ maxLength)
    (hbegins : ∃ b c r, Text.Utf8.encode s = b :: c :: r ∧ b ≠ byte '/')
    (h : ofFull (Text.Utf8.encode s) = .ok target) : ofText s = .ok target := by
  obtain ⟨b, c, r, heq, hslash⟩ := hbegins
  rw [ofText]
  dsimp only
  rw [if_neg (by omega), heq]
  show ite _ _ _ = _
  rw [if_neg hslash, ← heq, h]

end Http.Target

/-! ## What is put behind an endpoint -/

namespace Segments

open Http

/-- What a request without a key puts behind its endpoint. -/
def extension (s : Segments) : String :=
  (if s.value then "/$value" else "") ++
    if s.queryString.isEmpty then "" else "?" ++ s.queryString

theorem url_eq_append {s : Segments} (hkey : s.key = none) (endpoint : String) :
    s.url endpoint = endpoint ++ s.extension := by
  rw [url, pathText, hkey, extension]
  split <;> simp [String.append_assoc]

/-- A character that is a byte of its own, of the kind that a query admits. -/
def IsQueryChar (c : Char) : Prop :=
  c.toNat < 128 ∧ Target.isQueryByte (UInt8.ofNat c.toNat) = true

instance (c : Char) : Decidable (IsQueryChar c) := inferInstanceAs (Decidable (_ ∧ _))

theorem isQueryChar_of_keepsComponent {c : Char} (hc : c.toNat < 128)
    (h : keepsComponent c = true) : IsQueryChar c := by
  have hall : ∀ n < 128, keepsComponent (Char.ofNat n) = true →
      Target.isQueryByte (UInt8.ofNat n) = true := by decide
  exact ⟨hc, hall c.toNat hc (by rwa [Char.ofNat_toNat])⟩

theorem isQueryChar_of_mem_component {c : Char} {text : String}
    (h : c ∈ (component text).toList) : IsQueryChar c := by
  have hdigits : ("%0123456789ABCDEF".toList.all fun d => IsQueryChar d) = true := by decide
  rw [component, Text.Percent.encode, String.toList_ofList] at h
  rcases Text.Percent.mem_encodeChars h with hc | ⟨hlt, hc⟩
  · exact of_decide_eq_true (List.all_eq_true.1 hdigits c hc)
  · exact isQueryChar_of_keepsComponent hlt hc

theorem isQueryChar_of_mem_part {c : Char} {p : String × String} (hname : p.1 ∈ names)
    (h : c ∈ part p) : IsQueryChar c := by
  have hnames : (names.all fun name => name.toList.all fun d => IsQueryChar d) = true := by decide
  rw [part, List.mem_append, List.mem_cons] at h
  rcases h with h | rfl | h
  · exact of_decide_eq_true (List.all_eq_true.1 (List.all_eq_true.1 hnames p.1 hname) c h)
  · decide
  · exact isQueryChar_of_mem_component h

theorem forall_mem_intercalate {P : Char → Prop} {sep : Char} (hsep : P sep)
    {texts : List (List Char)} (h : ∀ text ∈ texts, ∀ c ∈ text, P c) :
    ∀ c ∈ [sep].intercalate texts, P c := by
  induction texts with
  | nil => exact nofun
  | cons text rest ih =>
    obtain ⟨htext, hrest⟩ := List.forall_mem_cons.1 h
    cases rest with
    | nil => rwa [List.intercalate_singleton]
    | cons next more =>
      rw [List.intercalate_cons_cons]
      intro c hc
      rw [List.mem_append, List.mem_append, List.mem_singleton] at hc
      rcases hc with (hc | rfl) | hc
      · exact htext c hc
      · exact hsep
      · exact ih hrest c hc

/-- **Every character of a query string may stand in a query.** -/
theorem isQueryChar_of_mem_queryString {s : Segments} {c : Char} (h : c ∈ s.queryString.toList) :
    IsQueryChar c := by
  rw [toList_queryString] at h
  refine forall_mem_intercalate (by decide) (fun text htext d hd => ?_) c h
  obtain ⟨p, hp, rfl⟩ := List.mem_map.1 htext
  exact isQueryChar_of_mem_part (mem_names_of_mem_parameters hp) hd

theorem checkQuery_queryString (s : Segments) :
    Target.checkQuery (Text.Utf8.encode s.queryString) = .ok () := by
  refine Target.checkQuery_of_forall fun b hb => ?_
  obtain ⟨c, hc, hbc⟩ := List.mem_flatMap.1 hb
  obtain ⟨hlt, hquery⟩ := isQueryChar_of_mem_queryString hc
  rw [Text.Utf8.encodeChar_of_lt hlt, List.mem_singleton] at hbc
  rwa [hbc]

/-- **What is put behind an endpoint goes on with its path**, or begins a query, or is nothing, and
consists of bytes that are admitted there. -/
theorem checkPath_extension (s : Segments) :
    (∀ b ∈ (Text.Utf8.encode s.extension).head?, Target.endsAuthority b = true) ∧
      Target.checkPath (Text.Utf8.encode s.extension) = .ok () := by
  have hmark : Text.Utf8.encode "?" = [Target.byte '?'] := by decide
  have hquery (q : String) (h : Target.checkQuery (Text.Utf8.encode q) = .ok ()) :
      Target.checkPath (Text.Utf8.encode ("?" ++ q)) = .ok () := by
    rw [Text.Utf8.encode_append, hmark, List.singleton_append, Target.checkPath, if_pos rfl, h]
  have hall : ((Text.Utf8.encode "/$value").all fun b =>
      b ≠ Target.byte '?' ∧ b ≠ Target.byte '#') = true := by decide
  have hvalue : ∀ b ∈ Text.Utf8.encode "/$value", b ≠ Target.byte '?' ∧ b ≠ Target.byte '#' :=
    fun b hb => of_decide_eq_true (List.all_eq_true.1 hall b hb)
  rw [extension]
  by_cases hempty : s.queryString.isEmpty = true
  · rw [if_pos hempty]
    cases s.value with
    | false => exact ⟨nofun, rfl⟩
    | true =>
      refine ⟨fun b hb => ?_, by decide⟩
      obtain rfl : Target.byte '/' = b := Option.some.inj hb
      decide
  · rw [if_neg hempty]
    have hlast := hquery _ (checkQuery_queryString s)
    cases s.value with
    | false =>
      rw [if_neg Bool.false_ne_true, String.empty_append]
      refine ⟨fun b hb => ?_, hlast⟩
      rw [Text.Utf8.encode_append, hmark] at hb
      obtain rfl := Option.some.inj hb
      decide
    | true =>
      rw [if_pos rfl, Text.Utf8.encode_append, Target.checkPath_append hvalue (by decide), hlast]
      refine ⟨fun b hb => ?_, rfl⟩
      obtain rfl : Target.byte '/' = b := Option.some.inj hb
      decide

end Segments

namespace Http.HttpTransport

variable {t : HttpTransport} {url : String} {target : Target}

/-- The schemes that a transport lets through. -/
def Admits (t : HttpTransport) (scheme : List UInt8) : Prop :=
  scheme = Target.bytes "https" ∨ scheme = Target.bytes "http" ∧ t.config.allowsPlain = true

theorem Admits.mem_webSchemes {scheme : List UInt8} (h : t.Admits scheme) :
    scheme ∈ Target.webSchemes := by
  rcases h with rfl | ⟨rfl, -⟩ <;> decide

theorem checkScheme_eq_ok {scheme : Option (List UInt8)} :
    t.checkScheme url scheme = .ok () ↔ ∃ s, scheme = some s ∧ t.Admits s := by
  cases scheme with
  | none => exact iff_of_false nofun nofun
  | some s =>
    have hadmits : (∃ s', some s = some s' ∧ t.Admits s') ↔ t.Admits s :=
      ⟨fun ⟨_, hs, h⟩ => Option.some.inj hs ▸ h, fun h => ⟨s, rfl, h⟩⟩
    rw [hadmits, checkScheme, Admits]
    by_cases hhttps : s = Target.bytes "https"
    · rw [if_pos hhttps]
      exact iff_of_true rfl (.inl hhttps)
    · rw [if_neg hhttps]
      by_cases hhttp : s = Target.bytes "http"
      · rw [if_pos hhttp]
        cases t.config.allowsPlain with
        | true => exact iff_of_true rfl (.inr ⟨hhttp, rfl⟩)
        | false => exact iff_of_false nofun fun h => h.elim hhttps nofun
      · rw [if_neg hhttp]
        exact iff_of_false nofun fun h => h.elim hhttps fun h => hhttp h.1

/-- Whether a target passes depends on its scheme, and on its having an authority. -/
theorem check_eq_ok :
    t.check url = .ok target ↔ Target.ofText url = .ok target ∧
      (∃ s, target.scheme = some s ∧ t.Admits s) ∧ target.hasAuthority = true := by
  rw [check]
  cases Target.ofText url with
  | error f => exact iff_of_false nofun nofun
  | ok found =>
    show (t.checkScheme url found.scheme >>= fun _ => _) = _ ↔ _
    rw [bind_eq_ok]
    constructor
    · rintro ⟨u, hscheme, h⟩
      split at h
      · next hauthority =>
        obtain rfl := Except.ok.inj h
        exact ⟨rfl, checkScheme_eq_ok.1 hscheme, hauthority⟩
      · cases h
    · rintro ⟨heq, hscheme, hauthority⟩
      obtain rfl := Except.ok.inj heq
      exact ⟨(), checkScheme_eq_ok.2 hscheme, if_pos hauthority⟩

/-- **A request without a key passes if its endpoint does.**  Whatever the transport lets through,
for an endpoint with neither query nor fragment that passes alone, the URL of every request without
a key passes too, and as the same target, unless it is too long. -/
theorem check_url {endpoint : String} {s : Segments} (hendpoint : t.check endpoint = .ok target)
    (hquery : '?' ∉ endpoint.toList) (hfragment : '#' ∉ endpoint.toList) (hkey : s.key = none)
    (hlength : (Text.Utf8.encode (s.url endpoint)).length ≤ Target.maxLength) :
    t.check (s.url endpoint) = .ok target := by
  obtain ⟨hparse, ⟨scheme, hscheme, hadmits⟩, hauthority⟩ := check_eq_ok.1 hendpoint
  obtain ⟨hfull, b, c, r, hbytes, hslash⟩ := Target.ofFull_of_ofText hparse hscheme
  obtain ⟨authority, path, hparts⟩ := Target.parts_of_ofFull hfull hscheme
  have hmark {mark : Char} {code : UInt8} (hcode : code.toNat = mark.toNat ∧ mark.toNat < 128)
      (hmark : mark ∉ endpoint.toList) : ∀ b ∈ Text.Utf8.encode endpoint, b ≠ code := by
    rintro b hb rfl
    obtain ⟨d, hd, hbd⟩ := List.mem_flatMap.1 hb
    have hnum := Text.Utf8.toNat_of_mem_encodeChar hbd (by omega)
    exact hmark (Char.toNat_inj.1 (hnum.trans hcode.1) ▸ hd)
  have hfree : ∀ b ∈ Text.Utf8.encode endpoint, b ≠ Target.byte '?' ∧ b ≠ Target.byte '#' :=
    fun b hb => ⟨hmark (by decide) hquery b hb, hmark (by decide) hfragment b hb⟩
  have hurl : Text.Utf8.encode (s.url endpoint) =
      Text.Utf8.encode endpoint ++ Text.Utf8.encode s.extension := by
    rw [Segments.url_eq_append hkey, Text.Utf8.encode_append]
  have hfull' := Target.ofFull_of_parts (hparts.append hadmits.mem_webSchemes hfree
    (Segments.checkPath_extension s).1 (Segments.checkPath_extension s).2)
  have htarget : target = ⟨some scheme, true⟩ := by
    rw [Target.ofFull_of_parts hparts] at hfull
    exact (Except.ok.inj hfull).symm
  rw [← hurl, ← htarget] at hfull'
  refine check_eq_ok.2 ⟨Target.ofText_of_ofFull hlength ?_ hfull', ⟨scheme, hscheme, hadmits⟩,
    hauthority⟩
  exact ⟨b, c, r ++ Text.Utf8.encode s.extension, by rw [hurl, hbytes]; rfl, hslash⟩

/-- An endpoint without a path, and a filter with characters that no query admits. -/
theorem check_url_withoutPath :
    check ⟨.standard⟩ "https://host:8443" = .ok ⟨some (Target.bytes "https"), true⟩ ∧
      '?' ∉ "https://host:8443".toList ∧ '#' ∉ "https://host:8443".toList ∧
      (Text.Utf8.encode
        (Segments.url { Segments.empty with filter := some "név eq '<#?>\"'", value := true }
          "https://host:8443")).length ≤ Target.maxLength ∧
      check ⟨.standard⟩
          (Segments.url { Segments.empty with filter := some "név eq '<#?>\"'", value := true }
            "https://host:8443") =
        .ok ⟨some (Target.bytes "https"), true⟩ := by
  have hendpoint : check ⟨.standard⟩ "https://host:8443" =
      .ok ⟨some (Target.bytes "https"), true⟩ := by decide
  have hquery : '?' ∉ "https://host:8443".toList := by decide
  have hfragment : '#' ∉ "https://host:8443".toList := by decide
  have hlength : (Text.Utf8.encode
      (Segments.url { Segments.empty with filter := some "név eq '<#?>\"'", value := true }
        "https://host:8443")).length ≤ Target.maxLength := by decide
  exact ⟨hendpoint, hquery, hfragment, hlength,
    check_url hendpoint hquery hfragment rfl hlength⟩

end Http.HttpTransport

end EntityQuery
