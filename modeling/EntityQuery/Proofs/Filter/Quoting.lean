import EntityQuery.Proofs.Filter.Template
import EntityQuery.Proofs.Query.Calls
import EntityQuery.Proofs.Request.Key
import EntityQuery.Proofs.Text.Literals

/-!
# Strings in filters and keys

A string goes into a filter, a list or a key as a literal, whatever is in it: quotes, parentheses,
commas, keywords.  There a literal is followed by a blank, a comma or a parenthesis, if by anything, and
so it can be read back, and so can those that come behind it.

`Fragment.holds_compose` says so for a node and the literals of its operands, with a case for each of
the operators, and `Expression.holds_of_fragment` for whole predicates.  `Segments.scan_literals` is what
follows for the filter of a chain, which may be made of several conditions, and for the URL with a key
in it.

Paths and range variables are written as they stand, and so are texts that are declared identifiers
(`Expression.verbatim`).  There may be quotes in them, but not in anything else that is written.
-/

set_option autoImplicit false

namespace EntityQuery

open Text.Quoted (Holds Keeps)

/-! ## Fragments -/

namespace Fragment

variable {plain : Char → Prop} (hplain : ∀ c, c ≠ '\'' → plain c) {f g : Fragment}
  {ss ts : List String}

include hplain

theorem holds_reduce (h : Holds plain ss f.joined) : Holds plain ss f.reduce := by
  rw [reduce_eq_ite]
  split
  · exact h
  · exact h.enclosed hplain (by decide)

theorem holds_negate (h : Holds plain ss f.joined) : Holds plain ss f.negate.joined := by
  rw [negate_eq_ite, joined_atom]
  split
  · exact h.behind hplain (by decide)
  · exact h.enclosed hplain (by decide)

theorem holds_sideText (h : Holds plain ss f.joined) (j : Joint) : Holds plain ss (f.sideText j) := by
  rw [sideText_eq]
  split
  · exact h
  · exact holds_reduce hplain h

theorem holds_join (hf : f.IsSound) (hg : g.IsSound) (hl : Holds plain ss f.joined)
    (hr : Holds plain ts g.joined) (j : Joint) : Holds plain (ss ++ ts) (join j f g).joined := by
  have hstop : Text.Quoted.IsStop j.separator := by cases j <;> decide
  rw [hf.joined_join_separator hg]
  exact (holds_sideText hplain hl j).separated hplain _ hstop (holds_sideText hplain hr j)

/-- What a condition on two operands is written as. -/
theorem holds_binary {operator : Operator} {write : String → String → String}
    (hwrite : binary? operator = some write) {l r : String} (hl : Holds plain ss l)
    (hr : Holds plain ts r) : Holds plain (ss ++ ts) (write l r) := by
  have hcomparison (sign : String) (h : '\'' ∉ sign.toList) :
      Holds plain (ss ++ ts) (l ++ " " ++ sign ++ " " ++ r) := by
    have hright := (hr.behind hplain (u := " ") (by decide)).behind hplain h
    have hall := hl.separated hplain " " (by decide) hright
    simpa only [String.append_assoc] using hall
  have hfunction (name : String) (h : '\'' ∉ (name ++ "(").toList) :
      Holds plain (ss ++ ts) (name ++ "(" ++ l ++ "," ++ r ++ ")") :=
    ((hl.behind hplain h).separated hplain _ (by decide) hr).followed hplain (by decide)
  cases operator with
  | equals | notEquals | greaterThan | greaterThanOrEqualTo | lessThan | lessThanOrEqualTo =>
    obtain rfl := Option.some.inj hwrite
    exact hcomparison _ (by decide)
  | contains | startsWith | endsWith =>
    obtain rfl := Option.some.inj hwrite
    exact hfunction _ (by decide)
  | oneOf =>
    obtain rfl := Option.some.inj hwrite
    exact (hl.separated hplain _ (by decide) hr).followed hplain (by decide)
  | _ => cases hwrite

end Fragment

/-! ## Constants in the words of a filter -/

theorem Value.all_isWordChar_of_render {v : Value} {text : String} (h : v.render = .ok text)
    (hv : ∀ s, v ≠ .text s) : text.toList.all Filter.isWordChar = true := by
  cases v with
  | null =>
    obtain rfl := Except.ok.inj h
    decide
  | bool b =>
    obtain rfl := Except.ok.inj h
    cases b <;> decide
  | number n => exact Except.ok.inj h ▸ Filter.all_isWordChar (Filter.all_decimalText n)
  | float x =>
    rw [Value.render] at h
    split at h
    · next hx => exact Except.ok.inj h ▸ Filter.all_isWordChar (Filter.all_floatText hx)
    · cases h
  | text s => exact absurd rfl (hv s)
  | uuid u => exact Except.ok.inj h ▸ Filter.all_isWordChar (Filter.all_uuidText u)
  | timestamp t => exact Except.ok.inj h ▸ Filter.all_isWordChar (Filter.all_timestampText t)
  | date d => exact Except.ok.inj h ▸ Filter.all_isWordChar (Filter.all_dateText d)
  | time c => exact Except.ok.inj h ▸ Filter.all_isWordChar (Filter.all_clockText c)

namespace Literal

/-- The string that a literal has in quotes, if it is written with quotes. -/
def quoted? (l : Literal) : Option String :=
  match l.type, l.value with
  | .date, _ | .guid, _ => none
  | _, .text s => some s
  | _, _ => none

/-- The text that goes out as it stands. -/
def verbatim? (l : Literal) : Option String :=
  match l.type, l.value with
  | .guid, .text s => some s
  | _, _ => none

theorem verbatim?_ofValue (v : Value) : (ofValue v).verbatim? = none := by cases v <;> rfl

theorem render_of_quoted? {l : Literal} {s : String} (h : l.quoted? = some s) :
    l.render = .ok (Text.Quoted.quote s) := by
  obtain ⟨v, type⟩ := l
  rw [quoted?.eq_def] at h
  split at h
  · cases h
  · cases h
  · next s hvalue hdate hguid =>
    obtain rfl := Option.some.inj h
    obtain rfl : v = .text s := hvalue
    cases type with
    | date => exact absurd rfl hdate
    | guid => exact absurd rfl hguid
    | _ => rfl
  · cases h

/-- Whatever is not in quotes is a word of its own, unless it goes out as it stands. -/
theorem render_of_unquoted {l : Literal} {text : String} (hquoted : l.quoted? = none)
    (h : l.render = .ok text) :
    text.toList.all Filter.isWordChar = true ∨ l.verbatim? = some text := by
  obtain ⟨v, type⟩ := l
  rw [render] at h
  split at h
  · exact .inl (Value.all_isWordChar_of_render (v := .null) h (by simp))
  · obtain ⟨d, -, rfl⟩ := map_eq_ok.1 h
    exact .inl (Value.all_isWordChar_of_render (v := .date d) rfl (by simp))
  · next htype hvalue =>
    obtain rfl := Except.ok.inj h
    exact .inr (by rw [verbatim?, htype, hvalue])
  · next hdate _ hguid =>
    refine .inl (Value.all_isWordChar_of_render h ?_)
    rintro s rfl
    cases type with
    | date => exact hdate rfl
    | guid => exact hguid s rfl rfl
    | _ => cases hquoted

end Literal

theorem Filter.not_mem_of_all_isWordChar {cs : List Char} (h : cs.all isWordChar = true) :
    '\'' ∉ cs := fun hmem => Bool.false_ne_true (List.all_eq_true.1 h _ hmem)

mutual

/-- What a tree has in it that is written as it stands: paths, range variables, and identifiers that
are texts. -/
def Expression.verbatim : Expression → List String
  | .node _ operands _ => Operand.verbatimAll operands

@[inherit_doc Expression.verbatim]
def Operand.verbatim : Operand → List String
  | .literal l => l.verbatim?.toList
  | .field f => [f.text]
  | .variable name => [name]
  | .expression e => e.verbatim
  | .list items => Operand.verbatimAll items
  | _ => []

@[inherit_doc Expression.verbatim]
def Operand.verbatimAll : List Operand → List String
  | [] => []
  | x :: rest => x.verbatim ++ Operand.verbatimAll rest

end

/-- The strings among constants. -/
def Literal.texts (ls : List Literal) : List String := ls.filterMap quoted?

/-- The strings in an operand, in reading order. -/
def Operand.texts (x : Operand) : List String := Literal.texts x.constants

theorem Operand.texts_constantsAll (xs : List Operand) :
    Literal.texts (constantsAll xs) = xs.flatMap texts := by
  induction xs with
  | nil => rfl
  | cons x rest ih =>
    rw [constantsAll, Literal.texts, List.filterMap_append, ← Literal.texts, ← Literal.texts, ih]
    rfl

namespace Literal

variable {plain : Char → Prop} (hplain : ∀ c, c ≠ '\'' → plain c) {l : Literal} {text : String}

include hplain

theorem holds_of_render (hverbatim : ∀ s ∈ l.verbatim?, ∀ c ∈ s.toList, plain c)
    (h : l.render = .ok text) : Holds plain l.quoted?.toList text := by
  cases hquoted : l.quoted? with
  | some s =>
    obtain rfl := Except.ok.inj ((render_of_quoted? hquoted).symm.trans h)
    exact .quote s
  | none =>
    rcases render_of_unquoted hquoted h with hword | hraw
    · exact .free hplain (Filter.not_mem_of_all_isWordChar hword)
    · exact .nil (hverbatim text hraw)

theorem holds_of_fragment (hverbatim : ∀ s ∈ l.verbatim?, ∀ c ∈ s.toList, plain c) {f : Fragment}
    (h : l.fragment = .ok f) : Holds plain (texts [l]) f.joined := by
  rw [fragment] at h
  split at h
  · next text hrender =>
    obtain rfl := Except.ok.inj h
    have htexts : texts [l] = l.quoted?.toList := by
      rw [texts, List.filterMap_cons]
      cases l.quoted? <;> rfl
    rw [Fragment.joined_atom, htexts]
    exact holds_of_render hplain hverbatim hrender
  · cases h

end Literal

/-! ## Trees -/

namespace Fragment

variable {plain : Char → Prop} (hplain : ∀ c, c ≠ '\'' → plain c) {xs : List Operand}
  (h : ∀ x ∈ xs, ∀ f, x.fragment = .ok f → Holds plain x.texts f.joined)

include hplain h

theorem holds_composeBinary {operator : Operator} {f : Fragment}
    (hf : composeBinary operator (xs.map Operand.fragment) = .ok f) :
    Holds plain (xs.flatMap Operand.texts) f.joined := by
  rw [composeBinary.eq_def] at hf
  split at hf
  · next write l r hwrite hpieces =>
    obtain ⟨x, y, rfl⟩ : ∃ x y, xs = [x, y] := by
      refine List.length_eq_two.1 ?_
      rw [← List.length_map, hpieces]
      rfl
    obtain ⟨rfl, rfl⟩ : x.fragment = l ∧ y.fragment = r := by simpa using hpieces
    obtain ⟨left, hl, hf⟩ := bind_eq_ok.1 hf
    obtain ⟨right, hr, hf⟩ := bind_eq_ok.1 hf
    obtain rfl := Except.ok.inj hf
    have hx := holds_reduce hplain (h x (by simp) left hl)
    have hy := holds_reduce hplain (h y (by simp) right hr)
    rw [joined_atom]
    simpa using holds_binary hplain hwrite hx hy
  · cases hf

theorem holds_composeJoint {operator : Operator} {j : Joint} {f : Fragment}
    (hf : composeJoint operator j (xs.map Operand.fragment) = .ok f) :
    Holds plain (xs.flatMap Operand.texts) f.joined := by
  rcases xs with _ | ⟨x, _ | ⟨y, _ | ⟨z, more⟩⟩⟩
  · cases hf
  · cases hf
  · obtain ⟨left, hl, hf⟩ := bind_eq_ok.1 hf
    obtain ⟨right, hr, hf⟩ := bind_eq_ok.1 hf
    obtain rfl := Except.ok.inj hf
    have hx := h x (by simp) left hl
    have hy := h y (by simp) right hr
    simpa using holds_join hplain (x.isSound_of_fragment hl) (y.isSound_of_fragment hr) hx hy j
  · cases hf

/-- The text in front of a body ends with the range variable, which may hold quotes. -/
theorem holds_composeQuantifier {operator : Operator} {word : String} (hword : '\'' ∉ word.toList)
    {f : Fragment}
    (hf : composeQuantifier operator word xs (xs.map Operand.fragment) = .ok f) :
    Holds plain (xs.flatMap Operand.texts) f.joined := by
  rw [composeQuantifier.eq_def] at hf
  split at hf
  · next x name y collection piece body hpieces =>
    obtain ⟨hx, -, hy⟩ : x.fragment = collection ∧ _ ∧ y.fragment = body := by
      simpa using hpieces
    obtain ⟨left, hl, hf⟩ := bind_eq_ok.1 hf
    obtain ⟨right, hr, hf⟩ := bind_eq_ok.1 hf
    obtain rfl := Except.ok.inj hf
    have hcollection := holds_reduce hplain (h x (by simp) left (hx.trans hl))
    have hbody := (h y (by simp) right (hy.trans hr)).enclosed hplain (u := ": ") (by decide)
    have hname := (h (.variable name) (by simp) (atom name) rfl).append hbody (by simp)
    have hquantified := (hname.behind hplain (u := "(") (by decide)).behind hplain hword
    have hall := hcollection.separated hplain "/" (by decide) hquantified
    rw [joined_atom]
    simpa [Operand.texts, Operand.constants, Literal.texts, String.append_assoc] using hall
  · cases hf
  · cases hf

omit hplain in
/-- Operators of one operand. -/
theorem holds_single {operator : Operator} {make : Written → Written}
    (hmake : ∀ ss w, (∀ g, w = .ok g → Holds plain ss g.joined) →
      ∀ g, make w = .ok g → Holds plain ss g.joined) {f : Fragment}
    (hf : (match xs.map Operand.fragment with
      | [piece] => make piece
      | _ => .error (.unsupportedOperator operator)) = .ok f) :
    Holds plain (xs.flatMap Operand.texts) f.joined := by
  rcases xs with _ | ⟨x, _ | ⟨y, more⟩⟩
  · cases hf
  · simpa using hmake _ _ (h x (by simp)) f hf
  · cases hf

/-- **A node holds the literals of its operands**, one operand after the other. -/
theorem holds_compose {operator : Operator} {f : Fragment}
    (hf : compose operator xs (xs.map Operand.fragment) = .ok f) :
    Holds plain (xs.flatMap Operand.texts) f.joined := by
  rw [compose.eq_def] at hf
  split at hf
  · exact holds_single h (fun _ _ hw => hw) hf
  · exact holds_single h (fun _ _ hw => hw) hf
  · refine holds_single h (fun ss w hw g hg => ?_) hf
    obtain ⟨inner, hinner, rfl⟩ := map_eq_ok.1 hg
    exact holds_negate hplain (hw inner hinner)
  · exact holds_composeJoint hplain h hf
  · exact holds_composeJoint hplain h hf
  · exact holds_composeQuantifier hplain h (by decide) hf
  · exact holds_composeQuantifier hplain h (by decide) hf
  · exact holds_composeBinary hplain h hf

/-- A list holds the literals of its items. -/
theorem holds_listing {f : Fragment} (hf : listing (xs.map Operand.fragment) = .ok f) :
    Holds plain (xs.flatMap Operand.texts) f.joined := by
  obtain ⟨fs, hfs, rfl⟩ := map_eq_ok.1 hf
  have hitems := (List.forall₂_and_left ..).2 ⟨h, List.forall₂_map_left_iff.1 (mapM_eq_ok.1 hfs)⟩
  rw [joined_atom]
  refine .intercalate hplain (by decide) (List.forall₂_map_right_iff.2 (hitems.imp ?_))
  rintro x g ⟨hx, hg⟩
  exact holds_reduce hplain (hx g hg)

end Fragment

section Trees

variable {plain : Char → Prop}

mutual

/-- **Every predicate that is written holds its literals.** -/
theorem Expression.holds_of_fragment (hplain : ∀ c, c ≠ '\'' → plain c) (e : Expression)
    (hverbatim : ∀ s ∈ e.verbatim, ∀ c ∈ s.toList, plain c) {f : Fragment}
    (h : e.fragment = .ok f) : Holds plain (Literal.texts e.constants) f.joined := by
  match e with
  | .node operator operands previous =>
    rw [Expression.fragment, Operand.fragments_eq_map] at h
    rw [Expression.constants, Operand.texts_constantsAll]
    exact Fragment.holds_compose hplain (Operand.holds_of_mem hplain operands hverbatim) h

theorem Operand.holds_of_fragment (hplain : ∀ c, c ≠ '\'' → plain c) (x : Operand)
    (hverbatim : ∀ s ∈ x.verbatim, ∀ c ∈ s.toList, plain c) {f : Fragment}
    (h : x.fragment = .ok f) : Holds plain x.texts f.joined := by
  match x with
  | .literal l =>
    rw [Operand.fragment] at h
    exact Literal.holds_of_fragment hplain (by simpa [Operand.verbatim] using hverbatim) h
  | .bare v =>
    rw [Operand.fragment, Value.fragment_eq] at h
    exact Literal.holds_of_fragment hplain (by simp [Literal.verbatim?_ofValue]) h
  | .field p =>
    obtain ⟨w, hw, rfl⟩ := map_eq_ok.1 h
    obtain ⟨_, _, rfl⟩ := map_eq_ok.1 hw
    rw [Fragment.joined_atom]
    exact .nil (by simpa [Operand.verbatim] using hverbatim)
  | .variable name =>
    obtain rfl := Except.ok.inj h
    rw [Fragment.joined_atom]
    exact .nil (by simpa [Operand.verbatim] using hverbatim)
  | .expression e =>
    rw [Operand.fragment] at h
    split at h
    · cases h
    · exact Expression.holds_of_fragment hplain e hverbatim h
  | .list items =>
    rw [Operand.fragment, Operand.fragments_eq_map] at h
    rw [Operand.texts, Operand.constants, Operand.texts_constantsAll]
    exact Fragment.holds_listing hplain (Operand.holds_of_mem hplain items hverbatim) h
  | .projection p => cases h

theorem Operand.holds_of_mem (hplain : ∀ c, c ≠ '\'' → plain c) (xs : List Operand)
    (hverbatim : ∀ s ∈ Operand.verbatimAll xs, ∀ c ∈ s.toList, plain c) :
    ∀ x ∈ xs, ∀ f, x.fragment = .ok f → Holds plain x.texts f.joined := by
  match xs with
  | [] => exact nofun
  | x :: rest =>
    rw [Operand.verbatimAll, List.forall_mem_append] at hverbatim
    exact List.forall_mem_cons.2
      ⟨fun f hf => Operand.holds_of_fragment hplain x hverbatim.1 hf,
        Operand.holds_of_mem hplain rest hverbatim.2⟩

end

end Trees

/-! ## Chains -/

/-- The strings that a step writes in quotes. -/
def Step.texts (s : Step) : List String := Literal.texts s.constants

/-- What a step has in it that is written as it stands. -/
def Step.verbatim (s : Step) : List String := Operand.verbatimAll s.2

namespace Segments

variable {steps : List Step} {s : Step}

/-- A step that was accepted among others is accepted by itself, unless it is an `expand`. -/
theorem verdict_of_mem (hsteps : Accepted steps) {slot : Slot} (hexpand : slot ≠ .expand)
    (hs : s ∈ slot.of steps) : s.1.slot? = some slot ∧ verdict s = .ok () := by
  obtain ⟨hmem, hslot⟩ := List.mem_filter.1 hs
  have hslot : s.1.slot? = some slot := of_decide_eq_true hslot
  obtain ⟨older, newer, hsplit⟩ := List.append_of_mem hmem
  have hverdict := hsteps older s newer hsplit
  rw [verdictAfter] at hverdict
  split at hverdict
  · next hexcused =>
    have hoperator : s.1 = .expand := by
      rw [excuses, Bool.and_eq_true, beq_iff_eq] at hexcused
      exact hexcused.1
    rw [hoperator] at hslot
    exact absurd (Option.some.inj hslot).symm hexpand
  · exact ⟨hslot, hverdict⟩

/-- A filter that is accepted is one predicate, and is written. -/
theorem condition_of_verdict (hslot : s.1.slot? = some .filter) (h : verdict s = .ok ()) :
    ∃ e f, s = (.predicate, [.expression e]) ∧ e.fragment = .ok f ∧ condition s = some f := by
  obtain ⟨operator, xs⟩ := s
  obtain rfl : operator = .predicate := by
    cases operator with
    | predicate => rfl
    | _ => cases hslot
  obtain ⟨d, (hd : Draft.empty.predicate xs = .ok d), -⟩ :=
    map_eq_ok.1 ((verdict_eq _).symm.trans h)
  rw [Draft.predicate.eq_def] at hd
  split at hd
  · next e =>
    obtain ⟨f, hf, -⟩ := map_eq_ok.1 (eq_ok_of_ite hd)
    exact ⟨e, f, rfl, hf, toOption_eq_some.2 hf⟩
  · cases hd

/-- A key that is accepted is one constant, and is written. -/
theorem keyText_of_verdict (hslot : s.1.slot? = some .key) (h : verdict s = .ok ()) :
    ∃ x f, s = (.getByKey, [x]) ∧ x.fragment = .ok f ∧ keyText s = some f.joined := by
  obtain ⟨operator, xs⟩ := s
  obtain rfl : operator = .getByKey := by
    cases operator with
    | getByKey => rfl
    | _ => cases hslot
  obtain ⟨d, (hd : Draft.empty.key xs = .ok d), -⟩ := map_eq_ok.1 ((verdict_eq _).symm.trans h)
  rw [Draft.key.eq_def] at hd
  split at hd
  · next x =>
    obtain ⟨k, hk, -⟩ := map_eq_ok.1 hd
    have hfragment : ∃ f, x.fragment = .ok f ∧ f.joined = k := by
      rw [Draft.keyText.eq_def] at hk
      split at hk
      · exact map_eq_ok.1 hk
      · exact map_eq_ok.1 hk
      · next e =>
        split at hk
        · next he =>
          rw [Operand.fragment, if_neg (by simp [he.2])]
          exact map_eq_ok.1 hk
        · cases hk
      · cases hk
    obtain ⟨f, hf, rfl⟩ := hfragment
    exact ⟨x, f, rfl, hf, toOption_eq_some.2 hk⟩
  · cases hd

variable {plain : Char → Prop} (hplain : ∀ c, c ≠ '\'' → plain c)

include hplain

/-- Several conditions, all of which have to hold. -/
theorem holds_conjunction {α : Type} {strings : α → List String} {xs : List α} {fs : List Fragment}
    (h : List.Forall₂ (fun x f => Holds plain (strings x) f.joined) xs fs) {text : String}
    (htext : conjunction fs = some text) : Holds plain (xs.flatMap strings) text := by
  cases h with
  | nil => cases htext
  | cons hx hrest =>
    cases hrest with
    | nil =>
      obtain rfl := Option.some.inj htext
      simpa using hx
    | cons hy hmore =>
      obtain rfl := Option.some.inj htext
      have hreduce := hmore.imp fun _ _ hg => Fragment.holds_reduce hplain hg
      exact .intercalate hplain (by decide) (.cons (Fragment.holds_sideText hplain hx .and)
        (.cons (Fragment.holds_reduce hplain hy) (List.forall₂_map_right_iff.2 hreduce)))

/-- The filter of a chain holds the literals of all its conditions. -/
theorem holds_filter (hsteps : Accepted steps)
    (hverbatim : ∀ v ∈ (Slot.filter.of steps).flatMap Step.verbatim, ∀ c ∈ v.toList, plain c)
    {text : String} (htext : (meaning steps).filter = some text) :
    Holds plain ((Slot.filter.of steps).flatMap Step.texts) text := by
  refine holds_conjunction hplain ?_ htext
  have hconditions : ∀ s ∈ Slot.filter.of steps, ∃ f, condition s = some f ∧
      Holds plain s.texts f.joined := by
    intro s hs
    obtain ⟨hslot, hverdict⟩ := verdict_of_mem hsteps (by decide) hs
    obtain ⟨e, f, rfl, hf, hcondition⟩ := condition_of_verdict hslot hverdict
    have htexts : Step.texts (.predicate, [.expression e]) = Literal.texts e.constants :=
      congrArg Literal.texts (List.append_nil _)
    refine ⟨f, hcondition, htexts ▸ e.holds_of_fragment hplain (fun v hv => ?_) hf⟩
    exact hverbatim v (List.mem_flatMap.2 ⟨_, hs, List.mem_append_left _ hv⟩)
  generalize Slot.filter.of steps = filters at hconditions
  induction filters with
  | nil => exact .nil
  | cons s rest ih =>
    rw [List.forall_mem_cons] at hconditions
    obtain ⟨⟨f, hf, hholds⟩, hrest⟩ := hconditions
    rw [List.filterMap_cons_some hf]
    exact .cons hholds (ih hrest)

end Segments

/-! ## Strings are safe -/

namespace Segments

theorem exists_url_eq {s : Segments} {key : String} (hkey : s.key = some key) (endpoint : String) :
    ∃ rest, s.url endpoint = endpoint ++ "(" ++ key ++ (")" ++ rest) := by
  refine ⟨(if s.value then "/$value" else "") ++
    if s.queryString = "" then "" else "?" ++ s.queryString, String.toList_inj.1 ?_⟩
  rw [toList_url, toList_pathText hkey]
  by_cases hquery : s.queryString = "" <;> cases s.value <;> simp [hquery]

/-- **No string ends its literal early, and none runs into what follows it.**  A literal is read back
from its opening quote, with the text behind it left, exactly if that does not begin with a quote; and
whatever the strings are, no literal is followed by a quote, neither in a piece of a filter (a list of
items is one), nor in the filter of a chain, nor in the URL with a key in it. -/
theorem scan_literals :
    (∀ (s : String) (t : List Char),
      Text.Quoted.scan ((Text.Quoted.quote s).toList ++ t) = some (s.toList, t) ↔
        t.head? ≠ some '\'') ∧
    (∀ (x : Operand) (f : Fragment), x.fragment = .ok f → Keeps x.verbatim x.texts f.joined) ∧
    ∀ (head : Option Expression) (s : Segments), ofChain head = .ok s →
      (∀ text, s.filter = some text →
        Keeps ((Slot.filter.of (Expression.steps head)).flatMap Step.verbatim)
          ((Slot.filter.of (Expression.steps head)).flatMap Step.texts) text) ∧
      ∀ step, (Slot.key.of (Expression.steps head)).getLast? = some step →
        ∃ key, s.key = some key ∧ Keeps step.verbatim step.texts key ∧
          ∀ endpoint, Holds (fun _ => True) step.texts (s.url endpoint) := by
  refine ⟨fun s t => Text.Quoted.scan_quote_iff, fun x f hf => ?_, fun head s hs => ?_⟩
  · exact .of_holds fun plain hplain hverbatim => x.holds_of_fragment hplain hverbatim hf
  · obtain ⟨hsteps, rfl⟩ := ofChain_eq_ok.1 hs
    constructor
    · intro text htext
      exact .of_holds fun plain hplain hverbatim => holds_filter hplain hsteps hverbatim htext
    · intro step hstep
      obtain ⟨hslot, hverdict⟩ :=
        verdict_of_mem hsteps (by decide) (List.mem_of_getLast? hstep)
      obtain ⟨x, f, rfl, hf, hkeyText⟩ := keyText_of_verdict hslot hverdict
      have hkey : (meaning (Expression.steps head)).key = some f.joined := by
        rw [meaning, hstep]
        exact hkeyText
      have hkeeps : Keeps x.verbatim x.texts f.joined :=
        .of_holds fun plain hplain hverbatim => x.holds_of_fragment hplain hverbatim hf
      have htexts : Step.texts (.getByKey, [x]) = x.texts :=
        congrArg Literal.texts (List.append_nil _)
      have hraw : Step.verbatim (.getByKey, [x]) = x.verbatim := List.append_nil _
      rw [htexts, hraw]
      refine ⟨f.joined, hkey, hkeeps, fun endpoint => ?_⟩
      obtain ⟨rest, hurl⟩ := exists_url_eq hkey endpoint
      rw [hurl]
      have h := (hkeeps.holds.behind_plain (u := endpoint ++ "(") fun _ _ => trivial).append
        (t := ")" ++ rest) (.nil fun _ _ => trivial) (by simp)
      rwa [List.append_nil] at h

/-- Strings that are made to break out: into a filter of two conditions, one of them on a list, and
into the key. -/
def hostileChain : Option Expression :=
  Expression.ofSteps
    [(.predicate, [.expression (.alone .contains
      [.field ⟨["owner", "name"]⟩, .literal (.ofValue (.text "') or contains(name,'"))])]),
    (.getByKey, [.bare (.text "')/$value?x='")]),
    (.predicate, [.expression (.alone .oneOf
      [.field ⟨["name"]⟩, .list [.bare (.text "'"), .bare (.text "''a','b'"), .bare .null]])])]

/-- They are read back from the left on, one after the other. -/
theorem scan_literals_hostile :
    ∃ s text, ofChain hostileChain = .ok s ∧ s.filter = some text ∧
      text = "contains(owner/name,''') or contains(name,''') and name in ('''','''''a'',''b''',null)" ∧
      Text.Quoted.strings text.toList =
        some (["') or contains(name,'", "'", "''a','b'"].map String.toList) ∧
      Keeps [] ["'", "''a','b'"] "'''','''''a'',''b''',null" ∧
      (∃ key, s.key = some key ∧ Keeps [] ["')/$value?x='"] key) ∧
      Text.Quoted.scan ((Text.Quoted.quote "''").toList ++ [')']) = some (['\'', '\''], [')']) := by
  obtain ⟨s, hs⟩ : ∃ s, ofChain hostileChain = .ok s := ⟨_, rfl⟩
  obtain ⟨hfilter, hkey⟩ := scan_literals.2.2 hostileChain s hs
  obtain rfl := Except.ok.inj hs
  have htext := hfilter _ rfl
  have hlist := scan_literals.2.1
    (.list [.bare (.text "'"), .bare (.text "''a','b'"), .bare .null]) _ rfl
  refine ⟨_, _, rfl, rfl, rfl, htext.strings_eq (by decide), hlist, ?_,
    (scan_literals.1 "''" [')']).2 (by decide)⟩
  obtain ⟨key, hkey, hkeeps, -⟩ := hkey _ rfl
  exact ⟨key, hkey, hkeeps⟩

end Segments

end EntityQuery
