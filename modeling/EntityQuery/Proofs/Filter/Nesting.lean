import EntityQuery.Proofs.Condition.Naming
import EntityQuery.Proofs.Filter.Ambiguity
import EntityQuery.Proofs.Filter.WellFormed

/-!
# Comparisons inside comparisons

The builders compare a field with a constant or a field, but an operand of a comparison may be any
expression.  `Operand.Shows` relates an expression to the tree that it is meant to be, a reading with
fields and integers at its leaves.  A list is there only on the right of `in`, with leaves in it, and a
quantifier is about a field, as the builders make them; anything else may be under anything else.
Nodes of a literal or a field reference show nothing of their own, and what is shown determines the
expression up to them (`Operand.Shows.unwrapped_eq`).

Operands that are comparisons or negations are written without parentheses, so the text of an
expression does not always determine the tree.  It does exactly if the tree is clear
(`Expression.filterText_determines_iff`).
-/

set_option autoImplicit false

namespace EntityQuery

open EntityQuery.Filter

/-! ## Leaves -/

namespace Filter

/-- A segment of a path that could not be taken for a number or for several segments. -/
structure IsIdentifier (s : String) : Prop where
  isWord : IsWord s
  not_mem_slash : '/' ∉ s.toList
  not_number : ∀ c ∈ s.toList.head?, c.isDigit = false ∧ c ≠ '-'

instance (s : String) : Decidable (IsIdentifier s) :=
  decidable_of_iff
    (IsWord s ∧ '/' ∉ s.toList ∧ (s.toList.head?.all fun c => !c.isDigit && c != '-') = true)
    ⟨fun h => ⟨h.1, h.2.1, by simpa [Option.all_eq_true] using h.2.2⟩,
      fun h => ⟨h.isWord, h.not_mem_slash, by simpa [Option.all_eq_true] using h.not_number⟩⟩

end Filter

/-- A path of identifiers. -/
structure Field.IsProper (f : Field) : Prop where
  ne_nil : f.path ≠ []
  isIdentifier : ∀ s ∈ f.path, IsIdentifier s

instance (f : Field) : Decidable f.IsProper :=
  decidable_of_iff (f.path ≠ [] ∧ ∀ s ∈ f.path, IsIdentifier s)
    ⟨fun h => ⟨h.1, h.2⟩, fun h => ⟨h.ne_nil, h.isIdentifier⟩⟩

namespace Field.IsProper

variable {f g : Field}

theorem validate_eq (h : f.IsProper) : f.validate = .ok () :=
  Field.validate_eq_ok_iff.2 ⟨h.ne_nil, fun s hs => isBlank_of_isWordChar
    (h.isIdentifier s hs).isWord.ne_empty (h.isIdentifier s hs).isWord.all_isWordChar⟩

/-- The path can be told from its text. -/
theorem eq_of_text_eq (hf : f.IsProper) (hg : g.IsProper) (h : f.text = g.text) : f = g := by
  have hof {f : Field} (hf : f.IsProper) : Field.ofText f.text = f :=
    Field.ofText_intercalate hf.ne_nil fun s hs => (hf.isIdentifier s hs).not_mem_slash
  rw [← hof hf, ← hof hg, h]

/-- Its text begins with an identifier, and goes on with characters of words. -/
theorem exists_text (h : f.IsProper) :
    ∃ s rest, IsIdentifier s ∧ rest.toList.all isWordChar = true ∧ f.text = s ++ rest := by
  obtain ⟨path⟩ := f
  obtain ⟨s, rest, rfl⟩ := List.exists_cons_of_ne_nil h.ne_nil
  have hs := h.isIdentifier s List.mem_cons_self
  by_cases hrest : rest = []
  · subst hrest
    exact ⟨s, "", hs, rfl, by simp [Field.text]⟩
  · have hslash : "/".toList.all isWordChar = true := by decide
    have hword : ("/".intercalate rest).toList.all isWordChar = true :=
      all_isWordChar_intercalate fun t ht =>
        (h.isIdentifier t (List.mem_cons_of_mem _ ht)).isWord.all_isWordChar
    refine ⟨s, "/" ++ "/".intercalate rest, hs, ?_, ?_⟩
    · rw [String.toList_append, List.all_append, hslash, hword, Bool.and_self]
    · rw [Field.text, String.intercalate_cons_of_ne_nil hrest, String.append_assoc]

theorem isWord_text (h : f.IsProper) : IsWord f.text := by
  obtain ⟨s, rest, hs, hrest, htext⟩ := h.exists_text
  rw [htext]
  exact hs.isWord.append hrest

/-- A path does not begin like a number. -/
theorem head?_text (h : f.IsProper) : ∀ c ∈ f.text.toList.head?, c.isDigit = false ∧ c ≠ '-' := by
  obtain ⟨s, rest, hs, -, htext⟩ := h.exists_text
  have hne : s.toList ≠ [] := mt String.toList_eq_nil_iff.1 hs.isWord.ne_empty
  rw [htext, String.toList_append, List.head?_append_of_ne_nil _ hne]
  exact hs.not_number

end Field.IsProper

namespace Decimal

theorem toList_text_ofInt (n : Int) :
    (ofInt n).text.toList = (if n < 0 then ['-'] else []) ++ (Nat.repr n.natAbs).toList := by
  have hwhole (ds : List Char) : wholeText ds 0 = ds := by simp [wholeText]
  have hzero : ['0'] = (Nat.repr (0 : Int).natAbs).toList := by decide
  have hscale : (0 : Int).natAbs = 0 := rfl
  rw [text, ofInt]
  simp only [Int.lt_irrefl, if_false, hscale, hwhole]
  by_cases hn : n = 0
  · subst hn
    decide
  · rw [if_neg hn, String.toList_ofList]
    split <;> rfl

theorem exists_repr (k : Nat) : ∃ c rest, (Nat.repr k).toList = c :: rest ∧ c.isDigit = true := by
  obtain ⟨c, rest, hrepr⟩ := List.exists_cons_of_ne_nil (repr_ne_nil k)
  refine ⟨c, rest, hrepr, ?_⟩
  have hmem : c ∈ Nat.toDigits 10 k := by
    rw [← Nat.toList_repr, hrepr]
    exact List.mem_cons_self
  exact Nat.isDigit_of_mem_toDigits (by decide) (by decide) hmem

/-- An integer begins with a digit or a sign. -/
theorem head?_text_ofInt (n : Int) :
    ∃ c ∈ (ofInt n).text.toList.head?, c.isDigit = true ∨ c = '-' := by
  obtain ⟨c, rest, hrepr, hc⟩ := exists_repr n.natAbs
  rw [toList_text_ofInt, hrepr]
  split
  · exact ⟨'-', rfl, .inr rfl⟩
  · exact ⟨c, rfl, .inl hc⟩

/-- **An integer is determined by its text.** -/
theorem ofInt_eq_of_text_eq {m n : Int} (h : (ofInt m).text = (ofInt n).text) : m = n := by
  have hne (j k : Nat) : '-' :: (Nat.repr j).toList ≠ (Nat.repr k).toList := by
    intro h
    obtain ⟨c, rest, hrepr, hc⟩ := exists_repr k
    obtain ⟨rfl, -⟩ := List.cons.inj (h.trans hrepr)
    exact absurd hc (by decide)
  have hlists := congrArg String.toList h
  rw [toList_text_ofInt, toList_text_ofInt] at hlists
  by_cases hm : m < 0 <;> by_cases hn : n < 0
  · rw [if_pos hm, if_pos hn] at hlists
    have hnat := repr_injective (String.toList_inj.1 (List.append_cancel_left hlists))
    omega
  · rw [if_pos hm, if_neg hn] at hlists
    exact absurd hlists (hne _ _)
  · rw [if_neg hm, if_pos hn] at hlists
    exact absurd hlists.symm (hne _ _)
  · rw [if_neg hm, if_neg hn] at hlists
    have hnat := repr_injective (String.toList_inj.1 (List.append_cancel_left hlists))
    omega

end Decimal

/-- What stands at the leaves of a tree. -/
inductive Leaf
  | field (f : Field)
  | integer (n : Int)

namespace Leaf

def operand : Leaf → Operand
  | field f => .field f
  | integer n => .literal (.ofValue (.number (.ofInt n)))

def text : Leaf → String
  | field f => f.text
  | integer n => (Decimal.ofInt n).text

/-- Fields are paths of identifiers. -/
def IsProper : Leaf → Prop
  | field f => f.IsProper
  | integer _ => True

theorem isWord_text {l : Leaf} (h : l.IsProper) : IsWord l.text := by
  cases l with
  | field f => exact Field.IsProper.isWord_text h
  | integer n =>
    refine ⟨fun hempty => ?_, all_isWordChar (all_decimalText _)⟩
    obtain ⟨c, hc, -⟩ := Decimal.head?_text_ofInt n
    have hnil : (Decimal.ofInt n).text = "" := hempty
    rw [hnil] at hc
    cases hc

theorem fragment_operand {l : Leaf} (h : l.IsProper) : l.operand.fragment = .ok (.atom l.text) := by
  cases l with
  | field f =>
    have hf : f.validate = .ok () := Field.IsProper.validate_eq h
    rw [operand, Operand.fragment, Field.written, hf]
    rfl
  | integer n =>
    rw [operand, Operand.fragment]
    rfl

/-- **A leaf is determined by its text.** -/
theorem eq_of_text_eq {l m : Leaf} (hl : l.IsProper) (hm : m.IsProper) (h : l.text = m.text) :
    l = m := by
  -- No field begins like an integer.
  have hne {f : Field} (hf : f.IsProper) (n : Int) : f.text ≠ (Decimal.ofInt n).text := by
    intro heq
    obtain ⟨c, hc, hnumber⟩ := Decimal.head?_text_ofInt n
    obtain ⟨hdigit, hdash⟩ := hf.head?_text c (heq ▸ hc)
    rcases hnumber with hnumber | hnumber
    · rw [hnumber] at hdigit
      cases hdigit
    · exact hdash hnumber
  cases l with
  | field f =>
    cases m with
    | field g => rw [Field.IsProper.eq_of_text_eq hl hm h]
    | integer n => exact absurd h (hne hl n)
  | integer n =>
    cases m with
    | field g => exact absurd h.symm (hne hm n)
    | integer k => rw [Decimal.ofInt_eq_of_text_eq h]

theorem eq_of_texts_eq {ls ms : List Leaf} (hls : ∀ l ∈ ls, l.IsProper) (hms : ∀ m ∈ ms, m.IsProper)
    (h : ls.map text = ms.map text) : ls = ms := by
  induction ls generalizing ms with
  | nil => exact (List.map_eq_nil_iff.1 h.symm).symm
  | cons l rest ih =>
    cases ms with
    | nil => cases h
    | cons m rest' =>
      rw [List.forall_mem_cons] at hls hms
      obtain ⟨htext, hrest⟩ := List.cons.inj h
      rw [eq_of_text_eq hls.1 hms.1 htext, ih hls.2 hms.2 hrest]

end Leaf

/-- The text of a leaf. -/
def Leaf.IsText (t : String) : Prop := ∃ l : Leaf, l.IsProper ∧ l.text = t

/-- The text of a field. -/
def Field.IsText (t : String) : Prop := ∃ f : Field, f.IsProper ∧ f.text = t

/-! ## Expressions and their trees -/

/-- Whether an operator makes a node of a literal or a field, without adding to it. -/
def Operator.isWrapper : Operator → Bool
  | .literal | .fieldReference => true
  | _ => false

/-- An operand that is a leaf, whatever nodes are around it. -/
inductive Operand.IsLeaf : Operand → Leaf → Prop
  | leaf {l : Leaf} (h : l.IsProper) : IsLeaf l.operand l
  | wrapped {o : Operator} (ho : o.isWrapper = true) {x : Operand} {l : Leaf} (h : IsLeaf x l) :
      IsLeaf (.expression (.alone o [x])) l

/-- An operand, with the tree that it stands for.  Apart from the wrappers there is one rule for each
kind of node. -/
inductive Operand.Shows : Operand → Filter.Reading → Prop
  | leaf {l : Leaf} (h : l.IsProper) : Shows l.operand (.operand l.text)
  | wrapped {o : Operator} (ho : o.isWrapper = true) {x : Operand} {r : Filter.Reading}
      (h : Shows x r) : Shows (.expression (.alone o [x])) r
  | compare (c : Comparison) {x y : Operand} {l r : Filter.Reading} (hx : Shows x l)
      (hy : Shows y r) : Shows (.expression (.alone c.operator [x, y])) (.compare c l r)
  | oneOf {x : Operand} {l : Filter.Reading} (hx : Shows x l) {items : List (Operand × Leaf)}
      (hitems : ∀ p ∈ items, p.1.IsLeaf p.2) :
      Shows (.expression (.alone .oneOf [x, .list (items.map Prod.fst)]))
        (.oneOf l (items.map fun p => p.2.text))
  | quantify (q : Quantifier) {x y : Operand} {f : Field} (hx : x.IsLeaf (.field f))
      {name : String} (hname : IsWord name) {body : Filter.Reading} (hy : Shows y body) :
      Shows (.expression (.alone q.operator [x, .variable name, y]))
        (.quantify q f.text name body)
  | negate {x : Operand} {r : Filter.Reading} (hx : Shows x r) :
      Shows (.expression (.alone .not [x])) (.negate r)
  | join (j : Joint) {x y : Operand} {l r : Filter.Reading} (hx : Shows x l) (hy : Shows y r) :
      Shows (.expression (.alone j.operator [x, y])) (.join j l r)

namespace Operand

theorem fragment_alone (operator : Operator) (operands : List Operand) :
    (expression (.alone operator operands)).fragment =
      Fragment.compose operator operands (fragments operands) := by
  rw [fragment, if_neg (by exact Bool.false_ne_true), Expression.fragment_alone]

theorem fragment_wrapped {o : Operator} (ho : o.isWrapper = true) (x : Operand) :
    (expression (.alone o [x])).fragment = x.fragment := by
  rw [fragment_alone, fragments, fragments]
  cases o <;> first | rfl | cases ho

namespace IsLeaf

variable {x : Operand} {l : Leaf}

theorem isProper (h : x.IsLeaf l) : l.IsProper := by
  induction h with
  | leaf h => exact h
  | wrapped _ _ ih => exact ih

theorem fragment_eq (h : x.IsLeaf l) : x.fragment = .ok (.atom l.text) := by
  induction h with
  | leaf h => exact Leaf.fragment_operand h
  | wrapped ho _ ih => rw [fragment_wrapped ho, ih]

end IsLeaf

theorem fragments_leaves {items : List (Operand × Leaf)} (h : ∀ p ∈ items, p.1.IsLeaf p.2) :
    fragments (items.map Prod.fst) = (items.map fun p => Fragment.atom p.2.text).map .ok := by
  induction items with
  | nil => rfl
  | cons p rest ih =>
    rw [List.forall_mem_cons] at h
    rw [List.map_cons, fragments, h.1.fragment_eq, ih h.2]
    rfl

namespace Shows

variable {x : Operand} {r : Filter.Reading}

/-- **An expression is written as its tree is.** -/
theorem fragment_eq (h : x.Shows r) : x.fragment = .ok r.piece := by
  induction h with
  | leaf h => exact Leaf.fragment_operand h
  | wrapped ho _ ih => rw [fragment_wrapped ho, ih]
  | compare c _ _ ihx ihy =>
    rw [fragment_alone, fragments, fragments, fragments, ihx, ihy, Comparison.compose_eq]
    rfl
  | oneOf _ hitems ih =>
    rw [fragment_alone, fragments, fragments, fragments, ih, fragment, fragments_leaves hitems,
      Fragment.listing_ok, Fragment.compose_oneOf, List.map_map]
    rfl
  | quantify q hx hname _ ih =>
    rw [fragment_alone, fragments, fragments, fragments, fragments, hx.fragment_eq, ih,
      Quantifier.compose_eq]
    rfl
  | negate _ ih =>
    rw [fragment_alone, fragments, fragments, ih]
    rfl
  | join j _ _ ihx ihy =>
    rw [fragment_alone, fragments, fragments, fragments, ihx, ihy]
    cases j <;> rfl

/-- What a tree consists of. -/
theorem isMadeOf (h : x.Shows r) : r.IsMadeOf Leaf.IsText Field.IsText IsWord := by
  induction h with
  | leaf h => exact ⟨_, h, rfl⟩
  | wrapped _ _ ih => exact ih
  | compare c _ _ ihx ihy => exact ⟨ihx, ihy⟩
  | oneOf _ hitems ih =>
    refine ⟨ih, fun t ht => ?_⟩
    obtain ⟨p, hp, rfl⟩ := List.mem_map.1 ht
    exact ⟨p.2, (hitems p hp).isProper, rfl⟩
  | quantify q hx hname _ ih => exact ⟨⟨_, hx.isProper, rfl⟩, hname, ih⟩
  | negate _ ih => exact ih
  | join j _ _ ihx ihy => exact ⟨ihx, ihy⟩

end Shows

theorem exists_leaves {items : List String} (h : ∀ t ∈ items, Leaf.IsText t) :
    ∃ leaves : List (Operand × Leaf), (∀ p ∈ leaves, p.1.IsLeaf p.2) ∧
      items = leaves.map fun p => p.2.text := by
  induction items with
  | nil => exact ⟨[], nofun, rfl⟩
  | cons t rest ih =>
    rw [List.forall_mem_cons] at h
    obtain ⟨⟨l, hl, rfl⟩, hrest⟩ := h
    obtain ⟨leaves, hleaves, rfl⟩ := ih hrest
    exact ⟨(l.operand, l) :: leaves, List.forall_mem_cons.2 ⟨.leaf hl, hleaves⟩, rfl⟩

/-- **Any tree is shown by some expression.** -/
theorem exists_shows {r : Filter.Reading} (h : r.IsMadeOf Leaf.IsText Field.IsText IsWord) :
    ∃ e : Expression, (expression e).Shows r := by
  induction r with
  | operand text =>
    obtain ⟨l, hl, rfl⟩ := h
    exact ⟨.alone .literal [l.operand], .wrapped rfl (.leaf hl)⟩
  | compare c l r ihl ihr =>
    obtain ⟨e, he⟩ := ihl h.1
    obtain ⟨f, hf⟩ := ihr h.2
    exact ⟨_, .compare c he hf⟩
  | oneOf l items ih =>
    obtain ⟨e, he⟩ := ih h.1
    obtain ⟨leaves, hleaves, rfl⟩ := exists_leaves h.2
    exact ⟨_, .oneOf he hleaves⟩
  | quantify q collection name body ih =>
    obtain ⟨⟨f, hf, rfl⟩, hname, hbody⟩ := h
    obtain ⟨e, he⟩ := ih hbody
    exact ⟨_, .quantify q (.leaf (l := .field f) hf) hname he⟩
  | negate r ih =>
    obtain ⟨e, he⟩ := ih h
    exact ⟨_, .negate he⟩
  | join j l r ihl ihr =>
    obtain ⟨e, he⟩ := ihl h.1
    obtain ⟨f, hf⟩ := ihr h.2
    exact ⟨_, .join j he hf⟩

end Operand

/-! ## Without wrappers -/

/-- A node, or the operand that it only is around. -/
def Operand.ofNode (operator : Operator) (previous : Option Expression) : List Operand → Operand
  | [x] =>
    if operator.isWrapper && previous.isNone then x
    else .expression (.node operator [x] previous)
  | xs => .expression (.node operator xs previous)

mutual

/-- An expression without the nodes that only are around an operand. -/
def Expression.unwrapped : Expression → Operand
  | .node operator operands previous =>
    .ofNode operator previous (Operand.unwrappedAll operands)

/-- An operand without such nodes. -/
def Operand.unwrapped : Operand → Operand
  | .expression e => e.unwrapped
  | .list xs => .list (Operand.unwrappedAll xs)
  | x => x

/-- Operands without such nodes. -/
def Operand.unwrappedAll : List Operand → List Operand
  | [] => []
  | x :: rest => x.unwrapped :: Operand.unwrappedAll rest

end

namespace Operand

theorem unwrapped_alone (o : Operator) (xs : List Operand) :
    (expression (.alone o xs)).unwrapped = ofNode o none (unwrappedAll xs) := by
  rw [unwrapped, Expression.alone, Expression.unwrapped]

theorem unwrapped_wrapped {o : Operator} (ho : o.isWrapper = true) (x : Operand) :
    (expression (.alone o [x])).unwrapped = x.unwrapped := by
  rw [unwrapped_alone, unwrappedAll, unwrappedAll, ofNode, ho]
  rfl

theorem unwrapped_operand (l : Leaf) : l.operand.unwrapped = l.operand := by
  cases l with
  | field f => rw [Leaf.operand, unwrapped]; all_goals exact nofun
  | integer n => rw [Leaf.operand, unwrapped]; all_goals exact nofun

theorem IsLeaf.unwrapped_eq {x : Operand} {l : Leaf} (h : x.IsLeaf l) :
    x.unwrapped = l.operand := by
  induction h with
  | leaf _ => exact unwrapped_operand _
  | wrapped ho _ ih => rw [unwrapped_wrapped ho, ih]

theorem unwrappedAll_leaves {items : List (Operand × Leaf)} (h : ∀ p ∈ items, p.1.IsLeaf p.2) :
    unwrappedAll (items.map Prod.fst) = (items.map Prod.snd).map Leaf.operand := by
  induction items with
  | nil => rfl
  | cons p rest ih =>
    rw [List.forall_mem_cons] at h
    rw [List.map_cons, unwrappedAll, h.1.unwrapped_eq, ih h.2]
    rfl

end Operand

/-- Whether an operand without such nodes shows a tree. -/
def Filter.Reading.IsTreeOf (x : Operand) : Filter.Reading → Prop
  | .operand text => ∃ l : Leaf, l.IsProper ∧ l.text = text ∧ x = l.operand
  | .compare c l r => ∃ y z, l.IsTreeOf y ∧ r.IsTreeOf z ∧
      x = .expression (.alone c.operator [y, z])
  | .oneOf l items => ∃ (y : Operand) (leaves : List Leaf), l.IsTreeOf y ∧
      (∀ m ∈ leaves, m.IsProper) ∧ leaves.map Leaf.text = items ∧
      x = .expression (.alone .oneOf [y, .list (leaves.map Leaf.operand)])
  | .quantify q collection name body => ∃ (f : Field) (y : Operand), f.IsProper ∧
      f.text = collection ∧ body.IsTreeOf y ∧
      x = .expression (.alone q.operator [.field f, .variable name, y])
  | .negate r => ∃ y, r.IsTreeOf y ∧ x = .expression (.alone .not [y])
  | .join j l r => ∃ y z, l.IsTreeOf y ∧ r.IsTreeOf z ∧
      x = .expression (.alone j.operator [y, z])

namespace Operand

variable {x y : Operand} {r : Filter.Reading}

theorem Shows.isTreeOf (h : x.Shows r) : r.IsTreeOf x.unwrapped := by
  induction h with
  | leaf h => exact ⟨_, h, rfl, unwrapped_operand _⟩
  | wrapped ho _ ih => rwa [unwrapped_wrapped ho]
  | compare c _ _ ihx ihy => exact ⟨_, _, ihx, ihy, unwrapped_alone _ _⟩
  | @oneOf x l hx items hitems ih =>
    refine ⟨_, items.map Prod.snd, ih, fun m hm => ?_, List.map_map, ?_⟩
    · obtain ⟨p, hp, rfl⟩ := List.mem_map.1 hm
      exact (hitems p hp).isProper
    · rw [unwrapped_alone, unwrappedAll, unwrappedAll, unwrappedAll, unwrapped,
        unwrappedAll_leaves hitems]
      rfl
  | @quantify q x y f hx name hname body hy ih =>
    refine ⟨f, _, hx.isProper, rfl, ih, ?_⟩
    rw [unwrapped_alone, unwrappedAll, unwrappedAll, unwrappedAll, unwrappedAll, hx.unwrapped_eq]
    rfl
  | negate _ ih =>
    refine ⟨_, ih, ?_⟩
    rw [unwrapped_alone, unwrappedAll, unwrappedAll, ofNode]
    rfl
  | join j _ _ ihx ihy => exact ⟨_, _, ihx, ihy, unwrapped_alone _ _⟩

theorem eq_of_isTreeOf (hx : r.IsTreeOf x) (hy : r.IsTreeOf y) : x = y := by
  induction r generalizing x y with
  | operand text =>
    obtain ⟨l, hl, htext, rfl⟩ := hx
    obtain ⟨m, hm, rfl, rfl⟩ := hy
    rw [Leaf.eq_of_text_eq hl hm htext]
  | compare c l r ihl ihr =>
    obtain ⟨a, b, ha, hb, rfl⟩ := hx
    obtain ⟨a', b', ha', hb', rfl⟩ := hy
    rw [ihl ha ha', ihr hb hb']
  | oneOf l items ih =>
    obtain ⟨a, leaves, ha, hleaves, htexts, rfl⟩ := hx
    obtain ⟨a', leaves', ha', hleaves', rfl, rfl⟩ := hy
    rw [ih ha ha', Leaf.eq_of_texts_eq hleaves hleaves' htexts]
  | quantify q collection name body ih =>
    obtain ⟨f, a, hf, htext, ha, rfl⟩ := hx
    obtain ⟨f', a', hf', rfl, ha', rfl⟩ := hy
    rw [ih ha ha', hf.eq_of_text_eq hf' htext]
  | negate r ih =>
    obtain ⟨a, ha, rfl⟩ := hx
    obtain ⟨a', ha', rfl⟩ := hy
    rw [ih ha ha']
  | join j l r ihl ihr =>
    obtain ⟨a, b, ha, hb, rfl⟩ := hx
    obtain ⟨a', b', ha', hb', rfl⟩ := hy
    rw [ihl ha ha', ihr hb hb']

/-- **A tree determines its expression, up to nodes around literals and fields.** -/
theorem Shows.unwrapped_eq (hx : x.Shows r) (hy : y.Shows r) : x.unwrapped = y.unwrapped :=
  eq_of_isTreeOf hx.isTreeOf hy.isTreeOf

end Operand

/-! ## What a text determines -/

namespace Expression

/-- The tree that an expression stands for. -/
abbrev Shows (e : Expression) (r : Filter.Reading) : Prop := (Operand.expression e).Shows r

variable {e : Expression} {r : Filter.Reading}

theorem Shows.exists_alone (h : e.Shows r) :
    ∃ operator operands, e = alone operator operands ∧ operator.isQuery = false := by
  have hshows : (Operand.expression e).Shows r := h
  generalize hx : Operand.expression e = x at hshows
  cases hshows with
  | @leaf l hl => cases l <;> cases hx
  | @wrapped o ho x r h =>
    obtain rfl := Operand.expression.inj hx
    exact ⟨o, [x], rfl, by cases o <;> first | rfl | cases ho⟩
  | compare c hx' hy =>
    obtain rfl := Operand.expression.inj hx
    exact ⟨_, _, rfl, c.isQuery_operator⟩
  | oneOf hx' hitems =>
    obtain rfl := Operand.expression.inj hx
    exact ⟨_, _, rfl, rfl⟩
  | quantify q hx' hname hy =>
    obtain rfl := Operand.expression.inj hx
    exact ⟨_, _, rfl, q.isQuery_operator⟩
  | negate hx' =>
    obtain rfl := Operand.expression.inj hx
    exact ⟨_, _, rfl, rfl⟩
  | join j hx' hy =>
    obtain rfl := Operand.expression.inj hx
    exact ⟨_, _, rfl, j.isQuery_operator⟩

/-- What shows a tree is accepted as a predicate. -/
theorem Shows.ofExpression (h : e.Shows r) :
    ∃ p, Predicate.ofExpression e = .ok p ∧ p.expression = e := by
  obtain ⟨operator, operands, rfl, hquery⟩ := h.exists_alone
  exact ⟨_, (Predicate.alone operator operands hquery).ofExpression_expression, rfl⟩

theorem Shows.filterText_eq (h : e.Shows r) : e.filterText = .ok (some r.piece.joined) := by
  obtain ⟨operator, operands, rfl, -⟩ := h.exists_alone
  have hfragment : (alone operator operands).fragment = .ok r.piece := by
    rw [← Operand.Shows.fragment_eq h, Operand.fragment, if_neg (by exact Bool.false_ne_true)]
  rw [Segments.filterText_of_unlinked rfl, hfragment]
  rfl

/-- **The text of an expression determines its tree exactly if the tree is clear.**  The expression
may be any that shows a tree, and so may be those that it is compared with: of the same text, they
show the same tree up to the bracketing of equal joints.  What shows the tree itself is the same
expression up to nodes that only are around an operand. -/
theorem filterText_determines_iff (h : e.Shows r) :
    (∃ p, Predicate.ofExpression e = .ok p ∧ p.expression = e) ∧
      (∃ text, e.filterText = .ok (some text)) ∧
      (∀ e' : Expression, e'.Shows r → e'.unwrapped = e.unwrapped) ∧
      ((∀ (e' : Expression) (s : Filter.Reading), e'.Shows s → e'.filterText = e.filterText →
        r.Regroups s) ↔ r.isClear = true) := by
  refine ⟨h.ofExpression, ⟨_, h.filterText_eq⟩, fun e' h' => Operand.Shows.unwrapped_eq h' h, ?_⟩
  have hleaf (t : String) (ht : Leaf.IsText t) : IsWord t := by
    obtain ⟨l, hl, rfl⟩ := ht
    exact Leaf.isWord_text hl
  have hfield (t : String) (ht : Field.IsText t) : IsWord t := by
    obtain ⟨f, hf, rfl⟩ := ht
    exact hf.isWord_text
  rw [← Reading.isClear_iff hleaf hfield (fun _ hn => hn) (Operand.Shows.isMadeOf h)]
  constructor
  · intro hall s hs hjoined
    obtain ⟨e', he'⟩ := Operand.exists_shows hs
    exact hall e' s he' (by rw [Shows.filterText_eq he', h.filterText_eq, hjoined])
  · intro hall e' s he' htext
    rw [he'.filterText_eq, h.filterText_eq] at htext
    exact hall s (Operand.Shows.isMadeOf he') (Option.some.inj (Except.ok.inj htext))

/-- A comparison with a negated call, and a negated group of comparisons whose left operands are a
group and a list.  Two of the fields are called like signs. -/
def nested : Expression :=
  .alone .and
    [.expression (.alone .equals
      [.expression (.ofField ⟨["a"]⟩), .expression (.alone .not [.expression (.alone .contains
        [.field ⟨["b", "name"]⟩, .literal (.ofValue (.number (.ofInt (-1))))])])]),
    .expression (.alone .not [.expression (.alone .or
      [.expression (.alone .greaterThan
        [.expression (.alone .and [.field ⟨["eq"]⟩, .field ⟨["not"]⟩]),
          .literal (.ofValue (.number (.ofInt 2)))]),
      .expression (.alone .lessThanOrEqualTo
        [.expression (.alone .oneOf [.field ⟨["a"]⟩, .list [.field ⟨["b"]⟩]]),
          .expression (.alone .any
            [.field ⟨["tags"]⟩, .variable "t", .expression (.alone .not [.field ⟨["t"]⟩])])])])])]

/-- It is the only one with its text. -/
theorem filterText_determines_iff_nested :
    nested.filterText = .ok (some ("a eq not contains(b/name,-1) and " ++
      "not((eq and not) gt 2 or a in (b) le tags/any(t: not t))")) ∧
    ∃ r : Filter.Reading, nested.Shows r ∧
      ∀ (e' : Expression) (s : Filter.Reading), e'.Shows s → e'.filterText = nested.filterText →
        r.Regroups s := by
  have hfield (f : Field) (hf : f.IsProper) : (Operand.field f).Shows (.operand f.text) :=
    .leaf (l := .field f) hf
  have hinteger (n : Int) : (Operand.literal (.ofValue (.number (.ofInt n)))).Shows
      (.operand (Decimal.ofInt n).text) := .leaf (l := .integer n) trivial
  have hitems : ∀ p ∈ [(Operand.field ⟨["b"]⟩, Leaf.field ⟨["b"]⟩)], p.1.IsLeaf p.2 := by
    rintro p hp
    obtain rfl := List.mem_singleton.1 hp
    exact .leaf (l := .field ⟨["b"]⟩) (show Field.IsProper ⟨["b"]⟩ by decide)
  have hshows : nested.Shows _ :=
    .join .and
      (.compare .equals (.wrapped (o := .fieldReference) rfl (hfield ⟨["a"]⟩ (by decide)))
        (.negate (.compare .contains (hfield ⟨["b", "name"]⟩ (by decide)) (hinteger (-1)))))
      (.negate (.join .or
        (.compare .greaterThan
          (.join .and (hfield ⟨["eq"]⟩ (by decide)) (hfield ⟨["not"]⟩ (by decide)))
          (hinteger 2))
        (.compare .lessThanOrEqualTo (.oneOf (hfield ⟨["a"]⟩ (by decide)) hitems)
          (.quantify .any (.leaf (l := .field ⟨["tags"]⟩) (show Field.IsProper ⟨["tags"]⟩ by decide))
            (show IsWord "t" by decide) (.negate (hfield ⟨["t"]⟩ (by decide)))))))
  refine ⟨hshows.filterText_eq.trans (by rfl), _, hshows, ?_⟩
  exact (filterText_determines_iff hshows).2.2.2.2 (by decide)

/-- **A comparison inside a comparison is not.**  Both `a eq (b eq 1)` and `(a eq b) eq 1` are written
`a eq b eq 1`. -/
theorem not_filterText_determines :
    (alone .equals [.field ⟨["a"]⟩, .expression (.alone .equals
        [.field ⟨["b"]⟩, .literal (.ofValue (.number (.ofInt 1)))])]).Shows
      (.compare .equals (.operand "a") (.compare .equals (.operand "b") (.operand "1"))) ∧
    (alone .equals [.expression (.alone .equals [.field ⟨["a"]⟩, .field ⟨["b"]⟩]),
        .literal (.ofValue (.number (.ofInt 1)))]).Shows
      (.compare .equals (.compare .equals (.operand "a") (.operand "b")) (.operand "1")) ∧
    (alone .equals [.field ⟨["a"]⟩, .expression (.alone .equals
        [.field ⟨["b"]⟩, .literal (.ofValue (.number (.ofInt 1)))])]).filterText =
      .ok (some "a eq b eq 1") ∧
    (alone .equals [.expression (.alone .equals [.field ⟨["a"]⟩, .field ⟨["b"]⟩]),
        .literal (.ofValue (.number (.ofInt 1)))]).filterText = .ok (some "a eq b eq 1") ∧
    ¬ (Filter.Reading.compare .equals (.operand "a")
        (.compare .equals (.operand "b") (.operand "1"))).Regroups
      (.compare .equals (.compare .equals (.operand "a") (.operand "b")) (.operand "1")) := by
  have ha : (Operand.field ⟨["a"]⟩).Shows (.operand "a") :=
    .leaf (l := .field ⟨["a"]⟩) (show Field.IsProper ⟨["a"]⟩ by decide)
  have hb : (Operand.field ⟨["b"]⟩).Shows (.operand "b") :=
    .leaf (l := .field ⟨["b"]⟩) (show Field.IsProper ⟨["b"]⟩ by decide)
  have hone : (Operand.literal (.ofValue (.number (.ofInt 1)))).Shows (.operand "1") :=
    .leaf (l := .integer 1) trivial
  have hright : (alone .equals [.field ⟨["a"]⟩, .expression (.alone .equals
      [.field ⟨["b"]⟩, .literal (.ofValue (.number (.ofInt 1)))])]).Shows
        (.compare .equals (.operand "a") (.compare .equals (.operand "b") (.operand "1"))) :=
    .compare .equals ha (.compare .equals hb hone)
  have hleft : (alone .equals [.expression (.alone .equals [.field ⟨["a"]⟩, .field ⟨["b"]⟩]),
      .literal (.ofValue (.number (.ofInt 1)))]).Shows
        (.compare .equals (.compare .equals (.operand "a") (.operand "b")) (.operand "1")) :=
    .compare .equals (.compare .equals ha hb) hone
  refine ⟨hright, hleft, hright.filterText_eq, hleft.filterText_eq, fun h => ?_⟩
  exact absurd h.reach_eq (by decide)

end Expression

end EntityQuery
