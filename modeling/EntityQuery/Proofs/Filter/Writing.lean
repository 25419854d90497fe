import EntityQuery.Proofs.Filter.Fragment
import EntityQuery.Proofs.Filter.Operand

/-!
# Writing a reading

`Predicate.Built p r` says that the builders made the predicate `p`, and which reading `r` a reader
should find in it.  It has one rule for each builder, so a proof about all predicates that can be
built is an induction on it.

Such a predicate is written as its reading is (`Predicate.Built.fragment_eq`): `Reading.piece`
writes a reading as a fragment, and `Reading.level` is the level that its text is taken apart into
(`Reading.IsPlain.spells`).  From here on predicates are out of the way, and everything is said
about readings.
-/

set_option autoImplicit false

namespace EntityQuery

open EntityQuery.Filter

/-! ## Words of conditions -/

/-- The sign or the function of a comparison. -/
def Comparison.word : Comparison → String
  | .equals => "eq"
  | .notEquals => "ne"
  | .greaterThan => "gt"
  | .greaterThanOrEqualTo => "ge"
  | .lessThan => "lt"
  | .lessThanOrEqualTo => "le"
  | .contains => "contains"
  | .startsWith => "startswith"
  | .endsWith => "endswith"

/-- Whether a comparison is a function of its operands rather than a sign between them. -/
def Comparison.isFunction : Comparison → Bool
  | .contains | .startsWith | .endsWith => true
  | _ => false

/-- How a comparison is written. -/
def Comparison.write (c : Comparison) (left right : String) : String :=
  if c.isFunction then c.word ++ "(" ++ left ++ "," ++ right ++ ")"
  else left ++ " " ++ c.word ++ " " ++ right

def Quantifier.word : Quantifier → String
  | .any => "any"
  | .all => "all"

theorem Comparison.compose_eq (c : Comparison) (operands : List Operand) (f g : Fragment) :
    Fragment.compose c.operator operands [.ok f, .ok g] =
      .ok (.atom (c.write f.reduce g.reduce)) := by
  cases c <;> rfl

theorem Quantifier.compose_eq (q : Quantifier) (x y : Operand) (name : String) (w : Written)
    (f b : Fragment) :
    Fragment.compose q.operator [x, .variable name, y] [.ok f, w, .ok b] =
      .ok (.atom (f.reduce ++ "/" ++ q.word ++ "(" ++ name ++ ": " ++ b.joined ++ ")")) := by
  cases q <;> rfl

theorem Fragment.compose_oneOf (operands : List Operand) (f g : Fragment) :
    Fragment.compose .oneOf operands [.ok f, .ok g] =
      .ok (.atom (f.reduce ++ " in (" ++ g.reduce ++ ")")) := rfl

/-! ## What builders make -/

/-- An operand that stands for one constant or field, and its text.  Either may be a node of its
own. -/
inductive Operand.IsTerm : Operand → String → Prop
  | literal {l : Literal} {s : String} (h : l.render = .ok s) (hraw : ¬ l.IsRaw) :
      IsTerm (.literal l) s
  | bare {v : Value} {s : String} (h : v.render = .ok s) : IsTerm (.bare v) s
  | field {f : Field} (h : f.IsNamed) : IsTerm (.field f) f.text
  | literalNode {l : Literal} {s : String} (h : l.render = .ok s) (hraw : ¬ l.IsRaw) :
      IsTerm (.expression (.ofLiteral l)) s
  | fieldNode {f : Field} (h : f.IsNamed) : IsTerm (.expression (.ofField f)) f.text

/-- A predicate as the builders make it, with the tree that it stands for. -/
inductive Predicate.Built : Predicate → Filter.Reading → Prop
  | compare (c : Comparison) {f : Field} {x : Operand} {s : String} (hf : f.IsNamed)
      (hx : x.IsTerm s) :
      Built (Predicate.compare c f x) (.compare c (.operand f.text) (.operand s))
  | oneOf {f : Field} {values : List Value} {items : List String} (hf : f.IsNamed)
      (hitems : values.map Value.render = items.map .ok) :
      Built (Predicate.oneOf f values) (.oneOf (.operand f.text) items)
  | join (j : Joint) {p q : Predicate} {r s : Filter.Reading} (hp : Built p r) (hq : Built q s) :
      Built (Predicate.join j p q) (.join j r s)
  | negate {p : Predicate} {r : Filter.Reading} (hp : Built p r) : Built p.negate (.negate r)
  | quantify (q : Quantifier) {f : Field} {name : String} {p : Predicate} {r : Filter.Reading}
      (hf : f.IsNamed) (hname : IsName name) (hp : Built p r) :
      Built (Predicate.quantify q f name p) (.quantify q f.text name r)

/-! ## Readings as fragments -/

namespace Filter.Reading

/-- A reading as it is written. -/
def piece : Reading → Fragment
  | operand text => .atom text
  | compare c l r => .atom (c.write l.piece.reduce r.piece.reduce)
  | oneOf l items => .atom (l.piece.reduce ++ " in (" ++ ",".intercalate items ++ ")")
  | quantify q collection name body =>
    .atom (collection ++ "/" ++ q.word ++ "(" ++ name ++ ": " ++ body.piece.joined ++ ")")
  | negate r => r.piece.negate
  | join j l r => .join j l.piece r.piece

theorem isSound_piece (r : Reading) : r.piece.IsSound := by
  induction r with
  | join j l r ihl ihr => exact ihl.join ihr j
  | negate r _ => exact Fragment.isSound_negate _
  | _ => exact Fragment.isSound_atom _

/-- What joins the pieces of a reading joins the reading. -/
theorem joint_piece (r : Reading) : r.piece.joint = r.joint? := by
  cases r with
  | negate r =>
    cases hj : r.piece.joint with
    | none => rw [piece, r.isSound_piece.negate_of_none hj]; rfl
    | some j => rw [piece, r.isSound_piece.negate_of_some hj]; rfl
  | _ => rfl

end Filter.Reading

/-- A literal of a value is written as the value is. -/
theorem Literal.render_ofValue (v : Value) : (Literal.ofValue v).render = v.render := by
  cases v <;> rfl

theorem Literal.fragment_eq {l : Literal} {s : String} (h : l.render = .ok s) :
    l.fragment = .ok (.atom s) := by
  rw [Literal.fragment, h]

theorem Operand.IsTerm.fragment_eq {x : Operand} {s : String} (h : x.IsTerm s) :
    x.fragment = .ok (.atom s) := by
  cases h with
  | literal h _ => rw [Operand.fragment, Literal.fragment_eq h]
  | bare h => rw [Operand.fragment, Value.fragment, h]
  | field h => rw [Operand.fragment, h.written_eq]; rfl
  | literalNode h _ => rw [Operand.fragment_ofLiteral, Literal.fragment_eq h]
  | fieldNode h =>
    rw [Operand.fragment_ofField, Operand.fragment, h.written_eq]
    rfl

theorem Operand.IsTerm.isOperand {x : Operand} {s : String} (h : x.IsTerm s) : IsOperand s := by
  cases h with
  | literal h hraw => exact Literal.isOperand_of_render h hraw
  | bare h => exact Value.isOperand_of_render h
  | field h => exact h.isOperand_text
  | literalNode h hraw => exact Literal.isOperand_of_render h hraw
  | fieldNode h => exact h.isOperand_text

/-- Values are written one by one. -/
theorem Operand.fragments_literals {values : List Value} {items : List String}
    (h : values.map Value.render = items.map .ok) :
    Operand.fragments (values.map fun v => .literal (.ofValue v)) =
      (items.map Fragment.atom).map .ok := by
  induction values generalizing items with
  | nil =>
    obtain rfl : items = [] := by simpa using h.symm
    rw [List.map_nil, Operand.fragments]
    rfl
  | cons v rest ih =>
    cases items with
    | nil => cases h
    | cons s more =>
      obtain ⟨hv, hrest⟩ := List.cons.inj h
      have hl : (Literal.ofValue v).render = .ok s := by rw [Literal.render_ofValue, hv]
      rw [List.map_cons, Operand.fragments, Operand.fragment, Literal.fragment_eq hl, ih hrest]
      rfl

theorem Fragment.listing_ok (fs : List Fragment) :
    Fragment.listing (fs.map .ok) = .ok (.atom (",".intercalate (fs.map reduce))) := by
  have h : (fs.map Except.ok).mapM id = (.ok fs : Except QueryError (List Fragment)) := by
    induction fs with
    | nil => rfl
    | cons f rest ih =>
      rw [List.map_cons, List.mapM_cons, ih]
      rfl
  rw [Fragment.listing, h]
  rfl

theorem Field.IsNamed.fragment_eq {f : Field} (h : f.IsNamed) :
    (Operand.field f).fragment = .ok (.atom f.text) := by
  rw [Operand.fragment, h.written_eq]
  rfl

/-- **A predicate is written as its reading is.** -/
theorem Predicate.Built.fragment_eq {p : Predicate} {r : Filter.Reading} (h : p.Built r) :
    p.expression.fragment = .ok r.piece := by
  induction h with
  | compare c hf hx =>
    refine (Predicate.fragment_alone _ _ _).trans ?_
    rw [Operand.fragments, Operand.fragments, Operand.fragments, hf.fragment_eq, hx.fragment_eq,
      Comparison.compose_eq]
    rfl
  | oneOf hf hitems =>
    refine (Predicate.fragment_alone _ _ _).trans ?_
    rw [Operand.fragments, Operand.fragments, Operand.fragments, hf.fragment_eq, Operand.fragment,
      Operand.fragments_literals hitems, Fragment.listing_ok, Fragment.compose_oneOf, List.map_map]
    simp only [Function.comp_def, Fragment.reduce_atom, List.map_id']
    rfl
  | join j hp hq ihp ihq =>
    rw [Predicate.fragment_join, ihp, ihq]
    rfl
  | negate hp ih =>
    refine (Predicate.fragment_alone _ _ _).trans ?_
    rw [Operand.fragments, Operand.fragments, Predicate.fragment_operand, ih]
    rfl
  | quantify q hf hname hp ih =>
    refine (Predicate.fragment_alone _ _ _).trans ?_
    rw [Operand.fragments, Operand.fragments, Operand.fragments, Operand.fragments, hf.fragment_eq,
      Predicate.fragment_operand, ih, Quantifier.compose_eq]
    rfl

/-! ## Readings as levels -/

namespace Filter

/-- A level inside another: grouped, if it is joined. -/
def grouped (joint : Option Joint) (level : Level) : Level :=
  if joint = none then level else [.group level]

/-- A level on one side of a joint. -/
def sided (j : Joint) (joint : Option Joint) (level : Level) : Level :=
  if joint = some j then level else grouped joint level

/-- Words with commas between them. -/
def listed : List String → Level
  | [] => []
  | [s] => [.word s]
  | s :: t :: rest => .word s :: .comma :: listed (t :: rest)

/-- The level that the text of a reading is taken apart into. -/
def Reading.level : Reading → Level
  | .operand text => [.word text]
  | .compare c l r =>
    if c.isFunction then [.word c.word, .group (l.level ++ .comma :: r.level)]
    else l.level ++ .word c.word :: r.level
  | .oneOf l items => l.level ++ [.word "in", .group (listed items)]
  | .quantify q collection name body =>
    [.word (collection ++ "/" ++ q.word), .group (.word (name ++ ":") :: body.level)]
  | .negate r => .word "not" :: grouped r.joint? r.level
  | .join j l r =>
    sided j l.joint? l.level ++ .word j.keyword :: sided j r.joint? r.level

/-- A condition in which everything that should be a word is one. -/
inductive Reading.IsPlain : Reading → Prop
  | compare (c : Comparison) {s t : String} (hs : IsOperand s) (ht : IsOperand t) :
      IsPlain (.compare c (.operand s) (.operand t))
  | oneOf {s : String} {items : List String} (hs : IsOperand s)
      (hitems : ∀ t ∈ items, IsOperand t) : IsPlain (.oneOf (.operand s) items)
  | join (j : Joint) {r s : Reading} (hr : IsPlain r) (hs : IsPlain s) : IsPlain (.join j r s)
  | negate {r : Reading} (hr : IsPlain r) : IsPlain (.negate r)
  | quantify (q : Quantifier) {collection name : String} {r : Reading}
      (hcollection : collection.toList.all isWordChar = true)
      (hname : name.toList.all isWordChar = true) (hr : IsPlain r) :
      IsPlain (.quantify q collection name r)

end Filter

/-- Whatever was built is plain. -/
theorem Predicate.Built.isPlain {p : Predicate} {r : Filter.Reading} (h : p.Built r) :
    r.IsPlain := by
  induction h with
  | compare c hf hx => exact .compare c hf.isOperand_text hx.isOperand
  | oneOf hf hitems =>
    refine .oneOf hf.isOperand_text fun t ht => ?_
    have hmem : Except.ok t ∈ List.map Value.render _ := hitems ▸ List.mem_map_of_mem ht
    obtain ⟨v, _, hv⟩ := List.mem_map.1 hmem
    exact Value.isOperand_of_render hv
  | join j hp hq ihp ihq => exact .join j ihp ihq
  | negate hp ih => exact .negate ih
  | quantify q hf hname hp ih => exact .quantify q hf.all_isWordChar_text hname.all_isWordChar ih

namespace Filter

theorem Spells.reduce {f : Fragment} (hf : f.IsSound) {level : Level}
    (h : Spells f.joined.toList level) : Spells f.reduce.toList (grouped f.joint level) := by
  cases hj : f.joint with
  | none => rw [hf.reduce_of_none hj]; exact h
  | some j =>
    have hg : (("(" ++ f.joined ++ ")").toList) = '(' :: f.joined.toList ++ [')'] := by simp
    rw [hf.reduce_of_some hj, hg]
    exact h.group

theorem Spells.sideText {f : Fragment} (hf : f.IsSound) {level : Level}
    (h : Spells f.joined.toList level) (j : Joint) :
    Spells (f.sideText j).toList (sided j f.joint level) := by
  rw [Fragment.sideText_eq, sided]
  split
  · exact h
  · exact h.reduce hf

/-- A negation is the word for it, and what it negates. -/
theorem Spells.negate {f : Fragment} (hf : f.IsSound) {level : Level}
    (h : Spells f.joined.toList level) :
    Spells f.negate.joined.toList (.word "not" :: grouped f.joint level) := by
  have hnot : Spells "not".toList [.word "not"] := .word (by decide) (by decide)
  cases hj : f.joint with
  | none =>
    have ht : ("not " ++ f.joined).toList = "not".toList ++ ' ' :: f.joined.toList := by simp
    rw [hf.negate_of_none hj, Fragment.joined_atom, ht]
    exact hnot.spaced h
  | some j =>
    have ht : ("not(" ++ f.joined ++ ")").toList =
        "not".toList ++ ('(' :: f.joined.toList ++ [')']) := by simp
    rw [hf.negate_of_some hj, Fragment.joined_atom, ht]
    exact hnot.applied h

theorem Spells.listed {items : List String} (h : ∀ s ∈ items, IsOperand s) :
    Spells (",".intercalate items).toList (listed items) := by
  induction items with
  | nil => exact .nil
  | cons s rest ih =>
    have hs := (h s List.mem_cons_self).spells
    cases rest with
    | nil =>
      rw [String.intercalate_singleton]
      exact hs
    | cons t more =>
      have ht : (",".intercalate (s :: t :: more)).toList =
          s.toList ++ ',' :: (",".intercalate (t :: more)).toList := by
        rw [String.intercalate_cons_cons]
        simp
      rw [ht]
      exact hs.separated (ih fun u hu => h u (List.mem_cons_of_mem _ hu))

/-- The words of comparisons are words. -/
theorem Spells.comparison (c : Comparison) : Spells c.word.toList [.word c.word] := by
  cases c <;> exact .word (by decide) (by decide)

theorem Spells.compare (c : Comparison) {s t : String} {x y : Level} (hs : Spells s.toList x)
    (ht : Spells t.toList y) :
    Spells (c.write s t).toList
      (if c.isFunction then [.word c.word, .group (x ++ .comma :: y)]
        else x ++ .word c.word :: y) := by
  rw [Comparison.write]
  split
  · have h : (c.word ++ "(" ++ s ++ "," ++ t ++ ")").toList =
        c.word.toList ++ ('(' :: (s.toList ++ ',' :: t.toList) ++ [')']) := by simp
    rw [h]
    exact (Spells.comparison c).applied (hs.separated ht)
  · have h : (s ++ " " ++ c.word ++ " " ++ t).toList =
        s.toList ++ ' ' :: (c.word.toList ++ ' ' :: t.toList) := by simp
    rw [h]
    exact hs.spaced ((Spells.comparison c).spaced ht)

theorem Spells.oneOf {s t : String} {x y : Level} (hs : Spells s.toList x)
    (ht : Spells t.toList y) :
    Spells (s ++ " in (" ++ t ++ ")").toList (x ++ [.word "in", .group y]) := by
  have h : (s ++ " in (" ++ t ++ ")").toList =
      s.toList ++ ' ' :: ("in".toList ++ ' ' :: ('(' :: t.toList ++ [')'])) := by simp
  have hin : Spells "in".toList [.word "in"] := .word (by decide) (by decide)
  rw [h]
  exact hs.spaced (hin.spaced ht.group)

theorem Spells.quantify (q : Quantifier) {collection name body : String} {x : Level}
    (hcollection : collection.toList.all isWordChar = true)
    (hname : name.toList.all isWordChar = true) (hbody : Spells body.toList x) :
    Spells (collection ++ "/" ++ q.word ++ "(" ++ name ++ ": " ++ body ++ ")").toList
      [.word (collection ++ "/" ++ q.word), .group (.word (name ++ ":") :: x)] := by
  have h : (collection ++ "/" ++ q.word ++ "(" ++ name ++ ": " ++ body ++ ")").toList =
      (collection ++ "/" ++ q.word).toList ++
        ('(' :: ((name ++ ":").toList ++ ' ' :: body.toList) ++ [')']) := by simp
  have hword : ("/" ++ q.word).toList.all isWordChar = true := by cases q <;> decide
  have hcolon : ":".toList.all isWordChar = true := by decide
  have hfirst : Spells (collection ++ "/" ++ q.word).toList
      [.word (collection ++ "/" ++ q.word)] := by
    refine .word (by simp) ?_
    rw [String.append_assoc, String.toList_append, List.all_append, hcollection, hword]
    rfl
  have hsecond : Spells (name ++ ":").toList [.word (name ++ ":")] := by
    refine .word (by simp) ?_
    rw [String.toList_append, List.all_append, hname, hcolon]
    rfl
  rw [h]
  exact hfirst.applied (hsecond.spaced hbody)

/-- **The text of a plain reading is taken apart into its level.** -/
theorem Reading.IsPlain.spells {r : Reading} (h : r.IsPlain) :
    Spells r.piece.joined.toList r.level := by
  induction h with
  | compare c hs ht =>
    rw [Reading.piece, Fragment.joined_atom]
    exact Spells.compare c hs.spells ht.spells
  | oneOf hs hitems =>
    rw [Reading.piece, Fragment.joined_atom]
    exact Spells.oneOf hs.spells (Spells.listed hitems)
  | @join j r s hr hs ihr ihs =>
    have ht : (Reading.join j r s).piece.joined.toList =
        (r.piece.sideText j).toList ++
          ' ' :: (j.keyword.toList ++ ' ' :: (s.piece.sideText j).toList) := by
      rw [Reading.piece, r.isSound_piece.joined_join s.isSound_piece]
      simp
    have hj : Spells j.keyword.toList [.word j.keyword] := by
      cases j <;> exact .word (by decide) (by decide)
    rw [ht, Reading.level, ← r.joint_piece, ← s.joint_piece]
    exact (ihr.sideText r.isSound_piece j).spaced (hj.spaced (ihs.sideText s.isSound_piece j))
  | @negate r hr ih =>
    rw [Reading.piece, Reading.level, ← r.joint_piece]
    exact ih.negate r.isSound_piece
  | quantify q hcollection hname hr ih =>
    rw [Reading.piece, Fragment.joined_atom]
    exact Spells.quantify q hcollection hname ih

end Filter

end EntityQuery
