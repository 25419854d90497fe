import EntityQuery.Predicate
import EntityQuery.Proofs.Filter.Token

/-!
# Reading a filter

`Filter.read` says what a filter text means to somebody who has only the text: it takes the text
apart into a level (`EntityQuery.Proofs.Filter.Token`) and makes a `Reading` of the level.

The rules are those of precedence.  A level is cut at its last `or`; without one, at its last `and`;
without one it is a single condition.  What joins tighter is read on both sides of the cut, so equal
joints lean to the left.  A condition is cut at the last sign of a comparison, and an operand is a
word, a call, a quantifier, or a group, which is read as a text of its own.

One thing is left open, the `NotScope`: whether a `not` in front of a comparison negates the
comparison or only its left operand.  Both are read by the same rules, apart from the one line in
`condition` that looks at it.

`Reading.Regroups` relates readings that differ only in how equal joints are bracketed.  To a reader
they are the same condition, as `and` and `or` are associative.
-/

set_option autoImplicit false

namespace EntityQuery.Filter

/-! ## Readings -/

/-- A filter as it is read: operands by their texts, everything else as a tree. -/
inductive Reading
  | operand (text : String)
  | compare (c : Comparison) (left right : Reading)
  | oneOf (left : Reading) (items : List String)
  | quantify (q : Quantifier) (collection name : String) (body : Reading)
  | negate (inner : Reading)
  | join (j : Joint) (left right : Reading)
deriving DecidableEq

namespace Reading

/-- What joins the two sides of a reading. -/
def joint? : Reading → Option Joint
  | join j _ _ => some j
  | _ => none

/-- Readings that differ only in how equal joints are bracketed. -/
inductive Regroups : Reading → Reading → Prop
  | refl (r : Reading) : Regroups r r
  | symm {r s : Reading} (h : Regroups r s) : Regroups s r
  | trans {r s t : Reading} (h : Regroups r s) (k : Regroups s t) : Regroups r t
  | assoc (j : Joint) (r s t : Reading) :
      Regroups (join j (join j r s) t) (join j r (join j s t))
  | join (j : Joint) {r r' s s' : Reading} (h : Regroups r r') (k : Regroups s s') :
      Regroups (join j r s) (join j r' s')
  | negate {r r' : Reading} (h : Regroups r r') : Regroups (negate r) (negate r')
  | quantify (q : Quantifier) (collection name : String) {r r' : Reading}
      (h : Regroups r r') :
      Regroups (quantify q collection name r) (quantify q collection name r')
  | compare (c : Comparison) {r r' s s' : Reading} (h : Regroups r r') (k : Regroups s s') :
      Regroups (compare c r s) (compare c r' s')
  | oneOf {r r' : Reading} (h : Regroups r r') (items : List String) :
      Regroups (oneOf r items) (oneOf r' items)

/-- Joins a reading on the right of another, bracketed to the left. -/
def attach (j : Joint) (r : Reading) : Reading → Reading
  | join k s t => if k = j then join j (attach j r s) t else join j r (join k s t)
  | s => join j r s

theorem attach_join_eq (j k : Joint) (r s t : Reading) :
    attach j r (join k s t) = if k = j then join j (attach j r s) t else join j r (join k s t) :=
  rfl

theorem attach_of_joint?_ne {j : Joint} (r : Reading) {s : Reading} (h : s.joint? ≠ some j) :
    attach j r s = join j r s := by
  cases s with
  | join k s t =>
    have hk : k ≠ j := fun hk => h (congrArg some hk)
    rw [attach_join_eq, if_neg hk]
  | _ => rfl

theorem attach_join (j : Joint) (r s t : Reading) :
    attach j r (join j s t) = join j (attach j r s) t := by
  rw [attach_join_eq, if_pos rfl]

theorem attach_attach (j : Joint) (r s t : Reading) :
    attach j r (attach j s t) = attach j (attach j r s) t := by
  induction t with
  | join k t u iht ihu =>
    by_cases hk : k = j
    · subst hk
      rw [attach_join, attach_join, attach_join, iht]
    · have h : (join k t u).joint? ≠ some j := fun h => hk (Option.some.inj h)
      rw [attach_of_joint?_ne _ h, attach_of_joint?_ne _ h, attach_join]
  | _ => exact attach_join j r s _

theorem joint?_attach (j : Joint) (r s : Reading) : (attach j r s).joint? = some j := by
  cases s with
  | join k s t =>
    rw [attach_join_eq]
    split <;> rfl
  | _ => rfl

theorem regroups_attach (j : Joint) (r s : Reading) : Regroups (attach j r s) (join j r s) := by
  induction s with
  | join k s t ihs iht =>
    by_cases hk : k = j
    · subst hk
      rw [attach_join]
      exact (Regroups.join k ihs (.refl t)).trans (.assoc k r s t)
    · have h : (join k s t).joint? ≠ some j := fun h => hk (Option.some.inj h)
      rw [attach_of_joint?_ne _ h]
      exact .refl _
  | _ => exact .refl _

end Reading

/-! ## Words with a meaning -/

/-- What stands between the two sides of a condition. -/
inductive Sign
  | comparing (c : Comparison)
  | among

/-- The signs of conditions. -/
def signs : List (String × Sign) :=
  [("eq", .comparing .equals), ("ne", .comparing .notEquals), ("gt", .comparing .greaterThan),
    ("ge", .comparing .greaterThanOrEqualTo), ("lt", .comparing .lessThan),
    ("le", .comparing .lessThanOrEqualTo), ("in", .among)]

/-- The functions of two operands. -/
def functions : List (String × Comparison) :=
  [("contains", .contains), ("startswith", .startsWith), ("endswith", .endsWith)]

/-- Words that cannot be operands. -/
def keywords : List String := ["and", "or", "not"] ++ signs.map Prod.fst

def sign? (w : String) : Option Sign := signs.lookup w

def joins? (j : Joint) (w : String) : Option Unit := if w = j.keyword then some () else none

/-- A text without its ending, if it ends so. -/
def stem? (ending text : String) : Option String :=
  if ending.toList.isSuffixOf text.toList then
    some (String.ofList (text.toList.take (text.toList.length - ending.toList.length)))
  else none

/-- The collection that a quantifier stands behind. -/
def quantifier? (w : String) : Option (Quantifier × String) :=
  match stem? "/any" w with
  | some collection => some (.any, collection)
  | none => (stem? "/all" w).map (.all, ·)

/-! ## Readers -/

/-- How far a `not` reaches. -/
inductive NotScope
  /-- Over the whole condition that follows it. -/
  | condition
  /-- Over the operand that follows it, and not over a sign behind that: `not` binds tighter. -/
  | operand
deriving DecidableEq

/-- Cuts a level at its last word that `p` knows. -/
def cutLast {α : Type} (p : String → Option α) : Level → Option (Level × α × Level)
  | [] => none
  | n :: rest =>
    match cutLast p rest with
    | some (before, a, after) => some (n :: before, a, after)
    | none =>
      match n with
      | .word w => (p w).map fun a => ([], a, rest)
      | _ => none

theorem sizeOf_of_cutLast {α : Type} {p : String → Option α} {level before after : Level} {a : α}
    (h : cutLast p level = some (before, a, after)) :
    sizeOf before < sizeOf level ∧ sizeOf after < sizeOf level := by
  fun_induction cutLast p level generalizing before with
  | case1 => cases h
  | case2 n rest b c d hrest ih =>
    simp only [Option.some.injEq, Prod.mk.injEq] at h
    obtain ⟨rfl, rfl, rfl⟩ := h
    have := ih hrest
    simp only [List.cons.sizeOf_spec]
    omega
  | case3 rest w hrest =>
    obtain ⟨b, hb, h⟩ := Option.map_eq_some_iff.1 h
    simp only [Prod.mk.injEq] at h
    obtain ⟨rfl, rfl, rfl⟩ := h
    simp only [List.cons.sizeOf_spec, List.nil.sizeOf_spec, Node.word.sizeOf_spec]
    omega
  | case4 => cases h

/-- The words of a list, with commas between them. -/
def itemsOf : Level → Option (List String)
  | [] => some []
  | [.word w] => some [w]
  | .word w :: .comma :: n :: rest => (itemsOf (n :: rest)).map (w :: ·)
  | _ => none

mutual

/-- Reads what is joined by `j`, or tighter. -/
def joined (scope : NotScope) (j : Joint) (level : Level) : Option Reading :=
  match _h : cutLast (joins? j) level with
  | some (before, _, after) => do
    let left ← joined scope j before
    let right ← tighter scope j after
    return .join j left right
  | none => tighter scope j level
termination_by (sizeOf level, match j with | .or => 5 | .and => 3)
decreasing_by
  · exact Prod.Lex.left _ _ (sizeOf_of_cutLast _h).1
  · exact Prod.Lex.left _ _ (sizeOf_of_cutLast _h).2
  · exact Prod.Lex.right _ (by cases j <;> decide)

/-- Reads what is joined tighter than by `j`. -/
def tighter (scope : NotScope) (j : Joint) (level : Level) : Option Reading :=
  match j with
  | .or => joined scope .and level
  | .and => condition scope level
termination_by (sizeOf level, match j with | .or => 4 | .and => 2)

/-- Reads a single condition. -/
def condition (scope : NotScope) (level : Level) : Option Reading :=
  match scope, level with
  | .condition, .word "not" :: rest => (condition .condition rest).map .negate
  | scope, level =>
    match _h : cutLast sign? level with
    | some (before, .comparing c, after) => do
      let left ← condition scope before
      let right ← unary scope after
      return .compare c left right
    | some (before, .among, after) => do
      let left ← condition scope before
      match after with
      | [.group inner] => (itemsOf inner).map (.oneOf left ·)
      | _ => none
    | none => unary scope level
termination_by (sizeOf level, 1)
decreasing_by
  · decreasing_tactic
  · exact Prod.Lex.left _ _ (sizeOf_of_cutLast _h).1
  · exact Prod.Lex.left _ _ (sizeOf_of_cutLast _h).2
  · exact Prod.Lex.left _ _ (sizeOf_of_cutLast _h).1
  · decreasing_tactic

/-- Reads what has no sign: an operand, a call, a quantifier, a group, or the negation of one. -/
def unary (scope : NotScope) (level : Level) : Option Reading :=
  match level with
  | .word "not" :: rest => (unary scope rest).map .negate
  | [.word w] => some (.operand w)
  | [.group inner] => joined scope .or inner
  | [.word w, .group inner] =>
    match functions.lookup w with
    | some c =>
      match inner with
      | [.word l, .comma, .word r] => some (.compare c (.operand l) (.operand r))
      | _ => none
    | none =>
      match quantifier? w, inner with
      | some (q, collection), .word v :: body => do
        let name ← stem? ":" v
        let b ← joined scope .or body
        return .quantify q collection name b
      | _, _ => none
  | _ => none
termination_by (sizeOf level, 0)

end

/-- Reads a whole filter text. -/
def read (scope : NotScope) (text : String) : Option Reading :=
  (levelOf text).bind (joined scope .or)

end EntityQuery.Filter
