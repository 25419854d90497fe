import EntityQuery.Filter.Render
import EntityQuery.Predicate
import EntityQuery.Proofs.Except

/-!
# What a fragment knows about itself

Whether a piece of a filter is grouped inside another one depends on two things that a `Fragment`
stores side by side: how many words it has, and what joins them.  Nothing in the type ties the two
together, but every fragment that is written has them in step (`Fragment.IsSound`): one word and
nothing to join, or several words and a joint.

Given that, `reduce` and `negate` can be told by the joint alone, and so can the text of a larger
piece (`Fragment.joined_join`).
-/

set_option autoImplicit false

namespace EntityQuery

/-- What stands between two pieces that are joined. -/
def Joint.separator (j : Joint) : String := " " ++ j.keyword ++ " "

namespace Fragment

/-- One word and nothing to join, or several words and what joins them. -/
structure IsSound (f : Fragment) : Prop where
  words_of_none : f.joint = none → ∃ w, f.words = [w]
  length_of_some : ∀ j, f.joint = some j → 2 ≤ f.words.length

theorem isSound_atom (w : String) : (atom w).IsSound :=
  ⟨fun _ => ⟨w, rfl⟩, fun j h => absurd h.symm (Option.some_ne_none j)⟩

@[simp] theorem joined_atom (w : String) : (atom w).joined = w := String.intercalate_singleton

@[simp] theorem reduce_atom (w : String) : (atom w).reduce = w := rfl

/-- The text of a piece on one side of a joint. -/
def sideText (j : Joint) (f : Fragment) : String := " ".intercalate (f.side j)

/-- It is grouped unless the piece is joined in the same way. -/
theorem sideText_eq (j : Joint) (f : Fragment) :
    f.sideText j = if f.joint = some j then f.joined else f.reduce := by
  rw [sideText, side]
  split
  · rfl
  · exact String.intercalate_singleton

namespace IsSound

variable {f g : Fragment}

theorem words_ne_nil (h : f.IsSound) : f.words ≠ [] := by
  intro hnil
  cases hj : f.joint with
  | none =>
    obtain ⟨w, hw⟩ := h.words_of_none hj
    rw [hnil] at hw
    cases hw
  | some j =>
    have := h.length_of_some j hj
    rw [hnil, List.length_nil] at this
    omega

theorem reduce_of_none (h : f.IsSound) (hj : f.joint = none) : f.reduce = f.joined := by
  obtain ⟨w, hw⟩ := h.words_of_none hj
  rw [reduce, joined, hw, String.intercalate_singleton]

theorem reduce_of_some (h : f.IsSound) {j : Joint} (hj : f.joint = some j) :
    f.reduce = "(" ++ f.joined ++ ")" := by
  have hlen := h.length_of_some j hj
  rw [reduce]
  split
  · next w hw =>
    rw [hw, List.length_singleton] at hlen
    omega
  · rfl

theorem negate_of_none (h : f.IsSound) (hj : f.joint = none) :
    f.negate = atom ("not " ++ f.joined) := by
  obtain ⟨w, hw⟩ := h.words_of_none hj
  rw [negate, joined, hw, String.intercalate_singleton]

theorem negate_of_some (h : f.IsSound) {j : Joint} (hj : f.joint = some j) :
    f.negate = atom ("not(" ++ f.joined ++ ")") := by
  have hlen := h.length_of_some j hj
  rw [negate]
  split
  · next w hw =>
    rw [hw, List.length_singleton] at hlen
    omega
  · rfl

theorem side_ne_nil (h : f.IsSound) (j : Joint) : f.side j ≠ [] := by
  rw [side]
  split
  · exact h.words_ne_nil
  · exact List.cons_ne_nil _ _

/-- The text of two pieces joined. -/
theorem joined_join (hf : f.IsSound) (hg : g.IsSound) (j : Joint) :
    (join j f g).joined = f.sideText j ++ " " ++ j.keyword ++ " " ++ g.sideText j := by
  rw [joined, join, String.intercalate_append_of_ne_nil (hf.side_ne_nil j) (List.cons_ne_nil _ _),
    String.intercalate_cons_of_ne_nil (hg.side_ne_nil j), sideText, sideText]
  simp only [String.append_assoc]

theorem joined_join_separator (hf : f.IsSound) (hg : g.IsSound) (j : Joint) :
    (join j f g).joined = f.sideText j ++ j.separator ++ g.sideText j := by
  rw [hf.joined_join hg, Joint.separator]
  simp only [String.append_assoc]

theorem join (hf : f.IsSound) (hg : g.IsSound) (j : Joint) : (join j f g).IsSound := by
  refine ⟨fun h => absurd h (Option.some_ne_none j), fun _ _ => ?_⟩
  have h1 := List.length_pos_iff.2 (hf.side_ne_nil j)
  have h2 := List.length_pos_iff.2 (hg.side_ne_nil j)
  rw [Fragment.join, List.length_append, List.length_cons]
  omega

/-- On one side of `and`, a piece is grouped if it is joined by `or`. -/
theorem sideText_and (h : f.IsSound) :
    (if f.joint = some .or then "(" ++ f.joined ++ ")" else f.joined) = f.sideText .and := by
  rw [sideText_eq]
  cases hj : f.joint with
  | none => rw [if_neg (by simp), if_neg (by simp), h.reduce_of_none hj]
  | some j =>
    cases j with
    | and => rw [if_neg (by simp), if_pos rfl]
    | or => rw [if_pos rfl, if_neg (by simp), h.reduce_of_some hj]

/-- Inside anything else, it is grouped as well if it is joined by `and`. -/
theorem reduce_eq_sideText (h : f.IsSound) :
    f.reduce = if f.joint = some .and then "(" ++ f.sideText .and ++ ")" else f.sideText .and := by
  rw [sideText_eq]
  split
  · next hj => exact h.reduce_of_some hj
  · rfl

end IsSound

/-! ## Pieces in a row -/

/-- Joints of joints are written in a row. -/
theorem join_join (j : Joint) (f g h : Fragment) :
    join j (join j f g) h = join j f (join j g h) := by
  have hside (f g : Fragment) : (join j f g).side j = (join j f g).words := if_pos rfl
  rw [join, hside, join, join, hside, join]
  simp only [List.append_assoc, List.cons_append]

namespace IsSound

variable {f : Fragment} {j : Joint}

/-- More pieces joined to one that is joined in the same way already. -/
theorem joined_foldl_of_joint (hf : f.IsSound) (hj : f.joint = some j) {fs : List Fragment}
    (hs : ∀ g ∈ fs, g.IsSound) :
    (fs.foldl (Fragment.join j) f).joined =
      j.separator.intercalate (f.joined :: fs.map (sideText j)) := by
  induction fs generalizing f with
  | nil => simp
  | cons g rest ih =>
    rw [List.forall_mem_cons] at hs
    have hside : f.sideText j = f.joined := by rw [sideText_eq, if_pos hj]
    rw [List.foldl_cons, ih (hf.join hs.1 j) rfl hs.2, hf.joined_join_separator hs.1, hside,
      List.map_cons, String.intercalate_cons_append, String.intercalate_cons_cons]

/-- **The text of pieces in a row.**  Every piece stands as on one side of a joint; one alone stands as
it is. -/
theorem joined_foldl (hf : f.IsSound) (j : Joint) {fs : List Fragment}
    (hs : ∀ g ∈ fs, g.IsSound) :
    (fs.foldl (Fragment.join j) f).joined =
      j.separator.intercalate ((if fs = [] then f.joined else f.sideText j) ::
        fs.map (sideText j)) := by
  cases fs with
  | nil => simp
  | cons g rest =>
    rw [List.forall_mem_cons] at hs
    rw [List.foldl_cons, (hf.join hs.1 j).joined_foldl_of_joint rfl hs.2,
      hf.joined_join_separator hs.1, if_neg (List.cons_ne_nil _ _), List.map_cons,
      String.intercalate_cons_append, String.intercalate_cons_cons]

end IsSound

theorem isSound_negate (f : Fragment) : f.negate.IsSound := by
  rw [negate]
  split
  · exact isSound_atom _
  · exact isSound_atom _

/-! ## Everything that is written is sound -/

theorem eq_atom_of_composeBinary {operator : Operator} {pieces : List Written} {f : Fragment}
    (h : composeBinary operator pieces = .ok f) : ∃ w, f = atom w := by
  rw [composeBinary.eq_def] at h
  split at h
  · obtain ⟨l, _, h⟩ := bind_eq_ok.1 h
    obtain ⟨r, _, h⟩ := bind_eq_ok.1 h
    exact ⟨_, (Except.ok.inj h).symm⟩
  · cases h

theorem eq_atom_of_composeQuantifier {operator : Operator} {word : String}
    {operands : List Operand} {pieces : List Written} {f : Fragment}
    (h : composeQuantifier operator word operands pieces = .ok f) : ∃ w, f = atom w := by
  rw [composeQuantifier.eq_def] at h
  split at h
  · obtain ⟨l, _, h⟩ := bind_eq_ok.1 h
    obtain ⟨b, _, h⟩ := bind_eq_ok.1 h
    exact ⟨_, (Except.ok.inj h).symm⟩
  · cases h
  · cases h

theorem isSound_of_composeJoint {operator : Operator} {j : Joint} {pieces : List Written}
    {f : Fragment} (hp : ∀ g, Except.ok g ∈ pieces → g.IsSound)
    (h : composeJoint operator j pieces = .ok f) : f.IsSound := by
  rw [composeJoint.eq_def] at h
  split at h
  · obtain ⟨l, hl, h⟩ := bind_eq_ok.1 h
    obtain ⟨r, hr, h⟩ := bind_eq_ok.1 h
    obtain rfl := Except.ok.inj h
    exact (hp l (by simp [hl])).join (hp r (by simp [hr])) j
  · cases h

/-- Whatever is made of sound pieces is sound. -/
theorem isSound_of_compose {operator : Operator} {operands : List Operand}
    {pieces : List Written} {f : Fragment} (hp : ∀ g, Except.ok g ∈ pieces → g.IsSound)
    (h : compose operator operands pieces = .ok f) : f.IsSound := by
  have atomic : (∃ w, f = atom w) → f.IsSound := by
    rintro ⟨w, rfl⟩
    exact isSound_atom w
  rw [compose.eq_def] at h
  split at h
  · split at h
    · exact hp f (by simp [h])
    · cases h
  · split at h
    · exact hp f (by simp [h])
    · cases h
  · split at h
    · obtain ⟨g, _, rfl⟩ := map_eq_ok.1 h
      exact isSound_negate g
    · cases h
  · exact isSound_of_composeJoint hp h
  · exact isSound_of_composeJoint hp h
  · exact atomic (eq_atom_of_composeQuantifier h)
  · exact atomic (eq_atom_of_composeQuantifier h)
  · exact atomic (eq_atom_of_composeBinary h)

theorem isSound_of_listing {pieces : List Written} {f : Fragment}
    (h : listing pieces = .ok f) : f.IsSound := by
  obtain ⟨fs, _, rfl⟩ := map_eq_ok.1 h
  exact isSound_atom _

end Fragment

theorem Literal.isSound_of_fragment {l : Literal} {f : Fragment} (h : l.fragment = .ok f) :
    f.IsSound := by
  rw [Literal.fragment] at h
  split at h
  · exact Except.ok.inj h ▸ Fragment.isSound_atom _
  · cases h

theorem Value.isSound_of_fragment {v : Value} {f : Fragment} (h : v.fragment = .ok f) :
    f.IsSound := by
  rw [Value.fragment] at h
  split at h
  · exact Except.ok.inj h ▸ Fragment.isSound_atom _
  · cases h

mutual

/-- **Every predicate that is written has its words and its joint in step.** -/
theorem Expression.isSound_of_fragment (e : Expression) {f : Fragment} (h : e.fragment = .ok f) :
    f.IsSound := by
  match e with
  | .node operator operands previous =>
    rw [Expression.fragment] at h
    exact Fragment.isSound_of_compose (fun g hg => Operand.isSound_of_mem_fragments operands hg) h

theorem Operand.isSound_of_fragment (x : Operand) {f : Fragment} (h : x.fragment = .ok f) :
    f.IsSound := by
  match x with
  | .literal l =>
    rw [Operand.fragment] at h
    exact Literal.isSound_of_fragment h
  | .field p =>
    rw [Operand.fragment] at h
    obtain ⟨w, _, rfl⟩ := map_eq_ok.1 h
    exact Fragment.isSound_atom w
  | .expression e =>
    rw [Operand.fragment] at h
    split at h
    · cases h
    · exact Expression.isSound_of_fragment e h
  | .bare v =>
    rw [Operand.fragment] at h
    exact Value.isSound_of_fragment h
  | .list items =>
    rw [Operand.fragment] at h
    exact Fragment.isSound_of_listing h
  | .variable name =>
    rw [Operand.fragment] at h
    exact Except.ok.inj h ▸ Fragment.isSound_atom name
  | .projection p =>
    rw [Operand.fragment] at h
    cases h

theorem Operand.isSound_of_mem_fragments (xs : List Operand) {f : Fragment}
    (h : Except.ok f ∈ Operand.fragments xs) : f.IsSound := by
  match xs with
  | [] => rw [Operand.fragments] at h; cases h
  | x :: rest =>
    rw [Operand.fragments, List.mem_cons] at h
    rcases h with h | h
    · exact Operand.isSound_of_fragment x h.symm
    · exact Operand.isSound_of_mem_fragments rest h

end

/-! ## Predicates inside predicates -/

theorem Expression.fragment_alone (operator : Operator) (operands : List Operand) :
    (Expression.alone operator operands).fragment =
      Fragment.compose operator operands (Operand.fragments operands) := by
  rw [Expression.alone, Expression.fragment]

/-- A constant is written in the same way as a node of its own. -/
theorem Operand.fragment_ofLiteral (l : Literal) :
    (Operand.expression (.ofLiteral l)).fragment = l.fragment := by
  rw [Operand.fragment, if_neg (by exact Bool.false_ne_true), Expression.ofLiteral,
    Expression.fragment_alone, Operand.fragments, Operand.fragments, Operand.fragment]
  rfl

/-- So is a field. -/
theorem Operand.fragment_ofField (f : Field) :
    (Operand.expression (.ofField f)).fragment = (Operand.field f).fragment := by
  rw [Operand.fragment.eq_def, Operand.fragment.eq_def]
  dsimp only
  rw [if_neg (by exact Bool.false_ne_true), Expression.ofField, Expression.fragment_alone,
    Operand.fragments, Operand.fragments, Operand.fragment]
  rfl

namespace Predicate

/-- A predicate stays what it is. -/
theorem ofExpression_expression (p : Predicate) : ofExpression p.expression = .ok p := by
  rw [ofExpression, dif_neg (by simp [p.isLinked_expression]), dif_neg (by simp [p.isQuery_operator])]

theorem fragment_alone (operator : Operator) (operands : List Operand)
    (h : operator.isQuery = false) :
    (alone operator operands h).expression.fragment =
      Fragment.compose operator operands (Operand.fragments operands) :=
  Expression.fragment_alone operator operands

/-- As an operand, a predicate is written as it is by itself. -/
theorem fragment_operand (p : Predicate) :
    (Operand.expression p.expression).fragment = p.expression.fragment := by
  rw [Operand.fragment, p.isLinked_expression, if_neg Bool.false_ne_true]

theorem fragment_join (j : Joint) (p q : Predicate) :
    (join j p q).expression.fragment = (do
      let f ← p.expression.fragment
      let g ← q.expression.fragment
      .ok (.join j f g)) := by
  refine (fragment_alone _ _ _).trans ?_
  rw [Operand.fragments, Operand.fragments, Operand.fragments, fragment_operand, fragment_operand]
  cases j <;> rfl

/-- Several predicates as they are written.  The first one that cannot be written decides. -/
def fragments (ps : List Predicate) : Except QueryError (List Fragment) :=
  ps.mapM fun p => p.expression.fragment

theorem fragments_append_singleton (ps : List Predicate) (p : Predicate) :
    fragments (ps ++ [p]) = (do
      let fs ← fragments ps
      let f ← p.expression.fragment
      .ok (fs ++ [f])) := by
  rw [fragments, List.mapM_append, ← fragments]
  cases fragments ps with
  | error e => rfl
  | ok fs => cases hp : p.expression.fragment <;> simp [hp] <;> rfl

/-- Predicates joined are written in their order. -/
theorem fragment_foldl (j : Joint) (p : Predicate) (ps : List Predicate) :
    (ps.foldl (join j) p).expression.fragment = (do
      let f ← p.expression.fragment
      let fs ← fragments ps
      .ok (fs.foldl (Fragment.join j) f)) := by
  induction ps generalizing p with
  | nil =>
    rw [List.foldl_nil, fragments, List.mapM_nil]
    cases p.expression.fragment <;> rfl
  | cons q rest ih =>
    rw [List.foldl_cons, ih, fragment_join, fragments, fragments, List.mapM_cons]
    cases p.expression.fragment with
    | error e => rfl
    | ok f =>
      cases q.expression.fragment with
      | error e => rfl
      | ok g =>
        cases rest.mapM fun q => q.expression.fragment with
        | error e => rfl
        | ok fs => rfl

end Predicate

end EntityQuery
