import EntityQuery.Proofs.Filter.Writing

/-!
# Filters are read back

A filter is written as text, and `Filter.read` makes a reading of the text.  This file is about the
two together: what comes back is what was built.

`Reading.reread` foretells what a reader makes of a reading that was written.  Equal joints come
back bracketed to the left, and a `not` in front of a comparison comes back where the reader's
`NotScope` puts it (`NotScope.negate`).  That it foretells right is `Reading.IsPlain.isReread`: an
induction on the reading, which carries with it how the level is read when it stands

* behind any number of negations (`IsReread.unit`),
* on the right of a joint (`IsReread.right`),
* as one side of a joint, by itself (`IsReread.whole`).
-/

set_option autoImplicit false

namespace EntityQuery.Filter

/-! ## Cutting levels -/

/-- None of the words of a level is known to `p`, apart from those in its groups. -/
def IsFree {α : Type} (p : String → Option α) (level : Level) : Prop :=
  ∀ w, Node.word w ∈ level → p w = none

section Cutting

variable {α : Type} {p : String → Option α} {x y : Level}

theorem isFree_nil : IsFree p [] := fun _ h => by cases h

theorem isFree_append : IsFree p (x ++ y) ↔ IsFree p x ∧ IsFree p y := by
  simp only [IsFree, List.mem_append, or_imp, forall_and]

theorem isFree_word {w : String} : IsFree p (.word w :: x) ↔ p w = none ∧ IsFree p x := by
  simp [IsFree, or_imp, forall_and]

theorem isFree_group {inner : Level} : IsFree p (.group inner :: x) ↔ IsFree p x := by
  simp [IsFree]

theorem isFree_groups (inner : Level) : IsFree p [.group inner] := isFree_group.2 isFree_nil

theorem cutLast_of_isFree (h : IsFree p x) : cutLast p x = none := by
  induction x with
  | nil => rfl
  | cons n rest ih =>
    have hrest : IsFree p rest := fun w hw => h w (List.mem_cons_of_mem _ hw)
    cases n with
    | word w => simp [cutLast, ih hrest, h w List.mem_cons_self]
    | comma => simp [cutLast, ih hrest]
    | group inner => simp [cutLast, ih hrest]

/-- The last word that is known is where a level is cut. -/
theorem cutLast_append {w : String} {a : α} (hw : p w = some a) (hy : IsFree p y) :
    cutLast p (x ++ .word w :: y) = some (x, a, y) := by
  induction x with
  | nil => simp [cutLast, cutLast_of_isFree hy, hw]
  | cons n rest ih => simp [cutLast, ih]

end Cutting

/-! ## Words with a meaning -/

theorem joins?_of_not_keyword {w : String} (h : w ∉ keywords) (j : Joint) : joins? j w = none := by
  refine if_neg fun hw => h ?_
  rw [hw]
  cases j <;> decide

theorem joins?_keyword (j : Joint) : joins? j j.keyword = some () := if_pos rfl

theorem joins?_keyword_ne {j k : Joint} (h : k ≠ j) : joins? j k.keyword = none := by
  cases j <;> cases k <;> first | rfl | exact absurd rfl h

theorem sign?_of_not_keyword {w : String} (h : w ∉ keywords) : sign? w = none := by
  have hw : w ∉ signs.map Prod.fst := fun hmem => h (List.mem_append_right _ hmem)
  refine List.lookup_eq_none_iff.2 fun p hp => ?_
  simp only [bne_iff_ne]
  rintro rfl
  exact hw (List.mem_map_of_mem hp)

theorem ne_not_of_not_keyword {w : String} (h : w ∉ keywords) : w ≠ "not" := by
  rintro rfl
  exact h (by decide)

theorem not_keyword_of_slash {w : String} (h : '/' ∈ w.toList) : w ∉ keywords := by
  have hk : ∀ k ∈ keywords, '/' ∉ k.toList := by decide
  exact fun hw => hk w hw h

theorem functions_of_slash {w : String} (h : '/' ∈ w.toList) : functions.lookup w = none := by
  have hk : ∀ f ∈ functions, '/' ∉ f.1.toList := by decide
  refine List.lookup_eq_none_iff.2 fun p hp => ?_
  simp only [bne_iff_ne]
  rintro rfl
  exact hk p hp h

theorem stem?_append (s ending : String) : stem? ending (s ++ ending) = some s := by
  have h : ending.toList.isSuffixOf (s ++ ending).toList = true := by
    rw [List.isSuffixOf_iff_suffix, String.toList_append]
    exact List.suffix_append _ _
  rw [stem?, if_pos h]
  simp

/-- The word of a quantifier, behind the collection that it ranges over. -/
theorem quantifier?_word (q : Quantifier) (collection : String) :
    quantifier? (collection ++ "/" ++ q.word) = some (q, collection) := by
  cases q with
  | any =>
    have h : collection ++ "/" ++ Quantifier.any.word = collection ++ "/any" := by
      rw [String.append_assoc]
      rfl
    rw [quantifier?, h, stem?_append]
  | all =>
    have h : collection ++ "/" ++ Quantifier.all.word = collection ++ "/all" := by
      rw [String.append_assoc]
      rfl
    have hany : stem? "/any" (collection ++ "/all") = none := by
      refine if_neg fun hs => ?_
      rw [List.isSuffixOf_iff_suffix, String.toList_append] at hs
      obtain ⟨t, ht⟩ := hs
      exact absurd (List.append_inj' ht (by decide)).2 (by decide)
    rw [quantifier?, h, hany, stem?_append]
    rfl

theorem itemsOf_listed (items : List String) : itemsOf (listed items) = some items := by
  induction items with
  | nil => rfl
  | cons s rest ih =>
    cases rest with
    | nil => rfl
    | cons t more =>
      cases more with
      | nil => rfl
      | cons u more =>
        rw [listed, listed, itemsOf, ← listed, ih]
        rfl

/-! ## Readers, step by step -/

section Readers

variable {scope : NotScope} {level before after : Level}

theorem joined_of_cut {j : Joint} {u : Unit}
    (h : cutLast (joins? j) level = some (before, u, after)) :
    joined scope j level = (do
      let left ← joined scope j before
      let right ← tighter scope j after
      return .join j left right) := by
  rw [joined]
  split
  · next b _ a hba =>
    rw [h] at hba
    cases hba
    rfl
  · next hnone => rw [h] at hnone; cases hnone

theorem joined_of_isFree {j : Joint} (h : IsFree (joins? j) level) :
    joined scope j level = tighter scope j level := by
  rw [joined]
  split
  · next b _ a hba => rw [cutLast_of_isFree h] at hba; cases hba
  · rfl

theorem tighter_or : tighter scope .or level = joined scope .and level := by rw [tighter.eq_def]

theorem tighter_and : tighter scope .and level = condition scope level := by rw [tighter.eq_def]

theorem condition_not :
    condition .condition (.word "not" :: level) =
      (condition .condition level).map .negate := by
  rw [condition]

theorem unary_not : unary scope (.word "not" :: level) = (unary scope level).map .negate := by
  rw [unary.eq_def]
  rfl

theorem unary_word {w : String} (h : w ∉ keywords) :
    unary scope [.word w] = some (.operand w) := by
  have hw := ne_not_of_not_keyword h
  rw [unary.eq_def]
  split
  · next hl => exact absurd (Node.word.inj (List.cons.inj hl).1) hw
  · next hl => rw [Node.word.inj (List.cons.inj hl).1]
  · next hl => cases hl
  · next hl => cases hl
  · next hne _ _ => exact absurd rfl (hne _)

theorem unary_group : unary scope [.group level] = joined scope .or level := by
  rw [unary.eq_def]

theorem unary_call {c : Comparison} {w l r : String} (hw : w ≠ "not")
    (h : functions.lookup w = some c) :
    unary scope [.word w, .group [.word l, .comma, .word r]] =
      some (.compare c (.operand l) (.operand r)) := by
  rw [unary.eq_def]
  split
  · next hl => exact absurd (Node.word.inj (List.cons.inj hl).1) hw
  · next hl => cases hl
  · next hl => cases hl
  · next hl => cases hl; rw [h]
  · next hne => exact absurd rfl (hne _ _)

theorem unary_quantify (q : Quantifier) {collection name : String} {body : Reading}
    (h : joined scope .or level = some body) :
    unary scope [.word (collection ++ "/" ++ q.word), .group (.word (name ++ ":") :: level)] =
      some (.quantify q collection name body) := by
  have hslash : '/' ∈ (collection ++ "/" ++ q.word).toList := by simp
  have hw := ne_not_of_not_keyword (not_keyword_of_slash hslash)
  rw [unary.eq_def]
  split
  · next hl => exact absurd (Node.word.inj (List.cons.inj hl).1) hw
  · next hl => cases hl
  · next hl => cases hl
  · next hl =>
    cases hl
    simp only [functions_of_slash hslash, quantifier?_word, stem?_append, h]
    rfl
  · next hne => exact absurd rfl (hne _ _)

/-- Where the reader does not look out for a `not`, or there is none, a condition is cut at its
sign. -/
theorem condition_of_compare {c : Comparison}
    (hnot : scope = .condition → ∀ rest, level ≠ .word "not" :: rest)
    (h : cutLast sign? level = some (before, .comparing c, after)) :
    condition scope level = (do
      let left ← condition scope before
      let right ← unary scope after
      return .compare c left right) := by
  rw [condition]
  · split
    · next hba => rw [h] at hba; cases hba; rfl
    · next hba => rw [h] at hba; cases hba
    · next hba => rw [h] at hba; cases hba
  · exact fun rest hs hl => hnot hs rest hl

theorem condition_of_among {inner : Level}
    (hnot : scope = .condition → ∀ rest, level ≠ .word "not" :: rest)
    (h : cutLast sign? level = some (before, .among, [.group inner])) :
    condition scope level = (do
      let left ← condition scope before
      (itemsOf inner).map (.oneOf left ·)) := by
  rw [condition]
  · split
    · next hba => rw [h] at hba; cases hba
    · next hba => rw [h] at hba; cases hba; rfl
    · next hba => rw [h] at hba; cases hba
  · exact fun rest hs hl => hnot hs rest hl

/-- Without a sign, it does not matter how far a `not` reaches. -/
theorem condition_of_isFree (h : IsFree sign? level) :
    condition scope level = unary scope level := by
  induction level with
  | nil =>
    rw [condition]
    · rw [cutLast_of_isFree h]
    · exact fun rest _ hl => by cases hl
  | cons n rest ih =>
    by_cases hn : scope = .condition ∧ n = .word "not"
    · obtain ⟨rfl, rfl⟩ := hn
      rw [condition_not, unary_not, ih (isFree_word.1 h).2]
    · rw [condition]
      · split
        · next hba => rw [cutLast_of_isFree h] at hba; cases hba
        · next hba => rw [cutLast_of_isFree h] at hba; cases hba
        · rfl
      · exact fun rest hs hl => hn ⟨hs, (List.cons.inj hl).1⟩

end Readers

/-! ## What a reader makes of a reading -/

/-- Whether a condition has a sign, with something on its left that a `not` can be bound to. -/
def Reading.isSigned : Reading → Bool
  | .compare c _ _ => !c.isFunction
  | .oneOf _ _ => true
  | _ => false

/-- What a reader finds in place of a negation that was written without parentheses. -/
def NotScope.negate : NotScope → Reading → Reading
  | .condition, r => .negate r
  | .operand, .compare c l r =>
    if c.isFunction then .negate (.compare c l r) else .compare c (.negate l) r
  | .operand, .oneOf l items => .oneOf (.negate l) items
  | .operand, r => .negate r

/-- The same for several negations. -/
def NotScope.negations (scope : NotScope) : Nat → Reading → Reading
  | 0, r => r
  | k + 1, r => scope.negations k (scope.negate r)

/-- What a reader makes of a reading that was written. -/
def Reading.reread (scope : NotScope) : Reading → Reading
  | .operand text => .operand text
  | .compare c l r => .compare c (l.reread scope) (r.reread scope)
  | .oneOf l items => .oneOf (l.reread scope) items
  | .quantify q collection name body => .quantify q collection name (body.reread scope)
  | .negate r => scope.negate (r.reread scope)
  | .join j l r => .attach j (l.reread scope) (r.reread scope)

theorem NotScope.negate_of_not_isSigned (scope : NotScope) {r : Reading}
    (h : r.isSigned = false) : scope.negate r = .negate r := by
  cases scope with
  | condition => rfl
  | operand =>
    cases r with
    | compare c l r =>
      have hc : c.isFunction = true := by simpa [Reading.isSigned] using h
      rw [negate, if_pos hc]
    | oneOf l items => cases h
    | _ => rfl

theorem NotScope.joint?_negate (scope : NotScope) (r : Reading) :
    (scope.negate r).joint? = none := by
  cases scope with
  | condition => rfl
  | operand =>
    cases r with
    | compare c l r =>
      rw [negate]
      split <;> rfl
    | _ => rfl

/-- A reader finds the same joints. -/
theorem Reading.joint?_reread (scope : NotScope) (r : Reading) :
    (r.reread scope).joint? = r.joint? := by
  cases r with
  | negate r => exact scope.joint?_negate _
  | join j l r => exact joint?_attach j _ _
  | _ => rfl

theorem Reading.isSigned_of_joint? {r : Reading} {j : Joint} (h : r.joint? = some j) :
    r.isSigned = false := by
  cases r with
  | join j l r => rfl
  | _ => cases h

/-- So many times the word for a negation. -/
def nots (k : Nat) : Level := List.replicate k (.word "not")

theorem nots_succ (k : Nat) (x : Level) : nots (k + 1) ++ x = .word "not" :: (nots k ++ x) := rfl

theorem nots_append_not (k : Nat) (x : Level) :
    nots k ++ .word "not" :: x = nots (k + 1) ++ x := by
  rw [nots, nots, List.replicate_succ', List.append_assoc, List.singleton_append]

theorem isFree_nots_append {k : Nat} {x : Level} (h : IsFree sign? x) :
    IsFree sign? (nots k ++ x) := by
  refine isFree_append.2 ⟨fun w hw => ?_, h⟩
  rw [Node.word.inj (List.eq_of_mem_replicate hw)]
  rfl

/-- The outermost negation comes last, if negations stay where they are. -/
theorem NotScope.negations_succ {scope : NotScope} {r : Reading}
    (h : scope.negate r = .negate r) (k : Nat) :
    scope.negations (k + 1) r = .negate (scope.negations k r) := by
  induction k generalizing r with
  | zero => exact h
  | succ k ih =>
    have hr : scope.negate (.negate r) = .negate (.negate r) := scope.negate_of_not_isSigned rfl
    rw [negations, h, ih hr, negations, h]

theorem unary_nots {scope : NotScope} {x : Level} {r : Reading} (h : unary scope x = some r)
    (hr : r.isSigned = false) (k : Nat) :
    unary scope (nots k ++ x) = some (scope.negations k r) := by
  induction k with
  | zero => exact h
  | succ k ih =>
    rw [nots_succ, unary_not, ih, NotScope.negations_succ (scope.negate_of_not_isSigned hr)]
    rfl

/-- Behind negations, what has no sign is negated as a whole. -/
theorem condition_nots {scope : NotScope} {x : Level} {r : Reading} (hx : IsFree sign? x)
    (h : unary scope x = some r) (hr : r.isSigned = false) (k : Nat) :
    condition scope (nots k ++ x) = some (scope.negations k r) := by
  rw [condition_of_isFree (isFree_nots_append hx), unary_nots h hr]

/-- Behind negations, what has a sign is negated as a whole or on its left.  `sign` is what stands
behind the left operand, and `f` makes the condition of that operand. -/
theorem condition_nots_signed (scope : NotScope) {s : String} {sign : Level}
    {f : Reading → Reading} (hs : s ∉ keywords)
    (hf : ∀ r, NotScope.operand.negate (f r) = f (.negate r))
    (h : ∀ (scope : NotScope) (before : Level) (r : Reading),
      (scope = .condition → ∀ rest, before ++ sign ≠ .word "not" :: rest) →
      condition scope before = some r → condition scope (before ++ sign) = some (f r))
    (k : Nat) :
    condition scope (nots k ++ .word s :: sign) =
      some (scope.negations k (f (.operand s))) := by
  have hfree : IsFree sign? [.word s] := isFree_word.2 ⟨sign?_of_not_keyword hs, isFree_nil⟩
  cases scope with
  | condition =>
    -- Each negation is taken off before the sign is looked for.
    induction k with
    | zero =>
      have hne : ∀ rest, [Node.word s] ++ sign ≠ Node.word "not" :: rest := fun rest hl =>
        ne_not_of_not_keyword hs (Node.word.inj (List.cons.inj hl).1)
      refine h .condition [.word s] _ (fun _ => hne) ?_
      rw [condition_of_isFree hfree, unary_word hs]
    | succ k ih =>
      rw [nots_succ, condition_not, ih, NotScope.negations_succ rfl]
      rfl
  | operand =>
    -- The sign is found first, and the negations are left to its left side.
    have hmove : ∀ r : Reading, r.isSigned = false →
        NotScope.operand.negations k (f r) = f (NotScope.operand.negations k r) := by
      induction k with
      | zero => exact fun r _ => rfl
      | succ k ih =>
        intro r hr
        rw [NotScope.negations, hf, ih _ rfl, NotScope.negations,
          NotScope.negate_of_not_isSigned _ hr]
    have hleft : condition .operand (nots k ++ [Node.word s]) =
        some (NotScope.operand.negations k (.operand s)) :=
      condition_nots hfree (unary_word hs) rfl k
    have h' := h .operand (nots k ++ [Node.word s]) _ (fun hsc => by cases hsc) hleft
    rwa [List.append_assoc, List.singleton_append, ← hmove _ rfl] at h'

theorem condition_nots_compare (scope : NotScope) {c : Comparison} (hc : c.isFunction = false)
    {s t : String} (hs : s ∉ keywords) (ht : t ∉ keywords) (k : Nat) :
    condition scope (nots k ++ [.word s, .word c.word, .word t]) =
      some (scope.negations k (.compare c (.operand s) (.operand t))) := by
  have hw : sign? c.word = some (.comparing c) := by
    cases c <;> first | rfl | cases hc
  have hy : IsFree sign? [.word t] := isFree_word.2 ⟨sign?_of_not_keyword ht, isFree_nil⟩
  refine condition_nots_signed scope (f := fun l => .compare c l (.operand t)) hs ?_ ?_ k
  · intro r
    rw [NotScope.negate, if_neg (by simp [hc])]
  · intro scope before r hnot hbefore
    rw [condition_of_compare hnot (cutLast_append hw hy), hbefore, unary_word ht]
    rfl

theorem condition_nots_oneOf (scope : NotScope) {s : String} (hs : s ∉ keywords)
    (items : List String) (k : Nat) :
    condition scope (nots k ++ [.word s, .word "in", .group (listed items)]) =
      some (scope.negations k (.oneOf (.operand s) items)) := by
  have hw : sign? "in" = some .among := rfl
  refine condition_nots_signed scope (f := fun l => .oneOf l items) hs (fun _ => rfl) ?_ k
  intro scope before r hnot hbefore
  rw [condition_of_among hnot (cutLast_append hw (isFree_groups _)), hbefore, itemsOf_listed]
  rfl

/-! ## Joints -/

theorem isFree_grouped {α : Type} {p : String → Option α} {r : Reading}
    (h : r.joint? = none → IsFree p r.level) : IsFree p (grouped r.joint? r.level) := by
  rw [grouped]
  split
  · next hj => exact h hj
  · exact isFree_groups _

/-- What is joined by one word is not cut at the other. -/
theorem Reading.IsPlain.isFree_level {r : Reading} (h : r.IsPlain) {j : Joint}
    (hj : r.joint? ≠ some j) : IsFree (joins? j) r.level := by
  induction h with
  | compare c hs ht =>
    have hc : joins? j c.word = none := by
      cases c <;> cases j <;> rfl
    rw [level]
    split
    · exact isFree_word.2 ⟨hc, isFree_groups _⟩
    · refine isFree_word.2 ⟨joins?_of_not_keyword hs.not_keyword j, isFree_word.2 ⟨hc, ?_⟩⟩
      exact isFree_word.2 ⟨joins?_of_not_keyword ht.not_keyword j, isFree_nil⟩
  | oneOf hs hitems =>
    refine isFree_word.2 ⟨joins?_of_not_keyword hs.not_keyword j, isFree_word.2 ⟨?_, ?_⟩⟩
    · cases j <;> rfl
    · exact isFree_groups _
  | @join k r s hr hs ihr ihs =>
    have hkj : k ≠ j := fun hkj => hj (congrArg some hkj)
    have hside (t : Reading) (ht : t.joint? ≠ some j → IsFree (joins? j) t.level) :
        IsFree (joins? j) (sided k t.joint? t.level) := by
      rw [sided]
      split
      · next hk => exact ht fun hkj' => hkj (Option.some.inj (hk.symm.trans hkj'))
      · exact isFree_grouped fun hnone => ht (by simp [hnone])
    exact isFree_append.2 ⟨hside r ihr, isFree_word.2 ⟨joins?_keyword_ne hkj, hside s ihs⟩⟩
  | @negate r hr ih =>
    refine isFree_word.2 ⟨by cases j <;> rfl, ?_⟩
    exact isFree_grouped fun hnone => ih (by simp [hnone])
  | @quantify q collection name r hcollection hname hr ih =>
    have hslash : '/' ∈ (collection ++ "/" ++ q.word).toList := by simp
    refine isFree_word.2 ⟨joins?_of_not_keyword (not_keyword_of_slash hslash) j, ?_⟩
    exact isFree_groups _

/-- Grouped, what is not joined by a word is not cut at it. -/
theorem Reading.IsPlain.isFree_grouped {r : Reading} (h : r.IsPlain) (j : Joint) :
    IsFree (joins? j) (grouped r.joint? r.level) :=
  Filter.isFree_grouped fun hnone => h.isFree_level (by simp [hnone])

theorem sided_self {j : Joint} {joint : Option Joint} (h : joint = some j) (x : Level) :
    sided j joint x = x := if_pos h

theorem sided_of_ne {j : Joint} {joint : Option Joint} (h : joint ≠ some j) (x : Level) :
    sided j joint x = grouped joint x := if_neg h

/-- Behind negations, a reading is read again.  It is grouped there if it is joined. -/
def IsUnit (scope : NotScope) (r : Reading) : Prop :=
  ∀ k, condition scope (nots k ++ grouped r.joint? r.level) =
    some (scope.negations k (r.reread scope))

/-- A reading is read again wherever its level may stand. -/
structure IsReread (scope : NotScope) (r : Reading) : Prop where
  /-- Behind negations. -/
  unit : IsUnit scope r
  /-- On the right of a joint. -/
  right : ∀ j x, joined scope j (x ++ .word j.keyword :: sided j r.joint? r.level) =
    (joined scope j x).map fun l => .attach j l (r.reread scope)
  /-- As one side of a joint, by itself. -/
  whole : ∀ j, joined scope j (sided j r.joint? r.level) = some (r.reread scope)

section Rereading

variable {scope : NotScope} {r s : Reading}

/-- Grouped, a reading joins tighter than anything. -/
theorem IsUnit.tighter (h : IsUnit scope r) (hr : r.IsPlain) (j : Joint) :
    tighter scope j (grouped r.joint? r.level) = some (r.reread scope) := by
  have hcond : condition scope (grouped r.joint? r.level) = some (r.reread scope) := h 0
  cases j with
  | and => rw [tighter_and, hcond]
  | or => rw [tighter_or, joined_of_isFree (hr.isFree_grouped .and), tighter_and, hcond]

theorem IsUnit.right (h : IsUnit scope r) (hr : r.IsPlain) {j : Joint} (hj : r.joint? ≠ some j)
    (x : Level) :
    joined scope j (x ++ .word j.keyword :: sided j r.joint? r.level) =
      (joined scope j x).map fun l => .attach j l (r.reread scope) := by
  rw [sided_of_ne hj, joined_of_cut (cutLast_append (joins?_keyword j) (hr.isFree_grouped j)),
    h.tighter hr]
  have hne : (r.reread scope).joint? ≠ some j := by rwa [r.joint?_reread]
  cases joined scope j x with
  | none => rfl
  | some l => simp [Reading.attach_of_joint?_ne l hne]

theorem IsUnit.whole (h : IsUnit scope r) (hr : r.IsPlain) {j : Joint}
    (hj : r.joint? ≠ some j) :
    joined scope j (sided j r.joint? r.level) = some (r.reread scope) := by
  rw [sided_of_ne hj, joined_of_isFree (hr.isFree_grouped j), h.tighter hr]

/-- For what is not joined that is all. -/
theorem IsUnit.isReread (h : IsUnit scope r) (hr : r.IsPlain) (hj : r.joint? = none) :
    IsReread scope r := by
  have hne (j : Joint) : r.joint? ≠ some j := by simp [hj]
  exact ⟨h, fun j x => h.right hr (hne j) x, fun j => h.whole hr (hne j)⟩

theorem isUnit_of_joint? (hj : r.joint? = none)
    (h : ∀ k, condition scope (nots k ++ r.level) = some (scope.negations k (r.reread scope))) :
    IsUnit scope r := by
  intro k
  rw [grouped, if_pos hj, h]

/-- What is read under its own joint is read as a whole text, which may be joined by any word. -/
theorem joined_or_of_whole (hr : r.IsPlain)
    (h : ∀ j, r.joint? = some j ∨ r.joint? = none →
      joined scope j r.level = some (r.reread scope)) :
    joined scope .or r.level = some (r.reread scope) := by
  cases hj : r.joint? with
  | none => exact h .or (.inr hj)
  | some j =>
    cases j with
    | or => exact h .or (.inl hj)
    | and =>
      have hor : r.joint? ≠ some .or := by simp [hj]
      rw [joined_of_isFree (hr.isFree_level hor), tighter_or]
      exact h .and (.inl hj)

theorem IsReread.joined_or (h : IsReread scope r) (hr : r.IsPlain) :
    joined scope .or r.level = some (r.reread scope) := by
  refine joined_or_of_whole hr fun j hj => ?_
  have hw := h.whole j
  rcases hj with hj | hj
  · rwa [sided_self hj] at hw
  · rwa [sided_of_ne (by simp [hj]), grouped, if_pos hj] at hw

/-! ### One lemma for each kind of reading -/

theorem isReread_compare (c : Comparison) {s t : String} (hs : IsOperand s) (ht : IsOperand t) :
    IsReread scope (.compare c (.operand s) (.operand t)) := by
  refine (isUnit_of_joint? rfl fun k => ?_).isReread (.compare c hs ht) rfl
  cases hc : c.isFunction with
  | false =>
    have hlevel : (Reading.compare c (.operand s) (.operand t)).level =
        [.word s, .word c.word, .word t] := by
      rw [Reading.level, hc]
      rfl
    rw [hlevel]
    exact condition_nots_compare scope hc hs.not_keyword ht.not_keyword k
  | true =>
    have hlevel : (Reading.compare c (.operand s) (.operand t)).level =
        [.word c.word, .group [.word s, .comma, .word t]] := by
      rw [Reading.level, hc]
      rfl
    have hword : sign? c.word = none ∧ c.word ≠ "not" ∧ functions.lookup c.word = some c := by
      cases c <;> first | exact ⟨rfl, by decide, rfl⟩ | cases hc
    rw [hlevel]
    refine condition_nots (isFree_word.2 ⟨hword.1, isFree_groups _⟩)
      (unary_call hword.2.1 hword.2.2) ?_ k
    rw [Reading.isSigned, hc]
    rfl

theorem isReread_oneOf {s : String} {items : List String} (hs : IsOperand s)
    (hitems : ∀ t ∈ items, IsOperand t) : IsReread scope (.oneOf (.operand s) items) :=
  (isUnit_of_joint? rfl fun k => condition_nots_oneOf scope hs.not_keyword items k).isReread
    (.oneOf hs hitems) rfl

theorem IsReread.negate (h : IsReread scope r) (hr : r.IsPlain) :
    IsReread scope (.negate r) := by
  refine (isUnit_of_joint? rfl fun k => ?_).isReread (.negate hr) rfl
  rw [Reading.level, nots_append_not, h.unit]
  rfl

theorem IsReread.quantify (q : Quantifier) {collection name : String} (h : IsReread scope r)
    (hplain : (Reading.quantify q collection name r).IsPlain) (hr : r.IsPlain) :
    IsReread scope (.quantify q collection name r) := by
  refine (isUnit_of_joint? rfl fun k => ?_).isReread hplain rfl
  have hslash : '/' ∈ (collection ++ "/" ++ q.word).toList := by simp
  have hsign := sign?_of_not_keyword (not_keyword_of_slash hslash)
  exact condition_nots (isFree_word.2 ⟨hsign, isFree_groups _⟩)
    (unary_quantify q (h.joined_or hr)) rfl k

/-- Under its own joint, a joined reading is read side by side. -/
theorem IsReread.joined_join (j : Joint) (hr : IsReread scope r) (hs : IsReread scope s) :
    joined scope j (Reading.join j r s).level = some ((Reading.join j r s).reread scope) := by
  rw [Reading.level, hs.right, hr.whole]
  rfl

theorem IsReread.isUnit_join (j : Joint) (hr : IsReread scope r) (hs : IsReread scope s)
    (hplain : (Reading.join j r s).IsPlain) : IsUnit scope (.join j r s) := by
  intro k
  have hgroup : grouped (Reading.join j r s).joint? (Reading.join j r s).level =
      [.group (Reading.join j r s).level] := rfl
  have htext : joined scope .or (Reading.join j r s).level =
      some ((Reading.join j r s).reread scope) := by
    refine joined_or_of_whole hplain fun k hk => ?_
    obtain rfl : j = k := by simpa [Reading.joint?] using hk
    exact hr.joined_join j hs
  have hsigned : ((Reading.join j r s).reread scope).isSigned = false :=
    Reading.isSigned_of_joint? (Reading.joint?_attach j _ _)
  rw [hgroup]
  exact condition_nots (isFree_groups _) (unary_group.trans htext) hsigned k

/-- A joined reading on the right of its own joint: its sides come one after the other. -/
theorem IsReread.right_join (j : Joint) (hr : IsReread scope r) (hs : IsReread scope s)
    (x : Level) :
    joined scope j (x ++ .word j.keyword :: (Reading.join j r s).level) =
      (joined scope j x).map fun l => .attach j l ((Reading.join j r s).reread scope) := by
  have happ : x ++ Node.word j.keyword :: (Reading.join j r s).level =
      (x ++ Node.word j.keyword :: sided j r.joint? r.level) ++
        .word j.keyword :: sided j s.joint? s.level := by
    simp [Reading.level]
  rw [happ, hs.right, hr.right, Option.map_map]
  congr 1
  funext l
  exact (Reading.attach_attach j _ _ _).symm

theorem IsReread.join (j : Joint) (hr : IsReread scope r) (hs : IsReread scope s)
    (hplain : (Reading.join j r s).IsPlain) : IsReread scope (.join j r s) := by
  have hself : sided j (Reading.join j r s).joint? (Reading.join j r s).level =
      (Reading.join j r s).level := if_pos rfl
  have hne {k : Joint} (hk : k ≠ j) : (Reading.join j r s).joint? ≠ some k :=
    fun h => hk (Option.some.inj h).symm
  have hunit := hr.isUnit_join j hs hplain
  refine ⟨hunit, fun k x => ?_, fun k => ?_⟩
  · by_cases hk : k = j
    · rw [hk, hself]
      exact hr.right_join j hs x
    · exact hunit.right hplain (hne hk) x
  · by_cases hk : k = j
    · rw [hk, hself]
      exact hr.joined_join j hs
    · exact hunit.whole hplain (hne hk)

end Rereading

/-- **Every plain reading is read again.** -/
theorem Reading.IsPlain.isReread (scope : NotScope) {r : Reading} (h : r.IsPlain) :
    IsReread scope r := by
  induction h with
  | compare c hs ht => exact isReread_compare c hs ht
  | oneOf hs hitems => exact isReread_oneOf hs hitems
  | join j hr hs ihr ihs => exact ihr.join j ihs (.join j hr hs)
  | negate hr ih => exact ih.negate hr
  | quantify q hcollection hname hr ih =>
    exact ih.quantify q (.quantify q hcollection hname hr) hr

/-- Whoever reads the text of a predicate finds the reading that was foretold. -/
theorem Reading.IsPlain.read_eq (scope : NotScope) {r : Reading} (h : r.IsPlain) :
    read scope r.piece.joined = some (r.reread scope) := by
  rw [read, h.spells.levelOf_eq]
  exact (h.isReread scope).joined_or h

/-- If a `not` reaches over the whole condition, only the bracketing of equal joints is lost. -/
theorem Reading.regroups_reread (r : Reading) : Regroups (r.reread .condition) r := by
  induction r with
  | operand text => exact .refl _
  | compare c l r ihl ihr => exact .compare c ihl ihr
  | oneOf l items ih => exact .oneOf ih items
  | quantify q collection name body ih => exact .quantify q collection name ih
  | negate r ih => exact .negate ih
  | join j l r ihl ihr => exact (regroups_attach j _ _).trans (.join j ihl ihr)

end EntityQuery.Filter

namespace EntityQuery

open EntityQuery.Filter

/-- **Filters are read back.**  Whatever the builders make is written as a text, and a reader who
lets `not` reach over the whole condition behind it finds in the text what was built, up to the
bracketing of equal joints. -/
theorem Predicate.Built.read_fragment {p : Predicate} {r : Filter.Reading} (h : p.Built r) :
    ∃ f, p.expression.fragment = .ok f ∧
      ∃ t, read .condition f.joined = some t ∧ t.Regroups r :=
  ⟨r.piece, h.fragment_eq, r.reread .condition, h.isPlain.read_eq .condition, r.regroups_reread⟩

/-- A string with everything in it that could end it early, under a negated group with a quantifier
inside. -/
theorem Predicate.Built.read_fragment_nested :
    ∃ f, (Predicate.negate (.join .or
        (.compare .equals ⟨["name"]⟩ (.literal (.ofValue (.text "it's (a) or b"))))
        (.quantify .any ⟨["mother", "children"]⟩ "p0" (.join .and
          (.compare .contains ⟨["p0", "name"]⟩ (.field ⟨["p0", "nick"]⟩))
          (.negate (.oneOf ⟨["p0", "age"]⟩ [.number ⟨12, 1⟩, .null])))))).expression.fragment =
            .ok f ∧
      ∃ t, read .condition f.joined = some t ∧ t.Regroups (.negate (.join .or
        (.compare .equals (.operand "name") (.operand "'it''s (a) or b'"))
        (.quantify .any "mother/children" "p0" (.join .and
          (.compare .contains (.operand "p0/name") (.operand "p0/nick"))
          (.negate (.oneOf (.operand "p0/age") ["1.2", "null"])))))) :=
  Predicate.Built.read_fragment (.negate (.join .or
    (.compare .equals (f := ⟨["name"]⟩) (by decide) (.literal rfl fun h => by cases h.1))
    (.quantify .any (f := ⟨["mother", "children"]⟩) (by decide) (by decide) (.join .and
      (.compare .contains (f := ⟨["p0", "name"]⟩) (by decide)
        (.field (f := ⟨["p0", "nick"]⟩) (by decide)))
      (.negate (.oneOf (f := ⟨["p0", "age"]⟩) (by decide) rfl))))))

end EntityQuery
