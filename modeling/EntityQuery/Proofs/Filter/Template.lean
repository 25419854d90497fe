import EntityQuery.Proofs.Condition.Renaming
import EntityQuery.Proofs.Filter.Operand
import EntityQuery.Proofs.Filter.WellFormed

/-!
# Texts with gaps

The filter of a renamed tree is the filter of the tree with other variables in it, in the same places.
A `Template` is a text that has gaps in these places, and `Template.fill σ` puts the variables of `σ`
into them.  A text that depends on a renaming is **filled** if there is one template for it, whatever the
renaming is (`IsFilled`); in particular nothing else in it depends on the renaming, not even its length
or where it is grouped.

Writing may fail, but then it fails for every renaming: for the same path up to renaming, or for a reason
in which no name occurs (`IsUniform`).  `Expression.isUniform_fragment` says that trees are written in
this way, by a case for each of the operators (`Fragment.isUniform_compose`).
-/

set_option autoImplicit false

namespace EntityQuery

/-! ## Templates -/

/-- A piece of a text: always the same, or the variable of a number. -/
inductive Piece
  | fixed (s : String)
  | gap (n : Nat)

/-- A text with gaps. -/
abbrev Template := List Piece

/-- The text with variables in its gaps, under their new numbers. -/
def Template.fill (σ : Nat → Nat) : Template → String
  | [] => ""
  | .fixed s :: rest => s ++ fill σ rest
  | .gap n :: rest => variableName (σ n) ++ fill σ rest

theorem Template.fill_append (σ : Nat → Nat) (t u : Template) :
    fill σ (t ++ u) = fill σ t ++ fill σ u := by
  induction t with
  | nil => exact String.empty_append.symm
  | cons piece rest ih => cases piece <;> simp [fill, ih, String.append_assoc]

example : Template.fill (· + 3) [.fixed "tags/any(", .gap 0, .fixed ": ", .gap 0, .fixed "/id eq 1)"] =
    "tags/any(p3: p3/id eq 1)" := by decide

/-- A text that depends on a renaming only by what is in its gaps. -/
def IsFilled (f : (Nat → Nat) → String) : Prop := ∃ t : Template, ∀ σ, f σ = t.fill σ

namespace IsFilled

variable {f g : (Nat → Nat) → String}

theorem fixed (s : String) : IsFilled fun _ => s :=
  ⟨[.fixed s], fun _ => String.append_empty.symm⟩

theorem gap (n : Nat) : IsFilled fun σ => variableName (σ n) :=
  ⟨[.gap n], fun _ => String.append_empty.symm⟩

theorem append (hf : IsFilled f) (hg : IsFilled g) : IsFilled fun σ => f σ ++ g σ := by
  obtain ⟨t, ht⟩ := hf
  obtain ⟨u, hu⟩ := hg
  refine ⟨t ++ u, fun σ => ?_⟩
  show f σ ++ g σ = _
  rw [ht, hu, Template.fill_append]

theorem name (name : String) : IsFilled fun σ => renameName σ name := by
  cases h : variableNumber? name with
  | none =>
    simp only [renameName_of_none h]
    exact fixed name
  | some n =>
    simp only [variableNumber?_eq_some.1 h, renameName_variableName]
    exact gap n

end IsFilled

/-- Texts that depend on a renaming only by what is in their gaps. -/
def AreFilled (f : (Nat → Nat) → List String) : Prop :=
  ∃ ts : List Template, ∀ σ, f σ = ts.map (Template.fill σ)

namespace AreFilled

variable {f g : (Nat → Nat) → List String} {h : (Nat → Nat) → String}

theorem fixed (ss : List String) : AreFilled fun _ => ss := by
  refine ⟨ss.map fun s => [.fixed s], fun σ => ?_⟩
  rw [List.map_map]
  exact (List.map_id' ss).symm.trans
    (List.map_congr_left fun s _ => (String.append_empty : s ++ "" = s).symm)

theorem cons (hh : IsFilled h) (hf : AreFilled f) : AreFilled fun σ => h σ :: f σ := by
  obtain ⟨t, ht⟩ := hh
  obtain ⟨ts, hts⟩ := hf
  refine ⟨t :: ts, fun σ => ?_⟩
  show h σ :: f σ = _
  rw [ht, hts, List.map_cons]

theorem append (hf : AreFilled f) (hg : AreFilled g) : AreFilled fun σ => f σ ++ g σ := by
  obtain ⟨ts, hts⟩ := hf
  obtain ⟨us, hus⟩ := hg
  refine ⟨ts ++ us, fun σ => ?_⟩
  show f σ ++ g σ = _
  rw [hts, hus, List.map_append]

theorem intercalate_fill (separator : String) (ts : List Template) :
    IsFilled fun σ => separator.intercalate (ts.map (Template.fill σ)) := by
  induction ts with
  | nil => exact .fixed ""
  | cons t rest ih =>
    have ht : IsFilled fun σ => t.fill σ := ⟨t, fun _ => rfl⟩
    cases rest with
    | nil =>
      simp only [List.map_cons, List.map_nil, String.intercalate_singleton]
      exact ht
    | cons u more =>
      simp only [List.map_cons, String.intercalate_cons_cons] at ih ⊢
      exact (ht.append (.fixed separator)).append ih

theorem intercalate (hf : AreFilled f) (separator : String) :
    IsFilled fun σ => separator.intercalate (f σ) := by
  obtain ⟨ts, hts⟩ := hf
  simp only [hts]
  exact intercalate_fill separator ts

end AreFilled

/-! ## Results for every renaming -/

/-- An error after variables have changed their numbers.  Only paths in errors have variables. -/
inductive QueryError.Renamed (σ : Nat → Nat) : QueryError → QueryError → Prop
  | same (e : QueryError) : Renamed σ e e
  | path (f : Field) : Renamed σ (.invalidFieldPath f.text) (.invalidFieldPath (f.rename σ).text)

/-- Work that depends on a renaming only in the gaps of its result, if it has a good one.  It may fail
for a path, up to renaming, or for a reason in which there are no names. -/
inductive IsUniform {α : Type} (good : ((Nat → Nat) → α) → Prop)
    (F : (Nat → Nat) → Except QueryError α) : Prop
  | ok {a : (Nat → Nat) → α} (ha : good a) (h : ∀ σ, F σ = .ok (a σ))
  | path (f : Field) (h : ∀ σ, F σ = .error (.invalidFieldPath (f.rename σ).text))
  | error (e : QueryError) (h : ∀ σ, F σ = .error e)

namespace IsUniform

variable {α β : Type} {good : ((Nat → Nat) → α) → Prop} {good' : ((Nat → Nat) → β) → Prop}
  {F : (Nat → Nat) → Except QueryError α}

theorem pure {a : (Nat → Nat) → α} (ha : good a) : IsUniform good fun σ => .ok (a σ) :=
  .ok ha fun _ => rfl

theorem bind {G : (Nat → Nat) → α → Except QueryError β} (hF : IsUniform good F)
    (hG : ∀ a, good a → IsUniform good' fun σ => G σ (a σ)) :
    IsUniform good' fun σ => F σ >>= G σ := by
  cases hF with
  | @ok a ha h =>
    have hbind : (fun σ => F σ >>= G σ) = fun σ => G σ (a σ) := by
      funext σ
      rw [h]
      rfl
    rw [hbind]
    exact hG a ha
  | path f h => exact .path f fun σ => by rw [h]; rfl
  | error e h => exact .error e fun σ => by rw [h]; rfl

theorem map {g : (Nat → Nat) → α → β} (hF : IsUniform good F)
    (hg : ∀ a, good a → good' fun σ => g σ (a σ)) : IsUniform good' fun σ => (F σ).map (g σ) := by
  cases hF with
  | ok ha h => exact .ok (hg _ ha) fun σ => by rw [h]; rfl
  | path f h => exact .path f fun σ => by rw [h]; rfl
  | error e h => exact .error e fun σ => by rw [h]; rfl

/-- What comes of work for one renaming, compared with what comes of it without any. -/
theorem id_or (hF : IsUniform good F) (σ : Nat → Nat) :
    (∃ a a', F id = .ok a ∧ F σ = .ok a') ∨
      ∃ e e', e.Renamed σ e' ∧ F id = .error e ∧ F σ = .error e' := by
  cases hF with
  | ok _ h => exact .inl ⟨_, _, h id, h σ⟩
  | path f h => exact .inr ⟨_, _, .path f, by rw [h, f.rename_id], h σ⟩
  | error e h => exact .inr ⟨e, e, .same e, h id, h σ⟩

end IsUniform

theorem Operand.renameAll_eq_map (σ : Nat → Nat) (xs : List Operand) :
    renameAll σ xs = xs.map (rename σ) := by
  induction xs with
  | nil => rfl
  | cons x rest ih => rw [renameAll, ih, List.map_cons]

theorem Operand.fragments_eq_map (xs : List Operand) : fragments xs = xs.map fragment := by
  induction xs with
  | nil => rfl
  | cons x rest ih => rw [fragments, ih, List.map_cons]

/-- The pieces of renamed operands, as one piece for each operand under every renaming. -/
theorem Operand.fragments_renameAll (σ : Nat → Nat) (xs : List Operand) :
    fragments (renameAll σ xs) = (xs.map fun x σ => (x.rename σ).fragment).map fun F => F σ := by
  rw [renameAll_eq_map, fragments_eq_map, List.map_map, List.map_map]
  rfl

/-! ## Fragments -/

namespace Fragment

theorem reduce_eq_ite (f : Fragment) :
    f.reduce = if f.words.length = 1 then f.joined else "(" ++ f.joined ++ ")" := by
  obtain ⟨_ | ⟨word, _ | ⟨other, more⟩⟩, j⟩ := f
  · rfl
  · exact (joined_atom word).symm
  · rfl

theorem negate_eq_ite (f : Fragment) :
    f.negate = atom (if f.words.length = 1 then "not " ++ f.joined else "not(" ++ f.joined ++ ")") := by
  obtain ⟨_ | ⟨word, _ | ⟨other, more⟩⟩, j⟩ := f
  · rfl
  · exact congrArg (fun s => atom ("not " ++ s)) (joined_atom word).symm
  · rfl

/-- A piece of a filter that depends on a renaming only in the gaps of its words. -/
structure IsFilled (f : (Nat → Nat) → Fragment) : Prop where
  words : AreFilled fun σ => (f σ).words
  joint : ∃ j, ∀ σ, (f σ).joint = j

namespace IsFilled

variable {f g : (Nat → Nat) → Fragment}

theorem atom {word : (Nat → Nat) → String} (h : EntityQuery.IsFilled word) :
    IsFilled fun σ => atom (word σ) :=
  ⟨.cons h (.fixed []), none, fun _ => rfl⟩

theorem joined (h : IsFilled f) : EntityQuery.IsFilled fun σ => (f σ).joined := h.words.intercalate " "

/-- Whether a piece is of one word does not depend on the renaming. -/
theorem length_words (h : IsFilled f) : ∃ n, ∀ σ, (f σ).words.length = n := by
  obtain ⟨ts, hts⟩ := h.words
  exact ⟨ts.length, fun σ => (congrArg List.length (hts σ)).trans (List.length_map ..)⟩

theorem reduce (h : IsFilled f) : EntityQuery.IsFilled fun σ => (f σ).reduce := by
  obtain ⟨n, hn⟩ := h.length_words
  simp only [reduce_eq_ite, hn]
  split
  · exact h.joined
  · exact ((EntityQuery.IsFilled.fixed "(").append h.joined).append (.fixed ")")

theorem negate (h : IsFilled f) : IsFilled fun σ => (f σ).negate := by
  obtain ⟨n, hn⟩ := h.length_words
  simp only [negate_eq_ite, hn]
  split
  · exact atom ((EntityQuery.IsFilled.fixed "not ").append h.joined)
  · exact atom (((EntityQuery.IsFilled.fixed "not(").append h.joined).append (.fixed ")"))

theorem side (h : IsFilled f) (j : Joint) : AreFilled fun σ => (f σ).side j := by
  obtain ⟨k, hk⟩ := h.joint
  simp only [Fragment.side, hk]
  split
  · exact h.words
  · exact .cons h.reduce (.fixed [])

theorem join (hf : IsFilled f) (hg : IsFilled g) (j : Joint) :
    IsFilled fun σ => join j (f σ) (g σ) :=
  ⟨(hf.side j).append (.cons (.fixed j.keyword) (hg.side j)), some j, fun _ => rfl⟩

end IsFilled

/-! ## Nodes -/

/-- What a condition on two operands is written as. -/
theorem isFilled_binary {operator : Operator} {write : String → String → String}
    (hwrite : binary? operator = some write) {l r : (Nat → Nat) → String}
    (hl : EntityQuery.IsFilled l) (hr : EntityQuery.IsFilled r) :
    EntityQuery.IsFilled fun σ => write (l σ) (r σ) := by
  rw [binary?] at hwrite
  split at hwrite
  · next sign _ =>
    obtain rfl := Option.some.inj hwrite
    exact (((hl.append (.fixed " ")).append (.fixed sign)).append (.fixed " ")).append hr
  · next name _ _ =>
    obtain rfl := Option.some.inj hwrite
    have hopen := (EntityQuery.IsFilled.fixed name).append (.fixed "(")
    exact (((hopen.append hl).append (.fixed ",")).append hr).append (.fixed ")")
  · split at hwrite
    · obtain rfl := Option.some.inj hwrite
      exact ((hl.append (.fixed " in (")).append hr).append (.fixed ")")
    · cases hwrite

/-- A condition is made of two operands, and not by every operator. -/
theorem composeBinary_eq_error {operator : Operator} {pieces : List Written}
    (h : pieces.length ≠ 2 ∨ binary? operator = none) :
    composeBinary operator pieces = .error (.unsupportedOperator operator) := by
  rw [composeBinary.eq_def]
  split
  · next write l r hwrite =>
    rcases h with hlength | hnone
    · exact absurd rfl hlength
    · rw [hnone] at hwrite
      cases hwrite
  · rfl

/-- A quantifier has three operands. -/
theorem composeQuantifier_eq_error {operator : Operator} {word : String} {xs : List Operand}
    {pieces : List Written} (h : xs.length ≠ 3) :
    composeQuantifier operator word xs pieces = .error (.unsupportedOperator operator) := by
  rw [composeQuantifier.eq_def]
  split
  · exact absurd rfl h
  · exact absurd rfl h
  · rfl

variable {F G : (Nat → Nat) → Written} {Fs : List ((Nat → Nat) → Written)} {xs : List Operand}

/-- A piece made of two others, the left one looked at first. -/
theorem isUniform_two {make : (Nat → Nat) → Fragment → Fragment → Fragment}
    (hF : IsUniform IsFilled F) (hG : IsUniform IsFilled G)
    (hmake : ∀ l r, IsFilled l → IsFilled r → IsFilled fun σ => make σ (l σ) (r σ)) :
    IsUniform IsFilled fun σ => (do let l ← F σ; let r ← G σ; .ok (make σ l r)) := by
  refine hF.bind fun l hl => ?_
  refine hG.bind fun r hr => ?_
  exact .pure (hmake l r hl hr)

theorem isUniform_composeBinary (operator : Operator) (h : ∀ F ∈ Fs, IsUniform IsFilled F) :
    IsUniform IsFilled fun σ => composeBinary operator (Fs.map fun F => F σ) := by
  by_cases hrefused : Fs.length ≠ 2 ∨ binary? operator = none
  · refine .error (.unsupportedOperator operator) fun σ => composeBinary_eq_error ?_
    rwa [List.length_map]
  · rw [not_or, not_not] at hrefused
    obtain ⟨F, G, rfl⟩ := List.length_eq_two.1 hrefused.1
    obtain ⟨write, hwrite⟩ := Option.ne_none_iff_exists'.1 hrefused.2
    have hcompose (σ : Nat → Nat) : composeBinary operator ([F, G].map fun F => F σ) =
        (do let l ← F σ; let r ← G σ; .ok (atom (write l.reduce r.reduce))) := by
      rw [composeBinary.eq_def, hwrite]
      rfl
    simp only [hcompose]
    refine isUniform_two (h F (by simp)) (h G (by simp)) ?_
    exact fun l r hl hr => .atom (isFilled_binary hwrite hl.reduce hr.reduce)

theorem isUniform_composeJoint (operator : Operator) (j : Joint)
    (h : ∀ F ∈ Fs, IsUniform IsFilled F) :
    IsUniform IsFilled fun σ => composeJoint operator j (Fs.map fun F => F σ) := by
  rcases Fs with _ | ⟨F, _ | ⟨G, _ | ⟨H, more⟩⟩⟩
  · exact .error _ fun _ => rfl
  · exact .error _ fun _ => rfl
  · exact isUniform_two (h F (by simp)) (h G (by simp)) fun l r hl hr => hl.join hr j
  · exact .error _ fun _ => rfl

/-- The variable of a quantifier may be a gap. -/
theorem isUniform_composeQuantifier (operator : Operator) (word : String)
    (h : ∀ x ∈ xs, IsUniform IsFilled fun σ => (x.rename σ).fragment) :
    IsUniform IsFilled fun σ => composeQuantifier operator word (Operand.renameAll σ xs)
      (Operand.fragments (Operand.renameAll σ xs)) := by
  by_cases hlength : xs.length = 3
  · obtain ⟨x, v, y, rfl⟩ := List.length_eq_three.1 hlength
    match v, h with
    | .variable name, h =>
      refine isUniform_two (h x (by simp)) (h y (by simp)) fun f b hf hb => .atom ?_
      have hhead := ((hf.reduce.append (.fixed "/")).append (.fixed word)).append (.fixed "(")
      have hvariable := (hhead.append (.name name)).append (.fixed ": ")
      exact (hvariable.append hb.joined).append (.fixed ")")
    | .literal _, _ | .field _, _ | .expression _, _ | .bare _, _ | .list _, _ | .projection _, _ =>
      exact .error _ fun _ => rfl
  · refine .error (.unsupportedOperator operator) fun σ => composeQuantifier_eq_error ?_
    rwa [Operand.renameAll_eq_map, List.length_map]

/-- Operators of one operand. -/
theorem isUniform_single {operator : Operator}
    (h : ∀ F ∈ Fs, IsUniform IsFilled F) {make : Written → Written}
    (hmake : ∀ F, IsUniform IsFilled F → IsUniform IsFilled fun σ => make (F σ)) :
    IsUniform IsFilled fun σ => match Fs.map fun F => F σ with
      | [piece] => make piece
      | _ => .error (.unsupportedOperator operator) := by
  rcases Fs with _ | ⟨F, _ | ⟨G, more⟩⟩
  · exact .error _ fun _ => rfl
  · exact hmake F (h F (by simp))
  · exact .error _ fun _ => rfl

/-- **Nodes are written in one way.**  Which words a node is written with, and whether it is written at
all, depends on its operator and on the kinds of its operands, not on the names in them. -/
theorem isUniform_compose (operator : Operator)
    (h : ∀ x ∈ xs, IsUniform IsFilled fun σ => (x.rename σ).fragment) :
    IsUniform IsFilled fun σ => compose operator (Operand.renameAll σ xs)
      (Operand.fragments (Operand.renameAll σ xs)) := by
  have hpieces := List.forall_mem_map.2 h
  cases operator with
  | any => exact isUniform_composeQuantifier .any "any" h
  | all => exact isUniform_composeQuantifier .all "all" h
  | literal =>
    simp only [Operand.fragments_renameAll]
    exact isUniform_single hpieces fun F hF => hF
  | fieldReference =>
    simp only [Operand.fragments_renameAll]
    exact isUniform_single hpieces fun F hF => hF
  | not =>
    simp only [Operand.fragments_renameAll]
    exact isUniform_single hpieces fun F hF => hF.map fun f hf => hf.negate
  | and =>
    simp only [Operand.fragments_renameAll]
    exact isUniform_composeJoint .and .and hpieces
  | or =>
    simp only [Operand.fragments_renameAll]
    exact isUniform_composeJoint .or .or hpieces
  | _ =>
    simp only [Operand.fragments_renameAll, compose]
    exact isUniform_composeBinary _ hpieces

/-- Items of a list, one after the other. -/
theorem isUniform_mapM (h : ∀ F ∈ Fs, IsUniform IsFilled F) :
    IsUniform (fun fs => AreFilled fun σ => (fs σ).map reduce)
      fun σ => (Fs.map fun F => F σ).mapM id := by
  induction Fs with
  | nil => exact .pure (.fixed [])
  | cons F rest ih =>
    rw [List.forall_mem_cons] at h
    simp only [List.map_cons, List.mapM_cons]
    refine h.1.bind fun f hf => ?_
    refine (ih h.2).bind fun fs hfs => ?_
    exact .pure (.cons hf.reduce hfs)

theorem isUniform_listing (h : ∀ F ∈ Fs, IsUniform IsFilled F) :
    IsUniform IsFilled fun σ => listing (Fs.map fun F => F σ) :=
  (isUniform_mapM h).map fun _ hfs => .atom (hfs.intercalate ",")

end Fragment

/-! ## Trees -/

namespace Field

theorem isFilled_text (f : Field) : IsFilled fun σ => (f.rename σ).text := by
  obtain ⟨path⟩ := f
  cases path with
  | nil => exact .fixed ""
  | cons segment rest => exact (AreFilled.cons (.name segment) (.fixed rest)).intercalate "/"

/-- A variable is not blank, whatever its number is. -/
theorem isBlank_renameName (σ : Nat → Nat) (name : String) :
    Text.isBlank (renameName σ name) = Text.isBlank name := by
  cases h : variableNumber? name with
  | none => rw [renameName_of_none h]
  | some n =>
    rw [variableNumber?_eq_some.1 h, renameName_variableName,
      (Filter.isName_variableName _).isBlank_eq, (Filter.isName_variableName _).isBlank_eq]

theorem isValid_rename (σ : Nat → Nat) (f : Field) : (f.rename σ).isValid = f.isValid := by
  obtain ⟨path⟩ := f
  cases path with
  | nil => rfl
  | cons segment rest =>
    rw [rename, isValid, isValid, List.modifyHead_cons, List.any_cons, List.any_cons,
      isBlank_renameName]
    rfl

theorem isUniform_validate (f : Field) :
    IsUniform (fun _ => True) fun σ => (f.rename σ).validate := by
  cases h : f.isValid with
  | true => exact .ok (a := fun _ => ()) trivial fun σ => by rw [validate, isValid_rename, if_pos h]
  | false =>
    refine .path f fun σ => ?_
    rw [validate, isValid_rename, h, if_neg Bool.false_ne_true]

theorem isUniform_written (f : Field) : IsUniform IsFilled fun σ => (f.rename σ).written :=
  f.isUniform_validate.map fun _ _ => f.isFilled_text

end Field

theorem Literal.isUniform_fragment (l : Literal) : IsUniform Fragment.IsFilled fun _ => l.fragment := by
  rw [Literal.fragment]
  split
  · exact .pure (.atom (.fixed _))
  · exact .error _ fun _ => rfl

theorem Value.isUniform_fragment (v : Value) : IsUniform Fragment.IsFilled fun _ => v.fragment := by
  rw [Value.fragment]
  split
  · exact .pure (.atom (.fixed _))
  · exact .error _ fun _ => rfl

mutual

/-- **A renamed tree is written as the tree is**, with other variables in the same gaps, or fails in the
same way. -/
theorem Expression.isUniform_fragment (e : Expression) :
    IsUniform Fragment.IsFilled fun σ => (e.rename σ).fragment := by
  match e with
  | .node operator operands previous =>
    exact Fragment.isUniform_compose operator (Operand.isUniform_fragments operands)

theorem Operand.isUniform_fragment (x : Operand) :
    IsUniform Fragment.IsFilled fun σ => (x.rename σ).fragment := by
  match x with
  | .literal l => exact l.isUniform_fragment
  | .field f => exact f.isUniform_written.map fun _ htext => .atom htext
  | .expression e =>
    cases hlinked : e.isLinked with
    | true =>
      refine .error (.invalidPredicateComposition ("'" ++ e.operator.name ++
        "' links to a query chain and cannot be used as an operand")) fun σ => ?_
      rw [Operand.rename, Operand.fragment, Expression.isLinked_rename, if_pos hlinked,
        Expression.operator_rename]
    | false =>
      simp only [Operand.rename, Operand.fragment, Expression.isLinked_rename, hlinked,
        if_neg Bool.false_ne_true]
      exact e.isUniform_fragment
  | .bare v => exact v.isUniform_fragment
  | .list items =>
    simp only [Operand.rename, Operand.fragment, Operand.fragments_renameAll]
    exact Fragment.isUniform_listing (List.forall_mem_map.2 (Operand.isUniform_fragments items))
  | .variable name => exact .pure (.atom (.name name))
  | .projection p => exact .error _ fun _ => rfl

theorem Operand.isUniform_fragments (xs : List Operand) :
    ∀ x ∈ xs, IsUniform Fragment.IsFilled fun σ => (x.rename σ).fragment := by
  match xs with
  | [] => exact nofun
  | x :: rest =>
    exact List.forall_mem_cons.2 ⟨x.isUniform_fragment, Operand.isUniform_fragments rest⟩

end

mutual

/-- The first path of a renamed tree that names nothing is that of the tree, renamed. -/
theorem Expression.isUniform_validateFields (e : Expression) :
    IsUniform (fun _ => True) fun σ => (e.rename σ).validateFields := by
  match e with
  | .node operator operands previous => exact Operand.isUniform_validateAll operands

theorem Operand.isUniform_validateFields (x : Operand) :
    IsUniform (fun _ => True) fun σ => (x.rename σ).validateFields := by
  match x with
  | .field f => exact f.isUniform_validate
  | .expression e => exact e.isUniform_validateFields
  | .list items => exact Operand.isUniform_validateAll items
  | .literal _ | .bare _ | .variable _ | .projection _ => exact .pure (a := fun _ => ()) trivial

theorem Operand.isUniform_validateAll (xs : List Operand) :
    IsUniform (fun _ => True) fun σ => Operand.validateAll (Operand.renameAll σ xs) := by
  match xs with
  | [] => exact .pure (a := fun _ => ()) trivial
  | x :: rest =>
    exact x.isUniform_validateFields.bind fun _ _ => Operand.isUniform_validateAll rest

end

/-- The filter of a renamed predicate. -/
theorem Predicate.isUniform_filterText (p : Predicate) :
    IsUniform (fun text => ∃ t : Template, ∀ σ, text σ = some (t.fill σ))
      fun σ => (p.rename σ).expression.filterText := by
  have htext (σ : Nat → Nat) : (p.rename σ).expression.filterText =
      (p.expression.rename σ).fragment.map fun f => some f.joined :=
    Segments.filterText_of_unlinked (p.rename σ).isLinked_expression
  simp only [htext]
  refine p.expression.isUniform_fragment.map fun f hf => ?_
  obtain ⟨t, ht⟩ := hf.joined
  exact ⟨t, fun σ => congrArg some (ht σ)⟩

end EntityQuery
