import EntityQuery.Proofs.Filter.RoundTrip

/-!
# How far a negation reaches

To a reader for whom `not` binds tighter than the signs of comparisons (`NotScope.operand`),
`not a eq 1` negates `a`.  A negation is written without parentheses in front of everything that is
a single word, and a comparison is one: so this reader finds in some filters another condition than
the one that was built.

This file says in which: in those that have a negation directly over a comparison by a sign, or over
a list of values (`Reading.negatesComparison`).  In all others the two readers agree
(`Reading.reread_operand`).

What "another condition" means is said with an `Interpretation`, which gives a value to every
reading.  Readings that differ in the bracketing of equal joints have the same value in each of them
(`Reading.Regroups.eval_eq`), and `Kind.interpretation`, under which only conditions can be negated,
tells the misread filters from what was built.
-/

set_option autoImplicit false

namespace EntityQuery.Filter

/-! ## Values of readings -/

/-- What the words of filters stand for.  A `World` is what a condition is asked about: an entity,
together with the elements that range variables stand for. -/
structure Interpretation (World Value : Type) where
  /-- The value of a constant or of a property. -/
  operand : World → String → Value
  compare : Comparison → Value → Value → Value
  oneOf : World → Value → List String → Value
  negate : Value → Value
  join : Joint → Value → Value → Value
  join_assoc : ∀ j a b c, join j (join j a b) c = join j a (join j b c)
  /-- One world for each element of a collection, where a variable stands for it. -/
  elements : World → String → String → List World
  quantify : Quantifier → List Value → Value

/-- The value of a reading. -/
def Interpretation.eval {World Value : Type} (I : Interpretation World Value) :
    World → Reading → Value
  | w, .operand text => I.operand w text
  | w, .compare c l r => I.compare c (I.eval w l) (I.eval w r)
  | w, .oneOf l items => I.oneOf w (I.eval w l) items
  | w, .quantify q collection name body =>
    I.quantify q ((I.elements w collection name).map fun v => I.eval v body)
  | w, .negate r => I.negate (I.eval w r)
  | w, .join j l r => I.join j (I.eval w l) (I.eval w r)

/-- **Bracketing does not matter**, as joints are associative. -/
theorem Reading.Regroups.eval_eq {World Value : Type} (I : Interpretation World Value)
    {r s : Reading} (h : Regroups r s) (w : World) : I.eval w r = I.eval w s := by
  induction h generalizing w with
  | refl r => rfl
  | symm _ ih => exact (ih w).symm
  | trans _ _ ih ik => exact (ih w).trans (ik w)
  | assoc j r s t => exact I.join_assoc j _ _ _
  | join j _ _ ih ik => simp only [Interpretation.eval, ih, ik]
  | negate _ ih => simp only [Interpretation.eval, ih]
  | quantify q collection name _ ih => simp only [Interpretation.eval, ih]
  | compare c _ _ ih ik => simp only [Interpretation.eval, ih, ik]
  | oneOf _ items ih => simp only [Interpretation.eval, ih]

/-! ## Kinds of readings -/

/-- What kind of value a reading has. -/
inductive Kind
  | value
  | condition
  /-- Something was negated that is no condition. -/
  | fault
deriving DecidableEq

namespace Kind

/-- A condition, unless there is a fault in what it is made of. -/
def ofParts (parts : List Kind) : Kind := if fault ∈ parts then fault else condition

theorem ofParts_eq_fault {parts : List Kind} : ofParts parts = fault ↔ fault ∈ parts := by
  rw [ofParts]
  split <;> simp_all

def negate : Kind → Kind
  | condition => condition
  | _ => fault

/-- The interpretation that only looks at kinds. -/
def interpretation : Interpretation Unit Kind where
  operand _ _ := value
  compare _ a b := ofParts [a, b]
  oneOf _ a _ := ofParts [a]
  negate := negate
  join _ a b := ofParts [a, b]
  join_assoc _ a b c := by cases a <;> cases b <;> cases c <;> rfl
  elements _ _ _ := [()]
  quantify _ vs := ofParts vs

/-- The kind of a reading. -/
def of (r : Reading) : Kind := interpretation.eval () r

theorem of_compare (c : Comparison) (l r : Reading) :
    of (.compare c l r) = ofParts [of l, of r] := rfl

theorem of_oneOf (l : Reading) (items : List String) :
    of (.oneOf l items) = ofParts [of l] := rfl

theorem of_quantify (q : Quantifier) (collection name : String) (body : Reading) :
    of (.quantify q collection name body) = ofParts [of body] := rfl

theorem of_negate (r : Reading) : of (.negate r) = (of r).negate := rfl

theorem of_join (j : Joint) (l r : Reading) : of (.join j l r) = ofParts [of l, of r] := rfl

/-- Whatever was written as a condition is one. -/
theorem of_isPlain {r : Reading} (h : r.IsPlain) : of r = condition := by
  induction h with
  | compare c hs ht => rfl
  | oneOf hs hitems => rfl
  | join j hr hs ihr ihs => rw [of_join, ihr, ihs]; rfl
  | negate hr ih => rw [of_negate, ih]; rfl
  | quantify q hcollection hname hr ih => rw [of_quantify, ih]; rfl

theorem of_attach (j : Joint) (l r : Reading) : of (.attach j l r) = ofParts [of l, of r] :=
  (Reading.regroups_attach j l r).eval_eq interpretation ()

/-- A fault on the left of a sign is not mended by a negation. -/
theorem of_negate_operand {r : Reading} (h : of r = fault) :
    of (NotScope.operand.negate r) = fault := by
  cases r with
  | compare c l r =>
    rw [NotScope.negate]
    split
    · rw [of_negate, h]; rfl
    · rw [of_compare, ofParts_eq_fault] at h ⊢
      have hl : of l = fault ∨ of r = fault := by simpa [eq_comm] using h
      rcases hl with hl | hr
      · rw [of_negate, hl]; exact List.mem_cons_self
      · rw [hr]; exact List.mem_cons_of_mem _ List.mem_cons_self
  | oneOf l items =>
    rw [of_oneOf, ofParts_eq_fault] at h
    have hl : of l = fault := (List.mem_singleton.1 h).symm
    rw [NotScope.negate, of_oneOf, of_negate, hl]
    rfl
  | _ => exact congrArg Kind.negate h

end Kind

/-! ## Filters that are misread -/

/-- Whether a negation stands directly over a comparison by a sign, or over a list of values. -/
def Reading.negatesComparison : Reading → Bool
  | .operand _ => false
  | .compare _ l r => l.negatesComparison || r.negatesComparison
  | .oneOf l _ => l.negatesComparison
  | .quantify _ _ _ body => body.negatesComparison
  | .negate r => r.isSigned || r.negatesComparison
  | .join _ l r => l.negatesComparison || r.negatesComparison

theorem Reading.isSigned_attach (j : Joint) (l r : Reading) : (attach j l r).isSigned = false :=
  isSigned_of_joint? (joint?_attach j l r)

theorem Reading.isSigned_reread (r : Reading) :
    (r.reread .condition).isSigned = r.isSigned := by
  cases r with
  | join j l r => exact isSigned_attach j _ _
  | _ => rfl

/-- **Where no comparison is negated, it does not matter how far a `not` reaches.** -/
theorem Reading.reread_operand {r : Reading} (h : r.negatesComparison = false) :
    r.reread .operand = r.reread .condition := by
  induction r with
  | operand text => rfl
  | compare c l r ihl ihr =>
    rw [negatesComparison, Bool.or_eq_false_iff] at h
    rw [reread, reread, ihl h.1, ihr h.2]
  | oneOf l items ih => rw [reread, reread, ih h]
  | quantify q collection name body ih => rw [reread, reread, ih h]
  | negate r ih =>
    rw [negatesComparison, Bool.or_eq_false_iff] at h
    have hsigned : (r.reread .condition).isSigned = false := by rw [isSigned_reread, h.1]
    rw [reread, reread, ih h.2, NotScope.negate_of_not_isSigned _ hsigned,
      NotScope.negate_of_not_isSigned _ hsigned]
  | join j l r ihl ihr =>
    rw [negatesComparison, Bool.or_eq_false_iff] at h
    rw [reread, reread, ihl h.1, ihr h.2]

/-- **Where a comparison is negated, something is negated that is no condition.** -/
theorem Reading.IsPlain.of_reread_operand {r : Reading} (h : r.IsPlain)
    (hneg : r.negatesComparison = true) : Kind.of (r.reread .operand) = .fault := by
  induction h with
  | compare c hs ht => cases hneg
  | oneOf hs hitems => cases hneg
  | join j hr hs ihr ihs =>
    rw [negatesComparison, Bool.or_eq_true] at hneg
    rw [reread, Kind.of_attach, Kind.ofParts_eq_fault]
    rcases hneg with hneg | hneg
    · rw [ihr hneg]; exact List.mem_cons_self
    · rw [ihs hneg]; exact List.mem_cons_of_mem _ List.mem_cons_self
  | @negate r hr ih =>
    rw [negatesComparison, Bool.or_eq_true] at hneg
    rcases hneg with hneg | hneg
    · -- The negation goes to the left operand, which is a word.
      cases hr with
      | compare c hs ht =>
        have hc : ¬ c.isFunction = true := by simpa [isSigned] using hneg
        rw [reread, reread, NotScope.negate, if_neg hc]
        rfl
      | oneOf hs hitems => rfl
      | _ => cases hneg
    · exact Kind.of_negate_operand (ih hneg)
  | quantify q hcollection hname hr ih =>
    rw [reread, Kind.of_quantify, ih hneg]
    rfl

/-- Only where a comparison is negated can the value be another one, and there it is for some. -/
theorem Reading.IsPlain.eval_reread_operand_iff {r : Reading} (h : r.IsPlain) :
    (∀ (World Value : Type) (I : Interpretation World Value) (w : World),
      I.eval w (r.reread .operand) = I.eval w r) ↔ r.negatesComparison = false := by
  refine ⟨fun heval => ?_, fun hneg World Value I w => ?_⟩
  · cases hneg : r.negatesComparison with
    | false => rfl
    | true =>
      have hkind : Kind.of (r.reread .operand) = Kind.of r := heval _ _ Kind.interpretation ()
      rw [h.of_reread_operand hneg, Kind.of_isPlain h] at hkind
      cases hkind
  · rw [reread_operand hneg]
    exact r.regroups_reread.eval_eq I w

theorem Reading.IsPlain.regroups_reread_operand_iff {r : Reading} (h : r.IsPlain) :
    (r.reread .operand).Regroups r ↔ r.negatesComparison = false := by
  refine ⟨fun hr => ?_, fun hneg => ?_⟩
  · exact h.eval_reread_operand_iff.1 fun World Value I w => hr.eval_eq I w
  · rw [reread_operand hneg]
    exact r.regroups_reread

end EntityQuery.Filter

namespace EntityQuery

open EntityQuery.Filter

/-- **When a filter means what was built.**  A reader for whom `not` binds tighter than the signs of
comparisons accepts the text of whatever the builders make.  The reading is the one that was built,
and has its value in every interpretation, exactly if no negation stands directly over a comparison
by a sign or over a list of values. -/
theorem Predicate.Built.read_operand_iff {p : Predicate} {r : Filter.Reading} (h : p.Built r) :
    ∃ f, p.expression.fragment = .ok f ∧ ∃ t, read .operand f.joined = some t ∧
      (t.Regroups r ↔ r.negatesComparison = false) ∧
      ((∀ (World Value : Type) (I : Interpretation World Value) (w : World),
        I.eval w t = I.eval w r) ↔ r.negatesComparison = false) :=
  ⟨r.piece, h.fragment_eq, r.reread .operand, h.isPlain.read_eq .operand,
    h.isPlain.regroups_reread_operand_iff, h.isPlain.eval_reread_operand_iff⟩

/-- A call, a quantifier and a negation may be negated without parentheses. -/
theorem Predicate.Built.read_operand_call :
    ∃ f, (Predicate.negate (.quantify .all ⟨["children"]⟩ "p0" (.join .or
        (.negate (.negate (.compare .endsWith ⟨["p0", "name"]⟩ (.bare (.text "son")))))
        (.negate (.join .and
          (.compare .greaterThan ⟨["p0", "age"]⟩ (.bare (.number ⟨18, 0⟩)))
          (.compare .equals ⟨["p0", "age"]⟩ (.field ⟨["age"]⟩))))))).expression.fragment = .ok f ∧
      ∃ t, read .operand f.joined = some t ∧ t.Regroups (.negate (.quantify .all "children" "p0"
        (.join .or
          (.negate (.negate (.compare .endsWith (.operand "p0/name") (.operand "'son'"))))
          (.negate (.join .and
            (.compare .greaterThan (.operand "p0/age") (.operand "18"))
            (.compare .equals (.operand "p0/age") (.operand "age"))))))) := by
  obtain ⟨f, hf, t, ht, hregroups, -⟩ := Predicate.Built.read_operand_iff
    (.negate (.quantify .all (f := ⟨["children"]⟩) (by decide) (show IsName "p0" by decide)
      (.join .or
        (.negate (.negate (.compare .endsWith (f := ⟨["p0", "name"]⟩) (by decide)
          (.bare (v := .text "son") rfl))))
        (.negate (.join .and
          (.compare .greaterThan (f := ⟨["p0", "age"]⟩) (by decide)
            (.bare (v := .number ⟨18, 0⟩) rfl))
          (.compare .equals (f := ⟨["p0", "age"]⟩) (by decide)
            (.field (f := ⟨["age"]⟩) (by decide))))))))
  exact ⟨f, hf, t, ht, hregroups.2 rfl⟩

/-- **A comparison may not.**  What is built as `not (a eq 1)` is written `not a eq 1`, read as
`(not a) eq 1`, and has another value wherever only conditions can be negated. -/
theorem Predicate.Built.not_read_operand_equals :
    (Predicate.compare .equals ⟨["a"]⟩ (.literal (.ofValue (.number ⟨1, 0⟩)))).negate.Built
        (.negate (.compare .equals (.operand "a") (.operand "1"))) ∧
      (Predicate.compare .equals ⟨["a"]⟩
        (.literal (.ofValue (.number ⟨1, 0⟩)))).negate.expression.fragment =
          .ok (.atom "not a eq 1") ∧
      read .operand (Fragment.atom "not a eq 1").joined =
        some (.compare .equals (.negate (.operand "a")) (.operand "1")) ∧
      ¬ (Reading.compare .equals (.negate (.operand "a")) (.operand "1")).Regroups
        (.negate (.compare .equals (.operand "a") (.operand "1"))) ∧
      Kind.interpretation.eval ()
          (.compare .equals (.negate (.operand "a")) (.operand "1")) ≠
        Kind.interpretation.eval ()
          (.negate (.compare .equals (.operand "a") (.operand "1"))) := by
  have hbuilt : (Predicate.compare .equals ⟨["a"]⟩
      (.literal (.ofValue (.number ⟨1, 0⟩)))).negate.Built
        (.negate (.compare .equals (.operand "a") (.operand "1"))) :=
    .negate (.compare .equals (f := ⟨["a"]⟩) (by decide) (.literal rfl fun h => by cases h.1))
  refine ⟨hbuilt, hbuilt.fragment_eq, hbuilt.isPlain.read_eq .operand, fun h => ?_, by decide⟩
  cases hbuilt.isPlain.regroups_reread_operand_iff.1 h

end EntityQuery
