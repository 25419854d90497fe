import EntityQuery.Text.Blank
import EntityQuery.Text.Quoted

/-!
# The words of a filter text

Whoever receives a filter has nothing but its text.  This file takes that text apart, in two passes
that know nothing of operators.

* `Filter.lex` finds the **words**.  A word is a run of characters other than white space, quotes,
  parentheses and commas, or a whole string literal, quotes included; so `mother/age`, `ge`,
  `2020-01-02T03:04:05.000Z` and `'a or (b'` are one word each.  White space only separates.
* `Filter.nest` matches the **parentheses**.  What is left is a `Level`: a list of words, commas and
  groups, and a group is a level again.

`Spells text level` says that a text is taken apart into a level wherever it may stand.  The lemmas
on it go through the ways in which texts are put together, so that a statement about a whole filter
is proved piece by piece, as the filter is written.
-/

set_option autoImplicit false

namespace EntityQuery

/-! ## The end of a string literal -/

namespace Text.Quoted

/-- Reads a string literal behind its opening quote: what it stands for, and what follows it.  Two
quotes stand for one; the first quote that stands alone closes the literal. -/
def unquote : List Char → Option (List Char × List Char)
  | [] => none
  | '\'' :: '\'' :: r => (unquote r).map fun p => ('\'' :: p.1, p.2)
  | '\'' :: r => some ([], r)
  | c :: r => (unquote r).map fun p => (c :: p.1, p.2)

theorem length_of_unquote {cs s rest : List Char} (h : unquote cs = some (s, rest)) :
    rest.length < cs.length := by
  fun_induction unquote cs generalizing s rest with
  | case1 => simp at h
  | case2 r ih =>
    obtain ⟨⟨t, u⟩, hu, he⟩ := Option.map_eq_some_iff.1 h
    obtain ⟨rfl, rfl⟩ := Prod.mk.inj he
    have := ih hu
    simp only [List.length_cons]
    omega
  | case3 r _ =>
    obtain ⟨rfl, rfl⟩ := Prod.mk.inj (Option.some.inj h)
    simp
  | case4 c r _ _ ih =>
    obtain ⟨⟨t, u⟩, hu, he⟩ := Option.map_eq_some_iff.1 h
    obtain ⟨rfl, rfl⟩ := Prod.mk.inj he
    have := ih hu
    simp only [List.length_cons]
    omega

/-- **A literal ends where it was ended.**  Behind its opening quote, a string that was written as a
literal is read back whole, unless the text goes on with another quote. -/
theorem unquote_double (s : List Char) {rest : List Char} (h : rest.head? ≠ some '\'') :
    unquote (double s ++ '\'' :: rest) = some (s, rest) := by
  induction s with
  | nil =>
    cases rest with
    | nil => rfl
    | cons c r =>
      have hc : c ≠ '\'' := by simpa using h
      simp [double, unquote, hc]
  | cons c r ih =>
    by_cases hc : c = '\''
    · subst hc
      simp [double, unquote, ih]
    · simp [double, unquote, hc, ih]

theorem toList_quote (s : String) : (quote s).toList = '\'' :: (double s.toList ++ ['\'']) :=
  String.toList_ofList

end Text.Quoted

namespace Filter

/-! ## Words -/

/-- What a filter text consists of. -/
inductive Token
  | word (text : String)
  | opening
  | closing
  | comma

/-- Characters that words are made of. -/
def isWordChar (c : Char) : Bool :=
  !Text.isSpace c && c != '\'' && c != '(' && c != ')' && c != ','

/-- Takes a text apart into words, parentheses and commas.  A string literal that does not end makes
it fail. -/
def lex (cs : List Char) : Option (List Token) :=
  match cs with
  | [] => some []
  | c :: r =>
    if Text.isSpace c then lex r
    else if c = '(' then (lex r).map (.opening :: ·)
    else if c = ')' then (lex r).map (.closing :: ·)
    else if c = ',' then (lex r).map (.comma :: ·)
    else if c = '\'' then
      match _h : Text.Quoted.unquote r with
      | some (s, rest) => (lex rest).map (.word (Text.Quoted.quote (String.ofList s)) :: ·)
      | none => none
    else
      (lex (r.dropWhile isWordChar)).map (.word (String.ofList (c :: r.takeWhile isWordChar)) :: ·)
termination_by cs.length
decreasing_by
  · simp
  · simp
  · simp
  · simp
  · have := Text.Quoted.length_of_unquote (by assumption)
    simp only [List.length_cons]
    omega
  · have := (List.dropWhile_suffix isWordChar (l := r)).length_le
    simp only [List.length_cons]
    omega

theorem lex_nil : lex [] = some [] := lex.eq_def []

/-- What the first character tells. -/
theorem lex_cons (c : Char) (r : List Char) : lex (c :: r) =
    if Text.isSpace c then lex r
    else if c = '(' then (lex r).map (.opening :: ·)
    else if c = ')' then (lex r).map (.closing :: ·)
    else if c = ',' then (lex r).map (.comma :: ·)
    else if c = '\'' then
      (Text.Quoted.unquote r).bind fun p =>
        (lex p.2).map (.word (Text.Quoted.quote (String.ofList p.1)) :: ·)
    else
      (lex (r.dropWhile isWordChar)).map
        (.word (String.ofList (c :: r.takeWhile isWordChar)) :: ·) := by
  rw [lex.eq_def]
  dsimp only
  congr 5
  split
  · next s rest h => rw [h, Option.bind_some]
  · next h => rw [h, Option.bind_none]

theorem lex_space {c : Char} (h : Text.isSpace c = true) (r : List Char) :
    lex (c :: r) = lex r := by
  rw [lex_cons, if_pos h]

theorem lex_opening (r : List Char) : lex ('(' :: r) = (lex r).map (.opening :: ·) := by
  rw [lex_cons, if_neg (by decide), if_pos rfl]

theorem lex_closing (r : List Char) : lex (')' :: r) = (lex r).map (.closing :: ·) := by
  rw [lex_cons, if_neg (by decide), if_neg (by decide), if_pos rfl]

theorem lex_comma (r : List Char) : lex (',' :: r) = (lex r).map (.comma :: ·) := by
  rw [lex_cons, if_neg (by decide), if_neg (by decide), if_neg (by decide), if_pos rfl]

theorem lex_quote {r s rest : List Char} (h : Text.Quoted.unquote r = some (s, rest)) :
    lex ('\'' :: r) =
      (lex rest).map (.word (Text.Quoted.quote (String.ofList s)) :: ·) := by
  rw [lex_cons, if_neg (by decide), if_neg (by decide), if_neg (by decide), if_neg (by decide),
    if_pos rfl, h, Option.bind_some]

theorem lex_wordChar {c : Char} (h : isWordChar c = true) (r : List Char) :
    lex (c :: r) = (lex (r.dropWhile isWordChar)).map
      (.word (String.ofList (c :: r.takeWhile isWordChar)) :: ·) := by
  simp only [isWordChar, Bool.and_eq_true, Bool.not_eq_true', bne_iff_ne, ne_eq] at h
  obtain ⟨⟨⟨⟨hs, hq⟩, ho⟩, hc⟩, hm⟩ := h
  rw [lex_cons, if_neg (by simp [hs]), if_neg ho, if_neg hc, if_neg hm, if_neg hq]

/-! ## Parentheses -/

/-- What stands between two parentheses, or in a whole text, piece by piece. -/
inductive Node
  | word (text : String)
  | comma
  | group (inner : List Node)

/-- Pieces one after the other. -/
abbrev Level := List Node

mutual

/-- The tokens of a piece. -/
def Node.tokens : Node → List Token
  | .word text => [.word text]
  | .comma => [.comma]
  | .group inner => .opening :: Node.tokensOf inner ++ [.closing]

/-- The tokens of a level. -/
def Node.tokensOf : Level → List Token
  | [] => []
  | n :: rest => n.tokens ++ Node.tokensOf rest

end

theorem tokensOf_append (x y : Level) :
    Node.tokensOf (x ++ y) = Node.tokensOf x ++ Node.tokensOf y := by
  induction x with
  | nil => rfl
  | cons n rest ih => simp [Node.tokensOf, ih]

/-- Matches parentheses.  `level` is what was found so far since the last one that is still open,
and `outer` holds the same for those around it, the innermost first. -/
def nestFrom (outer : List Level) (level : Level) : List Token → Option Level
  | [] => if outer.isEmpty then some level else none
  | .word text :: r => nestFrom outer (level ++ [.word text]) r
  | .comma :: r => nestFrom outer (level ++ [.comma]) r
  | .opening :: r => nestFrom (level :: outer) [] r
  | .closing :: r =>
    match outer with
    | [] => none
    | before :: outer => nestFrom outer (before ++ [.group level]) r

/-- Matches the parentheses of a whole text. -/
def nest (ts : List Token) : Option Level := nestFrom [] [] ts

mutual

theorem nestFrom_tokens (n : Node) (outer : List Level) (level : Level) (r : List Token) :
    nestFrom outer level (n.tokens ++ r) = nestFrom outer (level ++ [n]) r := by
  match n with
  | .word text => rfl
  | .comma => rfl
  | .group inner =>
    have h := nestFrom_tokensOf inner (level :: outer) [] (.closing :: r)
    simpa [Node.tokens, nestFrom] using h

/-- Tokens of a level put that level behind what was found before. -/
theorem nestFrom_tokensOf (x : Level) (outer : List Level) (level : Level) (r : List Token) :
    nestFrom outer level (Node.tokensOf x ++ r) = nestFrom outer (level ++ x) r := by
  match x with
  | [] => simp [Node.tokensOf]
  | n :: rest =>
    rw [Node.tokensOf, List.append_assoc, nestFrom_tokens n, nestFrom_tokensOf rest,
      List.append_assoc, List.singleton_append]

end

/-- **Matching parentheses finds the level that the tokens came from.** -/
theorem nest_tokensOf (x : Level) : nest (Node.tokensOf x) = some x := by
  have h := nestFrom_tokensOf x [] [] []
  simpa [nest, nestFrom] using h

/-! ## Texts and their levels -/

/-- What may follow a word without becoming part of it. -/
def IsBoundary (rest : List Char) : Prop :=
  ∀ c ∈ rest.head?, isWordChar c = false ∧ c ≠ '\''

/-- A text is taken apart into a level, whatever follows it. -/
def Spells (text : List Char) (level : Level) : Prop :=
  ∀ rest, IsBoundary rest →
    lex (text ++ rest) = (lex rest).map (Node.tokensOf level ++ ·)

/-- Takes a whole text apart. -/
def levelOf (text : String) : Option Level := (lex text.toList).bind nest

theorem Spells.levelOf_eq {text : String} {level : Level} (h : Spells text.toList level) :
    levelOf text = some level := by
  have h' := h [] (by simp [IsBoundary])
  rw [List.append_nil, lex_nil] at h'
  simp [levelOf, h', nest_tokensOf]

theorem isBoundary_cons {c : Char} (r : List Char) (h : c = ' ' ∨ c = '(' ∨ c = ')' ∨ c = ',') :
    IsBoundary (c :: r) := by
  rintro d hd
  obtain rfl : c = d := by simpa using hd
  rcases h with rfl | rfl | rfl | rfl <;> decide

namespace Spells

variable {s t : List Char} {x y : Level}

theorem nil : Spells [] [] := by
  intro rest _
  simp [Node.tokensOf]

/-- A run of word characters is a word. -/
theorem word {text : String} (hne : text ≠ "") (h : text.toList.all isWordChar = true) :
    Spells text.toList [.word text] := by
  intro rest hrest
  cases hcs : text.toList with
  | nil => exact absurd (String.toList_eq_nil_iff.1 hcs) hne
  | cons c r =>
    rw [hcs, List.all_cons, Bool.and_eq_true, List.all_eq_true] at h
    obtain ⟨hc, hr⟩ := h
    have hdrop : rest.dropWhile isWordChar = rest := by
      cases rest with
      | nil => rfl
      | cons d u => rw [List.dropWhile_cons, (hrest d rfl).1]; rfl
    have htake : rest.takeWhile isWordChar = [] := by
      cases rest with
      | nil => rfl
      | cons d u => rw [List.takeWhile_cons, (hrest d rfl).1]; rfl
    rw [List.cons_append, lex_wordChar hc,
      List.dropWhile_append_of_pos hr, List.takeWhile_append_of_pos hr, hdrop, htake,
      List.append_nil, ← hcs, String.ofList_toList]
    rfl

/-- A string literal is a word, whatever the string. -/
theorem quoted (s : String) :
    Spells (Text.Quoted.quote s).toList [.word (Text.Quoted.quote s)] := by
  intro rest hrest
  have hne : rest.head? ≠ some '\'' := fun h => (hrest '\'' h).2 rfl
  rw [Text.Quoted.toList_quote, List.cons_append, List.append_assoc, List.singleton_append,
    lex_quote (Text.Quoted.unquote_double _ hne), String.ofList_toList]
  rfl

/-- Texts stand side by side if the second one cannot continue the first. -/
theorem append (hs : Spells s x) (ht : Spells t y)
    (h : ∀ rest, IsBoundary rest → IsBoundary (t ++ rest)) :
    Spells (s ++ t) (x ++ y) := by
  intro rest hrest
  rw [List.append_assoc, hs _ (h rest hrest), ht rest hrest, Option.map_map, tokensOf_append]
  simp [Function.comp_def]

theorem space (ht : Spells t y) : Spells (' ' :: t) y := by
  intro rest hrest
  rw [List.cons_append, lex_space (by decide), ht rest hrest]

theorem comma (ht : Spells t y) : Spells (',' :: t) (.comma :: y) := by
  intro rest hrest
  rw [List.cons_append, lex_comma, ht rest hrest, Option.map_map]
  rfl

/-- What stands in parentheses is a group. -/
theorem group (ht : Spells t y) : Spells ('(' :: t ++ [')']) [.group y] := by
  intro rest hrest
  have hb : IsBoundary (')' :: rest) := isBoundary_cons _ (by simp)
  rw [List.append_assoc, List.cons_append, lex_opening, List.singleton_append, ht _ hb,
    lex_closing, Option.map_map, Option.map_map]
  simp [Function.comp_def, Node.tokensOf, Node.tokens]

/-- Texts with a space between them. -/
theorem spaced (hs : Spells s x) (ht : Spells t y) : Spells (s ++ ' ' :: t) (x ++ y) :=
  hs.append ht.space fun _ _ => isBoundary_cons _ (by simp)

/-- Texts with a comma between them. -/
theorem separated (hs : Spells s x) (ht : Spells t y) :
    Spells (s ++ ',' :: t) (x ++ .comma :: y) :=
  hs.append ht.comma fun _ _ => isBoundary_cons _ (by simp)

/-- A text before another one in parentheses. -/
theorem applied (hs : Spells s x) (ht : Spells t y) :
    Spells (s ++ ('(' :: t ++ [')'])) (x ++ [.group y]) :=
  hs.append ht.group fun _ _ => isBoundary_cons _ (by simp)

end Spells

end Filter

end EntityQuery
