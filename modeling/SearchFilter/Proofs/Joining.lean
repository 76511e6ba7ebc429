import SearchFilter.Proofs.Relocation

namespace SearchFilter

section

variable (distance : Nat)

/-- A date that is written at a distance from where it was before. -/
def DateLiteral.moved (literal : DateLiteral) : DateLiteral := literal.relocated (· + distance)

def Token.moved (token : Token) : Token := token.relocated (· + distance)

/-- An expression whose text begins at a distance from where it began before. -/
def Expression.moved (expression : Expression) : Expression := expression.relocated (· + distance)

/-- A failure in a text that begins at a distance from where it began before. -/
def Failure.moved (failure : Failure) : Failure := failure.relocated (· + distance)

end

namespace Expression

def join (expression : Expression) (connective : Connective) (other : Expression) : Expression :=
  ⟨expression.first, expression.clauses ++ (connective, other.first) :: other.clauses⟩

end Expression

/-- Two texts with a connective between them, apart by single spaces. -/
def joinedText (text : String) (connective : Connective) (other : String) : String :=
  text ++ " " ++ .ofList connective.word ++ " " ++ other

theorem DateWord.literal_moved {word : DateWord} {position distance : Nat} :
    word.literal (position + distance) = (word.literal position).moved distance :=
  literal_relocated (Int.natCast_add position distance).symm

theorem Placed.relocated_add (distance : Nat) :
    Placed.relocated (· + (distance : Int)) = Placed.moved distance := by
  funext placed
  have hoffset : ((placed.offset : Int) + distance).toNat = placed.offset + distance :=
    Int.toNat_natCast (placed.offset + distance)
  exact congrArg (Placed.mk · placed.lexeme) hoffset

theorem keeps_add (distance offset : Nat) : Keeps (· + (distance : Int)) offset := by
  simp only [Keeps]
  omega

namespace Expression

/-- Lexemes that begin later are read as an expression that begins later. -/
theorem read?_moved {placed : List Placed} (distance : Nat) :
    read? (placed.map (Placed.moved distance)) =
      (read? placed).map fun (outcome, rest) =>
        (outcome.map (moved distance), rest.map (Placed.moved distance)) := by
  rw [← Placed.relocated_add]
  exact read?_relocated fun found _ => keeps_add distance found.offset

theorem Spelled.moved {expression : Expression} {placed : List Placed} (distance : Nat)
    (h : expression.Spelled placed) :
    (expression.moved distance).Spelled (placed.map (Placed.moved distance)) := by
  rw [spelled_iff_read?, read?_moved, spelled_iff_read?.mp h]
  rfl

theorem Spelled.of_moved {expression : Expression} {placed : List Placed} {distance : Nat}
    (h : expression.Spelled (placed.map (Placed.moved distance))) :
    ∃ before : Expression, before.Spelled placed ∧ expression = before.moved distance := by
  rw [spelled_iff_read?, read?_moved] at h
  obtain ⟨⟨outcome, rest⟩, hr, he⟩ := Option.map_eq_some_iff.mp h
  obtain ⟨houtcome, hrest⟩ := Prod.mk.inj he
  obtain ⟨before, rfl, rfl⟩ := map_eq_ok_iff.mp houtcome
  cases List.map_eq_nil_iff.mp hrest
  exact ⟨before, spelled_iff_read?.mpr hr, rfl⟩

end Expression

theorem Term.Spelled.not_connective {term : Except Failure Term} {placed : List Placed}
    (h : Term.Spelled term placed) {offset : Nat} {connective : Connective} :
    ⟨offset, .connective connective⟩ ∉ placed := by
  intro hm
  cases h with
  | tag => simp at hm
  | notTag => simp at hm
  | span hs =>
    obtain ⟨rfl, rfl⟩ := Placed.mk.inj (List.mem_singleton.mp hm)
    simp [Lexeme.span?] at hs
  | bounded hs =>
    simp only [List.mem_cons, Placed.mk.injEq, reduceCtorEq, and_false, false_or,
      List.not_mem_nil, or_false] at hm
    obtain ⟨rfl, rfl⟩ := hm
    simp [Lexeme.span?] at hs

/-- What a list holds behind a part without a link holds the whole of what is behind the link. -/
theorem append_eq_of_not_mem {front rest before after : List Placed} {link : Placed}
    (hn : link ∉ front) (h : front ++ rest = before ++ link :: after) :
    ∃ more, before = front ++ more ∧ rest = more ++ link :: after := by
  rcases List.append_eq_append_iff.mp h with ⟨more, hb, hr⟩ | ⟨more, hf, hr⟩
  · exact ⟨more, hb, hr⟩
  · cases more with
    | nil => exact ⟨[], by simpa using hf.symm, by simpa using hr.symm⟩
    | cons first more =>
      cases (List.cons.inj hr).1
      exact absurd (by simp [hf]) hn

theorem ClausesSpelled.append {clauses links : List (Connective × Except Failure Term)}
    {placed more : List Placed} (h : ClausesSpelled clauses placed)
    (hm : ClausesSpelled links more) : ClausesSpelled (clauses ++ links) (placed ++ more) := by
  induction h with
  | nil => exact hm
  | cons ht _ ih =>
    rw [List.cons_append, List.cons_append, List.append_assoc]
    exact .cons ht ih

/-- A connective among the lexemes of clauses begins one of them. -/
theorem ClausesSpelled.of_append {clauses : List (Connective × Term)} {before after : List Placed}
    {offset : Nat} {connective : Connective}
    (h : ClausesSpelled (clauses.map fun (connective, term) => (connective, .ok term))
      (before ++ ⟨offset, .connective connective⟩ :: after)) :
    ∃ (left : List (Connective × Term)) (other : Expression),
      clauses = left ++ (connective, other.first) :: other.clauses ∧
      ClausesSpelled (left.map fun (connective, term) => (connective, .ok term)) before ∧
      other.Spelled after := by
  induction clauses generalizing before with
  | nil =>
    generalize hl : before ++ ⟨offset, .connective connective⟩ :: after = placed at h
    cases h
    simp at hl
  | cons clause clauses ih =>
    obtain ⟨joint, term⟩ := clause
    generalize hl : before ++ ⟨offset, .connective connective⟩ :: after = placed at h
    cases h with
    | @cons place _ _ _ front rest ht hc =>
      cases before with
      | nil =>
        cases hl
        exact ⟨[], ⟨term, clauses⟩, rfl, .nil, front, rest, rfl, ht, hc⟩
      | cons head tail =>
        obtain ⟨rfl, htail⟩ := List.cons.inj hl
        obtain ⟨more, rfl, rfl⟩ := append_eq_of_not_mem ht.not_connective htail.symm
        obtain ⟨left, other, rfl, hleft, hother⟩ := ih hc
        exact ⟨(joint, term) :: left, other, rfl, .cons ht hleft, hother⟩

namespace Expression

theorem Spelled.join {expression other : Expression} {before after : List Placed}
    (h : expression.Spelled before) (ho : other.Spelled after) (offset : Nat)
    (connective : Connective) :
    (expression.join connective other).Spelled
      (before ++ ⟨offset, .connective connective⟩ :: after) := by
  obtain ⟨first, rest, rfl, hf, hc⟩ := h
  obtain ⟨front, back, rfl, hfront, hback⟩ := ho
  refine ⟨first, rest ++ ⟨offset, .connective connective⟩ :: (front ++ back), by simp, hf, ?_⟩
  simp only [Expression.join, List.map_append, List.map_cons]
  exact hc.append (.cons hfront hback)

/-- An expression with a connective among its lexemes is joined from those on both sides of it. -/
theorem Spelled.of_append {expression : Expression} {before after : List Placed} {offset : Nat}
    {connective : Connective}
    (h : expression.Spelled (before ++ ⟨offset, .connective connective⟩ :: after)) :
    ∃ left right : Expression, expression = left.join connective right ∧ left.Spelled before ∧
      right.Spelled after := by
  obtain ⟨first, rest, he, hf, hc⟩ := h
  obtain ⟨more, rfl, rfl⟩ := append_eq_of_not_mem hf.not_connective he.symm
  obtain ⟨left, right, hclauses, hleft, hright⟩ := hc.of_append
  refine ⟨⟨expression.first, left⟩, right, ?_, ⟨first, more, rfl, hf, hleft⟩, hright⟩
  cases expression
  rw [Expression.join, ← hclauses]

end Expression

theorem Lexeme.heads_connective {connective : Connective} {rest : List Char}
    (h : atBoundary rest) : (Lexeme.connective connective).Heads (connective.word ++ rest) rest :=
  ⟨trivial, rfl, fun _ => h⟩

/-- A text is read from two texts and the connective between them just as from the texts apart. -/
theorem spells_joinedText_iff {text other : String} {connective : Connective}
    {placed : List Placed} :
    Spells 0 (joinedText text connective other).toList placed ↔
      ∃ before after, Spells 0 text.toList before ∧ Spells 0 other.toList after ∧
        placed = before ++ ⟨text.length + 1, .connective connective⟩ ::
          after.map (Placed.moved (text.length + connective.word.length + 2)) := by
  have hblank : isBlank ' ' := by decide
  have hlen : text.toList.length = text.length := String.length_toList
  have htext : (joinedText text connective other).toList =
      text.toList ++ ' ' :: (connective.word ++ ' ' :: other.toList) := by
    simp [joinedText]
  have hstart : 0 + text.toList.length + 1 = text.length + 1 := by omega
  have hend : text.length + 1 + connective.word.length + 1 =
      0 + (text.length + connective.word.length + 2) := by omega
  rw [htext]
  constructor
  · intro h
    obtain ⟨before, rest, rfl, hb, hr⟩ := Spells.of_append hblank h
    rw [hstart] at hr
    obtain ⟨middle, moved, rfl, hm, ha⟩ := Spells.of_append hblank hr
    rw [hend] at ha
    obtain ⟨after, ho, rfl⟩ := ha.of_moved
    have hw : Spells (text.length + 1) connective.word
        [⟨text.length + 1, .connective connective⟩] := by
      have hh : (Lexeme.connective connective).Heads (connective.word ++ []) [] :=
        Lexeme.heads_connective rfl
      rw [List.append_nil] at hh
      exact .lexeme hh .nil
    rw [hm.unique hw]
    exact ⟨before, after, hb, ho, rfl⟩
  · intro hx
    obtain ⟨before, after, hb, ha, rfl⟩ := hx
    have hm := ha.moved (text.length + connective.word.length + 2)
    rw [← hend] at hm
    refine hb.append hblank ?_
    rw [hstart]
    exact .lexeme (Lexeme.heads_connective (atBoundary_of_isBlank hblank)) (.blank hblank hm)

namespace Expression

/-- Two texts with a connective between them are a filter exactly if both texts are. -/
theorem parse_joinedText_iff {text other : String} {connective : Connective}
    {expression : Expression} :
    parse (joinedText text connective other) = .ok expression ↔
      ∃ left right, parse text = .ok left ∧ parse other = .ok right ∧ expression =
        left.join connective (right.moved (text.length + connective.word.length + 2)) := by
  simp only [parse_eq_ok_iff]
  constructor
  · intro h
    obtain ⟨placed, hs, hx⟩ := h
    obtain ⟨before, after, hb, ha, rfl⟩ := spells_joinedText_iff.mp hs
    obtain ⟨left, moved, rfl, hl, hm⟩ := hx.of_append
    obtain ⟨right, hr, rfl⟩ := hm.of_moved
    exact ⟨left, right, ⟨before, hb, hl⟩, ⟨after, ha, hr⟩, rfl⟩
  · intro h
    obtain ⟨left, right, ⟨before, hb, hl⟩, ⟨after, ha, hr⟩, rfl⟩ := h
    exact ⟨_, spells_joinedText_iff.mpr ⟨before, after, hb, ha, rfl⟩,
      hl.join (hr.moved _) _ connective⟩

theorem parse_joinedText {text other : String} {left right : Expression} (connective : Connective)
    (hl : parse text = .ok left) (hr : parse other = .ok right) :
    parse (joinedText text connective other) =
      .ok (left.join connective (right.moved (text.length + connective.word.length + 2))) :=
  parse_joinedText_iff.mpr ⟨left, right, hl, hr, rfl⟩

/-- Both halves of a text are filters if the whole is one, and the other way round. -/
theorem accepts_joinedText_iff {text other : String} {connective : Connective} :
    (∃ tokens, tokenize (joinedText text connective other) = .ok tokens) ↔
      (∃ tokens, tokenize text = .ok tokens) ∧ ∃ tokens, tokenize other = .ok tokens := by
  simp only [tokenize_eq_ok_iff]
  constructor
  · intro h
    obtain ⟨_, expression, hp, -⟩ := h
    obtain ⟨left, right, hl, hr, -⟩ := parse_joinedText_iff.mp hp
    exact ⟨⟨_, left, hl, rfl⟩, _, right, hr, rfl⟩
  · intro h
    obtain ⟨⟨_, left, hl, -⟩, _, right, hr, -⟩ := h
    exact ⟨_, _, parse_joinedText connective hl hr, rfl⟩

theorem tokens_join {expression other : Expression} {connective : Connective} :
    (expression.join connective other).tokens =
      expression.tokens.dropLast ++ .connective connective :: other.tokens := by
  simp [tokens, join]

end Expression

end SearchFilter
