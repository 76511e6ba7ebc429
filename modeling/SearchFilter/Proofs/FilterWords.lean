import SearchFilter.Proofs.DecimalNumber
import SearchFilter.Proofs.Emission
import SearchFilter.Proofs.WordKind

namespace SearchFilter

/-- The words of a text that single spaces part. -/
def spacedWords (text : String) : List (List Char) := text.toList.splitOn ' '

def tagsWord : List Char := ['t', 'a', 'g', 's']

def dateWord : List Char := ['d', 'a', 't', 'e']

/-- The three words that a constraint can be read from: its name is a word of the filter language,
or its number a plain one. -/
inductive Constraint.Worded : Constraint → List (List Char) → Prop
  | tagged {name : List Char} : isWord name →
      Worded (.tagged (.ofList name)) [tagsWord, ['='], name]
  | untagged {name : List Char} : isWord name →
      Worded (.untagged (.ofList name)) [tagsWord, ['!', '='], name]
  | dated {comparison : Comparison} {second : Int} {number : List Char} :
      plainInt? number = some second →
      Worded (.dated comparison second) [dateWord, [comparison.symbol], number]

def IsAtom (words : List (List Char)) : Prop := ∃ constraint : Constraint, constraint.Worded words

/-- The words of some atoms with the words of their connectives between them. -/
def Chain.laidOut : Chain (List (List Char)) → List (List Char)
  | single atom => atom
  | link atom connective rest => atom ++ connective.word :: rest.laidOut

/-- Some words fall into atoms that are read as the constraints of a chain. -/
def Chain.Reads (chain : Chain Constraint) (words : List (List Char)) : Prop :=
  ∃ atoms, atoms.laidOut = words ∧ chain.Related Constraint.Worded atoms

/-- A constraint that can be written and read back. -/
def Constraint.Readable : Constraint → Prop
  | .tagged name => isWord name.toList
  | .untagged name => isWord name.toList
  | .dated _ second => exceedsDigitLimit second = false

theorem Constraint.Worded.length_eq {constraint : Constraint} {words : List (List Char)}
    (h : constraint.Worded words) : words.length = 3 := by
  cases h <;> rfl

theorem Constraint.Worded.unique {constraint other : Constraint} {words : List (List Char)}
    (h : constraint.Worded words) (ho : other.Worded words) : constraint = other := by
  have subject : tagsWord ≠ dateWord := by decide
  generalize hw : words = same at ho
  cases h with
  | tagged hn =>
    cases ho <;> simp_all
  | untagged hn =>
    cases ho <;> simp_all
  | @dated comparison second number hn =>
    cases ho with
    | tagged => simp_all
    | untagged => simp_all
    | @dated other _ _ ho =>
      simp only [List.cons.injEq, and_true, true_and] at hw
      obtain ⟨hs, rfl⟩ := hw
      cases Option.some.inj (hn.symm.trans ho)
      cases comparison <;> cases other <;> first | rfl | simp [Comparison.symbol] at hs

theorem IsAtom.length_eq {atom : List (List Char)} (h : IsAtom atom) : atom.length = 3 := by
  obtain ⟨constraint, hw⟩ := h
  exact hw.length_eq

namespace Chain

/-- Words fall into atoms in one way only. -/
theorem laidOut_inj {atoms others : Chain (List (List Char))}
    (ha : ∀ atom ∈ atoms.operands, IsAtom atom) (ho : ∀ atom ∈ others.operands, IsAtom atom)
    (h : atoms.laidOut = others.laidOut) : atoms = others := by
  induction atoms generalizing others with
  | single atom =>
    have hl := (ha atom (by simp [operands])).length_eq
    cases others with
    | single other => exact congrArg single h
    | link other connective rest =>
      have hol := (ho other (by simp [operands])).length_eq
      have := congrArg List.length h
      simp only [laidOut, List.length_append, List.length_cons] at this
      omega
  | link atom connective rest ih =>
    have hl := (ha atom (by simp [operands])).length_eq
    cases others with
    | single other =>
      have hol := (ho other (by simp [operands])).length_eq
      have := congrArg List.length h
      simp only [laidOut, List.length_append, List.length_cons] at this
      omega
    | link other joint later =>
      have hol := (ho other (by simp [operands])).length_eq
      obtain ⟨rfl, hr⟩ := List.append_inj h (hl.trans hol.symm)
      obtain ⟨hc, hlater⟩ := List.cons.inj hr
      cases Connective.word_inj hc
      rw [ih (fun more hm => ha more (by simp [operands, hm]))
        (fun more hm => ho more (by simp [operands, hm])) hlater]

theorem Related.isAtom {chain : Chain Constraint} {atoms : Chain (List (List Char))}
    (h : chain.Related Constraint.Worded atoms) : ∀ atom ∈ atoms.operands, IsAtom atom := by
  intro atom hm
  obtain ⟨constraint, _, hw⟩ := h.exists_mem hm
  exact ⟨constraint, hw⟩

/-- Words are read as one chain of constraints at most. -/
theorem Reads.unique {chain other : Chain Constraint} {words : List (List Char)}
    (h : chain.Reads words) (ho : other.Reads words) : chain = other := by
  obtain ⟨atoms, rfl, ha⟩ := h
  obtain ⟨others, he, hr⟩ := ho
  cases laidOut_inj hr.isAtom ha.isAtom he
  clear he
  induction ha generalizing other with
  | single hw =>
    cases hr with
    | single hv => rw [hw.unique hv]
  | link hw _ ih =>
    cases hr with
    | link hv hl => rw [hw.unique hv, ih hl]

end Chain

theorem Constraint.exists_worded {constraint : Constraint} (h : constraint.Readable) :
    ∃ atom, constraint.Worded atom ∧ constraint.chars = [' '].intercalate atom ∧
      ∀ word ∈ atom, ' ' ∉ word := by
  have hword : ∀ {name : List Char}, isWord name → ' ' ∉ name := by
    intro name hw hm
    exact absurd (List.all_eq_true.mp (all_isWordPart_of_isWord hw) ' ' hm) (by decide)
  cases constraint with
  | tagged name =>
    have hw := Worded.tagged h
    have ht : "tags = ".toList = tagsWord ++ ' ' :: ['='] ++ [' '] := by decide
    have hc : (tagged name).chars = "tags = ".toList ++ name.toList := rfl
    rw [String.ofList_toList] at hw
    exact ⟨_, hw, by rw [hc, ht]; simp, by simp [hword h, tagsWord]⟩
  | untagged name =>
    have hw := Worded.untagged h
    have ht : "tags != ".toList = tagsWord ++ ' ' :: ['!', '='] ++ [' '] := by decide
    have hc : (untagged name).chars = "tags != ".toList ++ name.toList := rfl
    rw [String.ofList_toList] at hw
    exact ⟨_, hw, by rw [hc, ht]; simp, by simp [hword h, tagsWord]⟩
  | dated comparison second =>
    have hn : ' ' ∉ (toString second).toList := not_mem_toString (by decide) (by decide)
    have hs : ' ' ≠ comparison.symbol := by cases comparison <;> decide
    have hd : "date ".toList = dateWord ++ [' '] := by decide
    have hc : (dated comparison second).chars =
        "date ".toList ++ comparison.symbol :: ' ' :: (toString second).toList := rfl
    refine ⟨_, .dated (plainInt?_toString h), by rw [hc, hd]; simp, ?_⟩
    intro word hm
    rcases List.mem_cons.mp hm with rfl | hm
    · decide
    · simp only [List.mem_cons, List.not_mem_nil, or_false] at hm
      rcases hm with rfl | rfl
      · simpa using hs
      · exact hn

theorem intercalate_append {sep : List Char} {front back : List (List Char)} (hf : front ≠ [])
    (hb : back ≠ []) :
    sep.intercalate (front ++ back) = sep.intercalate front ++ sep ++ sep.intercalate back := by
  induction front with
  | nil => exact absurd rfl hf
  | cons word rest ih =>
    cases rest with
    | nil =>
      rw [List.singleton_append, List.intercalate_cons_of_ne_nil hb, List.intercalate_singleton]
    | cons next more =>
      have hm : next :: more ≠ [] := by simp
      rw [List.cons_append, List.intercalate_cons_of_ne_nil (by simp), ih hm,
        List.intercalate_cons_of_ne_nil hm]
      simp only [List.append_assoc]

namespace Chain

theorem Related.laidOut_ne_nil {chain : Chain Constraint} {atoms : Chain (List (List Char))}
    (h : chain.Related Constraint.Worded atoms) : atoms.laidOut ≠ [] := by
  intro he
  cases h with
  | single hw =>
    have hl := hw.length_eq
    rw [laidOut] at he
    simp [he] at hl
  | link => simp [laidOut] at he

theorem text_link {constraint : Constraint} {connective : Connective} {rest : Chain Constraint} :
    (link constraint connective rest).text.toList =
      constraint.chars ++ ' ' :: connective.word ++ ' ' :: rest.text.toList := by
  simp [text, pieces, filterText, Piece.chars]

theorem exists_intercalated {chain : Chain Constraint}
    (h : ∀ constraint ∈ chain.operands, constraint.Readable) :
    ∃ atoms, chain.Related Constraint.Worded atoms ∧
      chain.text.toList = [' '].intercalate atoms.laidOut ∧
      ∀ word ∈ atoms.laidOut, ' ' ∉ word := by
  induction chain with
  | single constraint =>
    obtain ⟨atom, hw, hc, hs⟩ := Constraint.exists_worded (h constraint (by simp [operands]))
    refine ⟨.single atom, .single hw, ?_, hs⟩
    simp [text, pieces, filterText, Piece.chars, hc, laidOut]
  | link constraint connective rest ih =>
    obtain ⟨atom, hw, hc, hs⟩ := Constraint.exists_worded (h constraint (by simp [operands]))
    obtain ⟨atoms, hr, ht, hl⟩ := ih fun other hm => h other (by simp [operands, hm])
    refine ⟨.link atom connective atoms, .link hw hr, ?_, ?_⟩
    · have hna : atom ≠ [] := List.length_pos_iff.mp (by rw [hw.length_eq]; decide)
      rw [text_link, ht, hc, laidOut, intercalate_append hna (by simp),
        List.intercalate_cons_of_ne_nil hr.laidOut_ne_nil]
      simp
    · intro word hm
      rcases List.mem_append.mp hm with hm | hm
      · exact hs word hm
      · rcases List.mem_cons.mp hm with rfl | hm
        · cases connective <;> decide
        · exact hl word hm

/-- The text of constraints that can be read back consists of the words of their atoms. -/
theorem exists_atoms {chain : Chain Constraint}
    (h : ∀ constraint ∈ chain.operands, constraint.Readable) :
    ∃ atoms, chain.Related Constraint.Worded atoms ∧ spacedWords chain.text = atoms.laidOut := by
  obtain ⟨atoms, hr, ht, hs⟩ := exists_intercalated h
  refine ⟨atoms, hr, ?_⟩
  rw [spacedWords, ht, List.splitOn_intercalate ' ' hs hr.laidOut_ne_nil]

/-- Constraints that can be read back are what their text is read as, and nothing else is. -/
theorem reads_text_iff {chain other : Chain Constraint}
    (h : ∀ constraint ∈ chain.operands, constraint.Readable) :
    other.Reads (spacedWords chain.text) ↔ other = chain := by
  obtain ⟨atoms, hr, hw⟩ := exists_atoms h
  have hreads : chain.Reads (spacedWords chain.text) := ⟨atoms, hw.symm, hr⟩
  constructor
  · exact fun ho => ho.unique hreads
  · rintro rfl
    exact hreads

end Chain

end SearchFilter
