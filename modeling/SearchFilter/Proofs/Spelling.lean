import SearchFilter.Proofs.WordReading
import SearchFilter.Scan

namespace SearchFilter

/-- A text that begins at an offset and is made up of lexemes, each of them at its own offset, with
any blanks in front of, between and behind them. -/
inductive Spells : Nat → List Char → List Placed → Prop
  | nil {offset : Nat} : Spells offset [] []
  | blank {offset : Nat} {c : Char} {rest : List Char} {placed : List Placed} :
      isBlank c → Spells (offset + 1) rest placed → Spells offset (c :: rest) placed
  | lexeme {offset : Nat} {cs rest : List Char} {lexeme : Lexeme} {placed : List Placed} :
      lexeme.Heads cs rest → Spells (offset + lexeme.written.length) rest placed →
      Spells offset cs (⟨offset, lexeme⟩ :: placed)

def Placed.moved (distance : Nat) (placed : Placed) : Placed :=
  { placed with offset := placed.offset + distance }

theorem isWordPart_of_isBlank {c : Char} (h : isBlank c) : isWordPart c = false := by
  simp only [isBlank, Bool.or_eq_true, beq_iff_eq] at h
  rcases h with ((rfl | rfl) | rfl) | rfl <;> decide

theorem atBoundary_of_isBlank {c : Char} {rest : List Char} (h : isBlank c) :
    atBoundary (c :: rest) := by simp [atBoundary, isWordPart_of_isBlank h]

theorem atBoundary_append {rest more : List Char} (hr : atBoundary rest) (hm : atBoundary more) :
    atBoundary (rest ++ more) := by
  cases rest with
  | nil => exact hm
  | cons c tail => exact hr

theorem atBoundary_of_append {rest more : List Char} (h : atBoundary (rest ++ more)) :
    atBoundary rest := by
  cases rest with
  | nil => rfl
  | cons c tail => exact h

theorem not_isBlank_of_mem_word {cs : List Char} {c : Char} (hw : isWord cs) (hm : c ∈ cs) :
    isBlank c = false := by
  have hpart := List.all_eq_true.mp (all_isWordPart_of_isWord hw) c hm
  cases hb : isBlank c with
  | false => rfl
  | true => simp [isWordPart_of_isBlank hb] at hpart

namespace Lexeme

theorem not_isBlank_of_mem_written {lexeme : Lexeme} {c : Char} (hp : lexeme.Proper)
    (hc : c ∈ lexeme.written) : isBlank c = false := by
  cases lexeme with
  | comparator comparison =>
    cases comparison <;> simp_all [written, Comparison.symbol, isBlank]
  | notTag name =>
    rcases List.mem_cons.mp hc with rfl | hm
    · decide
    · exact not_isBlank_of_mem_word hp hm
  | _ => exact not_isBlank_of_mem_word (isWord_written hp rfl) hc

theorem written_ne_nil {lexeme : Lexeme} (hp : lexeme.Proper) : lexeme.written ≠ [] := by
  cases lexeme with
  | comparator comparison => simp [written]
  | notTag name => simp [written]
  | _ =>
    intro he
    have hw := isWord_written hp rfl
    simp [he, isWord] at hw

theorem Heads.not_isBlank {lexeme : Lexeme} {c : Char} {cs rest : List Char}
    (h : lexeme.Heads (c :: cs) rest) : isBlank c = false := by
  apply not_isBlank_of_mem_written h.proper
  cases hw : lexeme.written with
  | nil => exact absurd hw (written_ne_nil h.proper)
  | cons d tail =>
    have hs := h.split
    rw [hw] at hs
    cases hs
    simp

theorem Heads.append {lexeme : Lexeme} {cs rest more : List Char} (h : lexeme.Heads cs rest)
    (hm : atBoundary more) : lexeme.Heads (cs ++ more) (rest ++ more) :=
  ⟨h.proper, by rw [h.split, List.append_assoc], fun hc => atBoundary_append (h.whole hc) hm⟩

/-- A lexeme ends before the first blank of its text. -/
theorem Heads.of_append {lexeme : Lexeme} {cs rest more : List Char} {c : Char} (hc : isBlank c)
    (h : lexeme.Heads (cs ++ c :: more) rest) :
    ∃ tail, rest = tail ++ c :: more ∧ lexeme.Heads cs tail := by
  rcases List.append_eq_append_iff.mp h.split with ⟨tail, hw, ht⟩ | ⟨tail, hw, ht⟩
  · cases tail with
    | nil =>
      refine ⟨[], by simpa using ht.symm, h.proper, by simpa using hw.symm, fun _ => rfl⟩
    | cons d ds =>
      cases (List.cons.inj ht).1
      have hm := not_isBlank_of_mem_written h.proper (hw ▸ by simp : c ∈ lexeme.written)
      simp [hc] at hm
  · exact ⟨tail, ht, h.proper, hw, fun hn => atBoundary_of_append (ht ▸ h.whole hn)⟩

end Lexeme

theorem scanFrom_blank {offset : Nat} {c : Char} {rest : List Char} (h : isBlank c) :
    scanFrom offset (c :: rest) = scanFrom (offset + 1) rest := by
  rw [scanFrom, if_pos h]

theorem scanFrom_lexeme {offset : Nat} {cs rest : List Char} {lexeme : Lexeme}
    (h : lexeme.Heads cs rest) :
    scanFrom offset cs =
      ⟨⟨offset, lexeme⟩ :: (scanFrom (offset + lexeme.written.length) rest).placed,
        (scanFrom (offset + lexeme.written.length) rest).stop⟩ := by
  cases cs with
  | nil =>
    exact absurd (List.append_eq_nil_iff.mp h.split.symm).1 (Lexeme.written_ne_nil h.proper)
  | cons c tail =>
    rw [scanFrom, if_neg (by simp [h.not_isBlank])]
    split
    next he => simp [Lexeme.read?_eq_some_iff.mpr h] at he
    next found more he =>
      rw [Lexeme.read?_eq_some_iff.mpr h] at he
      cases he
      rfl

theorem scanFrom_of_spells {offset : Nat} {cs : List Char} {placed : List Placed}
    (h : Spells offset cs placed) : scanFrom offset cs = ⟨placed, offset + cs.length⟩ := by
  induction h with
  | nil => rw [scanFrom]; rfl
  | blank hc _ ih =>
    rw [scanFrom_blank hc, ih]
    simp only [Scan.mk.injEq, List.length_cons, true_and]
    omega
  | lexeme hl _ ih =>
    rw [scanFrom_lexeme hl, ih, hl.split]
    simp only [Scan.mk.injEq, List.length_append, true_and]
    omega

theorem scanFrom_bounds (offset : Nat) (cs : List Char) :
    (scanFrom offset cs).stop ≤ offset + cs.length ∧
      ∀ placed ∈ (scanFrom offset cs).placed, placed.offset < offset + cs.length := by
  fun_induction scanFrom offset cs with
  | case1 offset => simp
  | case2 offset c rest hc ih =>
    refine ⟨by simp only [List.length_cons]; omega, fun placed hm => ?_⟩
    have := ih.2 placed hm
    simp only [List.length_cons]
    omega
  | case3 offset c rest _ _ => simp
  | case4 offset c rest _ lexeme tail hr later ih =>
    have hl := congrArg List.length (Lexeme.append_of_read? hr).1
    simp only [List.length_append] at hl
    have hstop : later.stop ≤ offset + lexeme.written.length + tail.length := ih.1
    refine ⟨by change later.stop ≤ _; omega, fun placed hm => ?_⟩
    rcases List.mem_cons.mp hm with rfl | hm
    · simp
    · have := ih.2 placed hm
      omega

/-- A scan finds its first lexeme where its text begins, or stops there, if the text does not begin
with a blank. -/
theorem offsetOf_scanFrom {offset : Nat} {cs : List Char}
    (h : ∀ c ∈ cs.head?, isBlank c = false) :
    (scanFrom offset cs).offsetOf (scanFrom offset cs).placed = offset := by
  cases cs with
  | nil => rw [scanFrom]; rfl
  | cons c rest =>
    rw [scanFrom, if_neg (by simp [h c rfl])]
    split <;> rfl

/-- A scan that reaches the end of its text has found all of its lexemes. -/
theorem spells_of_scanFrom {offset : Nat} {cs : List Char}
    (h : (scanFrom offset cs).stop = offset + cs.length) :
    Spells offset cs (scanFrom offset cs).placed := by
  fun_induction scanFrom offset cs with
  | case1 offset => exact .nil
  | case2 offset c rest hc ih =>
    exact .blank hc (ih (by simp only [List.length_cons] at h; omega))
  | case3 offset c rest _ _ => simp at h
  | case4 offset c rest _ lexeme tail hr later ih =>
    have hl := congrArg List.length (Lexeme.append_of_read? hr).1
    simp only [List.length_append] at hl
    exact .lexeme (Lexeme.read?_eq_some_iff.mp hr) (ih (by simp only [later] at h; omega))

/-- A text is read in one way only. -/
theorem Spells.unique {offset : Nat} {cs : List Char} {placed other : List Placed}
    (h : Spells offset cs placed) (ho : Spells offset cs other) : placed = other :=
  congrArg Scan.placed ((scanFrom_of_spells h).symm.trans (scanFrom_of_spells ho))

theorem Spells.proper {offset : Nat} {cs : List Char} {placed : List Placed}
    (h : Spells offset cs placed) {lexeme : Lexeme} (hm : lexeme ∈ placed.map Placed.lexeme) :
    lexeme.Proper := by
  induction h with
  | nil => simp at hm
  | blank _ _ ih => exact ih hm
  | lexeme hl _ ih =>
    rcases List.mem_cons.mp hm with rfl | hm
    · exact hl.proper
    · exact ih hm

theorem Spells.behind_blanks {blanks rest : List Char} {offset : Nat} {placed : List Placed}
    (hb : blanks.all isBlank) (h : Spells (offset + blanks.length) rest placed) :
    Spells offset (blanks ++ rest) placed := by
  induction blanks generalizing offset with
  | nil => exact h
  | cons c blanks ih =>
    simp only [List.all_cons, Bool.and_eq_true] at hb
    refine .blank hb.1 (ih hb.2 ?_)
    rwa [Nat.add_right_comm]

theorem Spells.moved {offset : Nat} {cs : List Char} {placed : List Placed} (distance : Nat)
    (h : Spells offset cs placed) :
    Spells (offset + distance) cs (placed.map (Placed.moved distance)) := by
  induction h with
  | nil => exact .nil
  | blank hc _ ih => exact .blank hc (by rwa [Nat.add_right_comm])
  | lexeme hl _ ih => exact .lexeme hl (by rwa [Nat.add_right_comm])

theorem Spells.of_moved {offset distance : Nat} {cs : List Char} {placed : List Placed}
    (h : Spells (offset + distance) cs placed) :
    ∃ unmoved, Spells offset cs unmoved ∧ placed = unmoved.map (Placed.moved distance) := by
  generalize hs : offset + distance = start at h
  induction h generalizing offset with
  | nil => exact ⟨[], .nil, rfl⟩
  | blank hc _ ih =>
    obtain ⟨unmoved, hu, he⟩ := @ih (offset + 1) (by omega)
    exact ⟨unmoved, .blank hc hu, he⟩
  | @lexeme start cs rest lexeme placed hl _ ih =>
    obtain ⟨unmoved, hu, he⟩ := @ih (offset + lexeme.written.length) (by omega)
    exact ⟨⟨offset, lexeme⟩ :: unmoved, .lexeme hl hu, by simp [he, Placed.moved, hs]⟩

theorem Spells.append_of_atBoundary {offset : Nat} {cs more : List Char}
    {placed later : List Placed}
    (h : Spells offset cs placed) (hb : atBoundary more)
    (hm : Spells (offset + cs.length) more later) :
    Spells offset (cs ++ more) (placed ++ later) := by
  induction h with
  | nil => exact hm
  | @blank offset c rest placed hc _ ih =>
    refine .blank hc (ih ?_)
    rwa [List.length_cons, Nat.add_comm rest.length, ← Nat.add_assoc] at hm
  | lexeme hl _ ih =>
    refine .lexeme (hl.append hb) (ih ?_)
    rwa [hl.split, List.length_append, ← Nat.add_assoc] at hm

theorem Spells.append {offset : Nat} {cs more : List Char} {placed later : List Placed} {c : Char}
    (h : Spells offset cs placed) (hc : isBlank c)
    (hm : Spells (offset + cs.length + 1) more later) :
    Spells offset (cs ++ c :: more) (placed ++ later) :=
  h.append_of_atBoundary (atBoundary_of_isBlank hc) (.blank hc hm)

/-- A blank parts the lexemes of a text into those before and those behind it. -/
theorem Spells.of_append {offset : Nat} {cs more : List Char} {placed : List Placed} {c : Char}
    (hc : isBlank c) (h : Spells offset (cs ++ c :: more) placed) :
    ∃ before after, placed = before ++ after ∧ Spells offset cs before ∧
      Spells (offset + cs.length + 1) more after := by
  generalize ht : cs ++ c :: more = text at h
  induction h generalizing cs with
  | nil => simp at ht
  | @blank offset d rest placed hd hr ih =>
    cases cs with
    | nil =>
      cases ht
      exact ⟨[], placed, rfl, .nil, hr⟩
    | cons e tail =>
      obtain ⟨rfl, rfl⟩ := List.cons.inj ht
      obtain ⟨before, after, rfl, hb, ha⟩ := ih rfl
      refine ⟨before, after, rfl, .blank hd hb, ?_⟩
      rwa [List.length_cons, Nat.add_comm tail.length, ← Nat.add_assoc]
  | @lexeme offset text rest lexeme placed hl _ ih =>
    subst ht
    obtain ⟨tail, rfl, hh⟩ := hl.of_append hc
    obtain ⟨before, after, rfl, hb, ha⟩ := ih rfl
    refine ⟨⟨offset, lexeme⟩ :: before, after, rfl, .lexeme hh hb, ?_⟩
    rwa [hh.split, List.length_append, ← Nat.add_assoc]

end SearchFilter
