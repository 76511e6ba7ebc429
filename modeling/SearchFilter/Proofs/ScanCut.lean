import SearchFilter.Proofs.LongAmount

namespace SearchFilter

/-- A text that is cut behind some lexemes that it opens with and behind the blanks after them. The
lexemes are all of the first part, and the scan of the text goes on with that of the second. -/
structure Cut (offset : Nat) (cs : List Char) (front : List Placed) (head tail : List Char) :
    Prop where
  split : cs = head ++ tail
  spelled : Spells offset head front
  solid : ∀ c ∈ tail.head?, isBlank c = false
  placed : (scanFrom offset cs).placed = front ++ (scanFrom (offset + head.length) tail).placed
  stop : (scanFrom offset cs).stop = (scanFrom (offset + head.length) tail).stop

theorem scanFrom_blanks {offset : Nat} {blanks rest : List Char} (hb : blanks.all isBlank) :
    scanFrom offset (blanks ++ rest) = scanFrom (offset + blanks.length) rest := by
  induction blanks generalizing offset with
  | nil => rfl
  | cons c blanks ih =>
    simp only [List.all_cons, Bool.and_eq_true] at hb
    rw [List.cons_append, scanFrom_blank hb.1, ih hb.2, List.length_cons, Nat.add_right_comm,
      Nat.add_assoc]

/-- A lexeme keeps its place at the head of a text of which the end is cut off. -/
theorem Lexeme.Heads.cut {lexeme : Lexeme} {cs head tail : List Char}
    (h : lexeme.Heads cs (head ++ tail)) : lexeme.Heads (lexeme.written ++ head) head :=
  ⟨h.proper, rfl, fun hn => atBoundary_of_append (h.whole hn)⟩

theorem Opens.exists_cut {offset : Nat} {cs : List Char} {front : List Placed}
    (h : Opens offset cs front) : ∃ head tail, Cut offset cs front head tail := by
  induction h with
  | @nil offset cs =>
    have hblank : (cs.takeWhile isBlank).all isBlank := List.all_takeWhile
    have hsplit : cs = cs.takeWhile isBlank ++ cs.dropWhile isBlank :=
      List.takeWhile_append_dropWhile.symm
    have hscan : scanFrom offset cs =
        scanFrom (offset + (cs.takeWhile isBlank).length) (cs.dropWhile isBlank) := by
      rw [← scanFrom_blanks hblank, ← hsplit]
    have hspelled : Spells offset (cs.takeWhile isBlank ++ []) [] := .behind_blanks hblank .nil
    rw [List.append_nil] at hspelled
    refine ⟨_, _, hsplit, hspelled, fun c hc => ?_, ?_, ?_⟩
    · have hsolid := List.head?_dropWhile_not isBlank cs
      rwa [Option.mem_def.mp hc] at hsolid
    · rw [hscan, List.nil_append]
    · rw [hscan]
  | @blank offset c rest front hc _ ih =>
    obtain ⟨head, tail, cut⟩ := ih
    have hlength : offset + (c :: head).length = offset + 1 + head.length := by
      rw [List.length_cons]
      omega
    refine ⟨c :: head, tail, congrArg (c :: ·) cut.split, .blank hc cut.spelled, cut.solid, ?_, ?_⟩
    · rw [scanFrom_blank hc, hlength, cut.placed]
    · rw [scanFrom_blank hc, hlength, cut.stop]
  | @lexeme offset cs rest lexeme front hl _ ih =>
    obtain ⟨head, tail, cut⟩ := ih
    rw [cut.split] at hl
    have hlength : offset + (lexeme.written ++ head).length =
        offset + lexeme.written.length + head.length := by
      rw [List.length_append]
      omega
    refine ⟨lexeme.written ++ head, tail, ?_, .lexeme hl.cut cut.spelled, cut.solid, ?_, ?_⟩
    · rw [List.append_assoc, hl.split]
    · rw [scanFrom_lexeme hl, hlength, ← cut.split, cut.placed, List.cons_append]
    · rw [scanFrom_lexeme hl, hlength, ← cut.split, cut.stop]

/-- The scan goes on, or stops, where the text is cut. -/
theorem Cut.offsetOf {offset : Nat} {cs head tail : List Char} {front remaining : List Placed}
    (h : Cut offset cs front head tail)
    (hp : (scanFrom offset cs).placed = front ++ remaining) :
    remaining = (scanFrom (offset + head.length) tail).placed ∧
      (scanFrom offset cs).offsetOf remaining = offset + head.length := by
  have hremaining : remaining = (scanFrom (offset + head.length) tail).placed :=
    List.append_cancel_left (hp.symm.trans h.placed)
  refine ⟨hremaining, ?_⟩
  have hstop : (scanFrom offset cs).offsetOf remaining =
      (scanFrom (offset + head.length) tail).offsetOf remaining := by
    rw [Scan.offsetOf, Scan.offsetOf, h.stop]
  rw [hstop, hremaining, offsetOf_scanFrom h.solid]

namespace Spells

variable {offset : Nat} {cs : List Char} {placed : List Placed}

/-- Without its blanks a text is what its lexemes write. -/
theorem filter_eq (h : Spells offset cs placed) :
    cs.filter (fun c => !isBlank c) = placed.flatMap fun found => found.lexeme.written := by
  induction h with
  | nil => rfl
  | blank hc _ ih => rw [List.filter_cons_of_neg (by simp [hc]), ih]
  | @lexeme offset cs rest lexeme placed hl _ ih =>
    have hwritten : lexeme.written.filter (fun c => !isBlank c) = lexeme.written := by
      refine List.filter_eq_self.mpr fun c hc => ?_
      rw [Lexeme.not_isBlank_of_mem_written hl.proper hc, Bool.not_false]
    rw [hl.split, List.filter_append, hwritten, ih, List.flatMap_cons]

theorem all_isBlank (h : Spells offset cs []) : cs.all isBlank := by
  have hnone := List.filter_eq_nil_iff.mp h.filter_eq
  exact List.all_eq_true.mpr fun c hc => by simpa using hnone c hc

theorem le_offset (h : Spells offset cs placed) : ∀ found ∈ placed, offset ≤ found.offset := by
  induction h with
  | nil => simp
  | blank _ _ ih =>
    intro found hm
    have hle := ih found hm
    omega
  | lexeme _ _ ih =>
    intro found hm
    rcases List.mem_cons.mp hm with rfl | hm
    · exact Nat.le_refl _
    · have hle := ih found hm
      omega

/-- Each lexeme ends before the next begins. -/
theorem ordered (h : Spells offset cs placed) :
    placed.Pairwise fun before after =>
      before.offset + before.lexeme.written.length ≤ after.offset := by
  induction h with
  | nil => exact .nil
  | blank _ _ ih => exact ih
  | lexeme _ hrest ih => exact .cons hrest.le_offset ih

/-- A text can be cut in front of each of its lexemes. -/
theorem exists_heads {front rest : List Placed} {found : Placed}
    (h : Spells offset cs (front ++ found :: rest)) :
    ∃ head tail more, cs = head ++ tail ∧ Spells offset head front ∧
      found.offset = offset + head.length ∧ found.lexeme.Heads tail more ∧
      Spells (found.offset + found.lexeme.written.length) more rest := by
  generalize hp : front ++ found :: rest = placed at h
  induction h generalizing front with
  | nil => simp at hp
  | @blank offset c cs placed hc _ ih =>
    obtain ⟨head, tail, more, rfl, hs, ho, hh, hr⟩ := ih hp
    refine ⟨c :: head, tail, more, rfl, .blank hc hs, ?_, hh, hr⟩
    rw [ho, List.length_cons]
    omega
  | @lexeme offset cs more lexeme placed hl hs ih =>
    cases front with
    | nil =>
      obtain ⟨rfl, rfl⟩ := List.cons.inj hp
      exact ⟨[], cs, more, rfl, .nil, rfl, hl, hs⟩
    | cons first front =>
      obtain ⟨rfl, hrest⟩ := List.cons.inj hp
      obtain ⟨head, tail, after, rfl, hs, ho, hh, hr⟩ := ih hrest
      refine ⟨lexeme.written ++ head, tail, after, ?_, .lexeme hl.cut hs, ?_, hh, hr⟩
      · rw [List.append_assoc, ← hl.split]
      · rw [ho, List.length_append]
        omega

end Spells

end SearchFilter
