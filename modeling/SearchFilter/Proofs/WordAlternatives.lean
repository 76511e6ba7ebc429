import SearchFilter.Proofs.Backtracking
import SearchFilter.Proofs.WordReading

namespace SearchFilter

namespace Lexeme

/-- A lexeme is what a word is as a whole: a date if the word has the shape of one, with its runs
of digits, a duration, a connective, or else a tag. -/
structure IsOfWord (lexeme : Lexeme) (word : List Char) : Prop where
  date_iff : ∀ date : DateWord, lexeme = .date date ↔ date.Proper ∧ date.written = word
  duration_iff : ∀ (digits : List Char) (unit : DurationUnit), lexeme = .duration digits unit ↔
    (digits ≠ [] ∧ digits.all isDigit) ∧ digits ++ [unit.suffix] = word
  connective_iff : ∀ connective : Connective, lexeme = .connective connective ↔
    connective.word = word
  tag_iff : ∀ name : List Char, lexeme = .tag name ↔
    name = word ∧ ¬IsDateWord word ∧ ¬IsDurationWord word ∧ ¬IsConnectiveWord word

theorem isOfWord_written {lexeme : Lexeme} (hp : lexeme.Proper) (hl : lexeme.lead = none) :
    lexeme.IsOfWord lexeme.written := by
  have eq_iff : ∀ other : Lexeme, other.lead = none →
      (lexeme = other ↔ other.Proper ∧ other.written = lexeme.written) := by
    intro other hlo
    constructor
    · rintro rfl
      exact ⟨hp, rfl⟩
    · rintro ⟨ho, hw⟩
      exact written_inj hp ho hl hlo hw.symm
  exact
    { date_iff := fun date => eq_iff (.date date) rfl
      duration_iff := fun digits unit => eq_iff (.duration digits unit) rfl
      connective_iff := fun connective =>
        (eq_iff (.connective connective) rfl).trans (iff_of_eq (true_and _))
      tag_iff := by
        intro name
        rw [eq_iff (.tag name) rfl]
        constructor
        · rintro ⟨⟨-, hkinds⟩, hname⟩
          exact ⟨hname, hname ▸ hkinds⟩
        · rintro ⟨rfl, hkinds⟩
          exact ⟨⟨isWord_written hp hl, hkinds⟩, rfl⟩ }

/-- Whichever reading of a word matches, it takes a word to its end. -/
theorem whole_of_wordReader {reader : List Char → Option (Lexeme × List Char)}
    (hm : reader ∈ wordReaders) {cs rest : List Char} {lexeme : Lexeme}
    (h : reader cs = some (lexeme, rest)) :
    isWord lexeme.written ∧ cs = lexeme.written ++ rest ∧ atBoundary rest := by
  have of_heads : lexeme.lead = none → lexeme.Heads cs rest →
      isWord lexeme.written ∧ cs = lexeme.written ++ rest ∧ atBoundary rest :=
    fun hl hh => ⟨isWord_written hh.proper hl, hh.split, hh.boundary hl⟩
  simp only [wordReaders, List.mem_cons, List.not_mem_nil, or_false] at hm
  rcases hm with rfl | rfl | rfl | rfl | rfl | rfl
  · obtain ⟨_, _, _, rfl, hh⟩ := day?_eq_some_iff.mp h
    exact of_heads rfl hh
  · obtain ⟨_, _, rfl, hh⟩ := month?_eq_some_iff.mp h
    exact of_heads rfl hh
  · obtain ⟨_, rfl, hh⟩ := year?_eq_some_iff.mp h
    exact of_heads rfl hh
  · obtain ⟨_, _, rfl, hh⟩ := duration?_eq_some_iff.mp h
    exact of_heads rfl hh
  · obtain ⟨_, rfl, hh⟩ := connective?_eq_some_iff.mp h
    exact of_heads rfl hh
  · obtain ⟨-, _, rfl, hw⟩ := tag?_eq_some_iff.mp h
    exact hw

theorem Heads.lead_eq_none {lexeme : Lexeme} {c : Char} {tail rest : List Char}
    (h : lexeme.Heads (c :: tail) rest) (hc : isWordStart c) : lexeme.lead = none := by
  cases hl : lexeme.lead with
  | none => rfl
  | some d =>
    obtain ⟨_, hd⟩ := head_of_lead h hl
    cases hd
    rw [not_isWordStart_lead hl] at hc
    cases hc

/-- What is not refused as a connective can be read as a tag. -/
theorem exists_wordReader {c : Char} (hc : isWordStart c) (tail : List Char) :
    ∃ reader ∈ wordReaders, (reader (c :: tail)).isSome := by
  cases hconnective : connective? (c :: tail) with
  | some => exact ⟨connective?, by simp [wordReaders], by simp [hconnective]⟩
  | none =>
    refine ⟨tag?, by simp [wordReaders], ?_⟩
    rw [tag?, hconnective, takeRun?, if_pos hc]
    rfl

end Lexeme

/-- The alternatives for a word, tried with all their ways of matching, settle what it is: one of
them matches, none takes less than the word, and the first takes it as what it is. -/
structure SettlesWord (cs word after : List Char) : Prop where
  backtracked : Pattern.alternatives.map (·.first? cs) = Lexeme.wordReaders.map (· cs)
  exists_reader : ∃ reader ∈ Lexeme.wordReaders, (reader cs).isSome
  whole : ∀ reader ∈ Lexeme.wordReaders, ∀ lexeme rest, reader cs = some (lexeme, rest) →
    lexeme.written = word ∧ rest = after
  exists_first : ∃ lexeme, Lexeme.wordReaders.findSome? (· cs) = some (lexeme, after) ∧
    lexeme.IsOfWord word

theorem settlesWord {c : Char} (hc : isWordStart c) (tail : List Char) :
    SettlesWord (c :: tail) ((c :: tail).takeWhile isWordPart)
      ((c :: tail).dropWhile isWordPart) := by
  have hexists : ∃ reader ∈ Lexeme.wordReaders, (reader (c :: tail)).isSome :=
    Lexeme.exists_wordReader hc tail
  have hwhole : ∀ reader ∈ Lexeme.wordReaders, ∀ lexeme rest,
      reader (c :: tail) = some (lexeme, rest) →
      lexeme.written = (c :: tail).takeWhile isWordPart ∧
        rest = (c :: tail).dropWhile isWordPart := by
    intro reader hm lexeme rest hr
    obtain ⟨hw, hsplit, hb⟩ := Lexeme.whole_of_wordReader hm hr
    exact run_unique (all_isWordPart_of_isWord hw) List.all_takeWhile hb
      (atBoundary_dropWhile (c :: tail)) (hsplit.symm.trans List.takeWhile_append_dropWhile.symm)
  have hsome : (Lexeme.wordReaders.findSome? (· (c :: tail))).isSome :=
    List.findSome?_isSome_iff.mpr hexists
  obtain ⟨⟨lexeme, rest⟩, hfirst⟩ := Option.isSome_iff_exists.mp hsome
  obtain ⟨reader, hm, hreader⟩ := List.exists_of_findSome?_eq_some hfirst
  obtain ⟨hwritten, hrest⟩ := hwhole reader hm lexeme rest hreader
  have hheads : lexeme.Heads (c :: tail) rest := by
    apply Lexeme.heads_of_read?
    rw [Lexeme.read?, List.findSome?_append, hfirst]
    rfl
  refine ⟨Pattern.first?_alternatives (c :: tail), hexists, hwhole, lexeme, ?_, ?_⟩
  · rw [← hrest]
    exact hfirst
  · rw [← hwritten]
    exact Lexeme.isOfWord_written hheads.proper (hheads.lead_eq_none hc)

/-- Behind its mark a negation takes a word of any kind, up to its end, and nothing else. -/
structure SettlesNegation (behind : List Char) : Prop where
  backtracked : Pattern.notTag.first? ('!' :: behind) = Lexeme.notTag? ('!' :: behind)
  of_word : ∀ c ∈ behind.head?, isWordStart c → Lexeme.notTag? ('!' :: behind) =
    some (.notTag (behind.takeWhile isWordPart), behind.dropWhile isWordPart)
  of_no_word : (∀ c ∈ behind.head?, isWordStart c = false) → Lexeme.notTag? ('!' :: behind) = none

theorem settlesNegation (behind : List Char) : SettlesNegation behind where
  backtracked := Pattern.first?_notTag _
  of_word := by
    intro c hc hs
    obtain ⟨tail, rfl⟩ := List.head?_eq_some_iff.mp hc
    have hword : isWord ((c :: tail).takeWhile isWordPart) := by
      rw [List.takeWhile_cons_of_pos (isWordPart_of_isWordStart hs)]
      simp [isWord, hs, List.all_takeWhile]
    refine Lexeme.notTag?_eq_some_iff.mpr ⟨_, rfl, hword, ?_, fun _ => atBoundary_dropWhile _⟩
    exact congrArg ('!' :: ·) List.takeWhile_append_dropWhile.symm
  of_no_word := by
    intro hno
    cases behind with
    | nil => rfl
    | cons c rest =>
      have hc : ¬isWordStart c := by simp [hno c rfl]
      change (takeRun? isWordStart isWordPart (c :: rest)).bind _ = none
      rw [takeRun?, if_neg hc]
      rfl

/-- Where a word begins, it is settled as a whole what it is, and where a mark of negation stands,
the whole word behind it is negated, or nothing is read. -/
theorem alternatives_settle_word (text : String) (offset : Nat) :
    (∀ c, text.toList[offset]? = some c → isWordStart c →
      SettlesWord (text.toList.drop offset)
        ((text.toList.drop offset).takeWhile isWordPart)
        ((text.toList.drop offset).dropWhile isWordPart)) ∧
    (text.toList[offset]? = some '!' →
      text.toList.drop offset = '!' :: text.toList.drop (offset + 1) ∧
        SettlesNegation (text.toList.drop (offset + 1))) := by
  have hdrop : ∀ c, text.toList[offset]? = some c →
      text.toList.drop offset = c :: text.toList.drop (offset + 1) := by
    intro c hc
    rw [List.drop_eq_getElem?_toList_append, hc]
    rfl
  constructor
  · intro c hc hs
    rw [hdrop c hc]
    exact settlesWord hs _
  · intro hmark
    exact ⟨hdrop '!' hmark, settlesNegation _⟩

/-- A word that begins as a duration is settled as a whole, a negation takes a connective, and a
mark of negation at the end of a text negates nothing. -/
theorem alternatives_settle_seven_days :
    let text := "7days !AND !"
    text.toList[0]? = some '7' ∧ isWordStart '7' ∧
    SettlesWord text.toList "7days".toList " !AND !".toList ∧
    text.toList[6]? = some '!' ∧ isWordStart 'A' ∧
    Lexeme.notTag? "!AND !".toList = some (.notTag "AND".toList, " !".toList) ∧
    text.toList[11]? = some '!' ∧ Lexeme.notTag? "!".toList = none := by
  intro text
  have hseven : text.toList[0]? = some '7' := by decide
  have hmark : text.toList[6]? = some '!' := by decide
  have hlast : text.toList[11]? = some '!' := by decide
  have hstart : isWordStart '7' := by decide +kernel
  have hother : isWordStart 'A' := by decide +kernel
  have hword : SettlesWord text.toList _ _ := (alternatives_settle_word text 0).1 '7' hseven hstart
  have hrun : text.toList.takeWhile isWordPart = "7days".toList := by decide +kernel
  have hrest : text.toList.dropWhile isWordPart = " !AND !".toList := by decide +kernel
  have hbehind : text.toList.drop 7 = "AND !".toList := by decide
  have hend : text.toList.drop 12 = [] := by decide
  have hnegation : SettlesNegation "AND !".toList :=
    hbehind ▸ ((alternatives_settle_word text 6).2 hmark).2
  have hname : Lexeme.notTag? "!AND !".toList = some (.notTag _, _) :=
    hnegation.of_word 'A' (by decide) hother
  have hnothing : SettlesNegation [] := hend ▸ ((alternatives_settle_word text 11).2 hlast).2
  refine ⟨hseven, hstart, ?_, hmark, hother, ?_, hlast, hnothing.of_no_word (by simp)⟩
  · rw [← hrun, ← hrest]
    exact hword
  · rw [hname]
    decide +kernel

end SearchFilter
