import SearchFilter.Proofs.Draft
import SearchFilter.Proofs.Relocation
import SearchFilter.Proofs.ScanCut

namespace SearchFilter

/-- A run of blanks and the run that replaces it. -/
structure GapChange where
  old : Gap
  new : Gap

/-- By how much a gap becomes longer. -/
def GapChange.extent (change : GapChange) : Int := change.new.length - change.old.length

/-- By how much those gaps become longer that begin in front of an offset in the parts of a text,
each of which has a gap behind it. -/
def changeBefore : List (List Char × GapChange) → (offset : Nat) → Int
  | [], _ => 0
  | (part, gap) :: rest, offset =>
    if offset ≤ part.length then 0
    else gap.extent + changeBefore rest (offset - (part.length + gap.old.length))

/-- A text of which runs of blanks are replaced: one in front of its parts, and one behind each
part. Only at the two ends of the text may a run be or become empty. -/
structure Respacing where
  lead : GapChange
  parts : List (List Char × GapChange)
  inner : ∀ part ∈ parts.dropLast, part.2.old.chars ≠ [] ∧ part.2.new.chars ≠ []

namespace Respacing

def oldText (respacing : Respacing) : String :=
  .ofList (respacing.lead.old.chars ++
    respacing.parts.flatMap fun (part, gap) => part ++ gap.old.chars)

def newText (respacing : Respacing) : String :=
  .ofList (respacing.lead.new.chars ++
    respacing.parts.flatMap fun (part, gap) => part ++ gap.new.chars)

/-- Where a position of the old text is in the new one. -/
def place (respacing : Respacing) (position : Int) : Int :=
  position + respacing.lead.extent +
    changeBefore respacing.parts (position.toNat - respacing.lead.old.length)

end Respacing

/-- Characters from two offsets on that are the same but for runs of blanks, which may be empty at
the end only. A relation holds between the offsets of every two places that correspond. -/
inductive Aligned (R : Nat → Nat → Prop) : Nat → Nat → List Char → List Char → Prop
  | ends {offset other : Nat} {old new : List Char} : R offset other → old.all isBlank →
      new.all isBlank → Aligned R offset other old new
  | kept {offset other : Nat} {c : Char} {cs ds : List Char} : R offset other →
      Aligned R (offset + 1) (other + 1) cs ds → Aligned R offset other (c :: cs) (c :: ds)
  | gap {offset other : Nat} {old new cs ds : List Char} : R offset other →
      old ≠ [] ∧ old.all isBlank → new ≠ [] ∧ new.all isBlank →
      Aligned R (offset + old.length) (other + new.length) cs ds →
      Aligned R offset other (old ++ cs) (new ++ ds)

theorem scanFrom_stop {offset : Nat} {c : Char} {rest : List Char} (hc : isBlank c = false)
    (h : Lexeme.read? (c :: rest) = none) : scanFrom offset (c :: rest) = ⟨[], offset⟩ := by
  rw [scanFrom, if_neg (by simp [hc])]
  split
  next => rfl
  next he =>
    rw [h] at he
    cases he

theorem atBoundary_of_all_isBlank {cs : List Char} (h : cs.all isBlank) : atBoundary cs := by
  cases cs with
  | nil => rfl
  | cons c cs =>
    simp only [List.all_cons, Bool.and_eq_true] at h
    exact atBoundary_of_isBlank h.1

theorem scanFrom_all_isBlank {offset : Nat} {cs : List Char} (h : cs.all isBlank) :
    scanFrom offset cs = ⟨[], offset + cs.length⟩ := by
  rw [← List.append_nil cs, scanFrom_blanks h, scanFrom, List.append_nil]

namespace Aligned

variable {R : Nat → Nat → Prop} {offset other : Nat} {cs ds : List Char}

theorem related (h : Aligned R offset other cs ds) : R offset other := by
  cases h with
  | ends hr => exact hr
  | kept hr => exact hr
  | gap hr => exact hr

theorem swap (h : Aligned R offset other cs ds) :
    Aligned (fun after before => R before after) other offset ds cs := by
  induction h with
  | ends hr hold hnew => exact .ends hr hnew hold
  | kept hr _ ih => exact .kept hr ih
  | gap hr hold hnew _ ih => exact .gap hr hnew hold ih

theorem atBoundary (h : Aligned R offset other cs ds) (hb : atBoundary cs) :
    SearchFilter.atBoundary ds := by
  cases h with
  | ends _ _ hnew => exact atBoundary_of_all_isBlank hnew
  | kept => exact hb
  | @gap _ _ _ new _ _ _ _ hnew =>
    obtain ⟨hne, hblank⟩ := hnew
    cases new with
    | nil => exact absurd rfl hne
    | cons c new =>
      simp only [List.all_cons, Bool.and_eq_true] at hblank
      exact atBoundary_of_isBlank hblank.1

/-- What is no blank stands in both texts. -/
theorem of_append {word : List Char} (h : Aligned R offset other (word ++ cs) ds)
    (hw : ∀ c ∈ word, isBlank c = false) :
    ∃ rest, ds = word ++ rest ∧
      Aligned R (offset + word.length) (other + word.length) cs rest := by
  induction word generalizing offset other ds with
  | nil => exact ⟨ds, rfl, h⟩
  | cons c word ih =>
    have hc : isBlank c = false := hw c (by simp)
    generalize ht : c :: word ++ cs = text at h
    cases h with
    | ends _ hold =>
      rw [← ht] at hold
      simp [hc] at hold
    | kept _ hrest =>
      obtain ⟨rfl, rfl⟩ := List.cons.inj ht
      obtain ⟨rest, rfl, hr⟩ := ih hrest fun d hm => hw d (by simp [hm])
      refine ⟨rest, rfl, ?_⟩
      rwa [List.length_cons, Nat.add_comm word.length, ← Nat.add_assoc, ← Nat.add_assoc]
    | @gap _ _ old _ _ _ _ hold =>
      obtain ⟨hne, hblank⟩ := hold
      cases old with
      | nil => exact absurd rfl hne
      | cons d old =>
        obtain ⟨rfl, -⟩ := List.cons.inj ht
        simp [hc] at hblank

/-- A lexeme stands at the head of both texts. -/
theorem heads {lexeme : Lexeme} {rest : List Char} (h : Aligned R offset other cs ds)
    (hl : lexeme.Heads cs rest) :
    ∃ more, lexeme.Heads ds more ∧
      Aligned R (offset + lexeme.written.length) (other + lexeme.written.length) rest more := by
  rw [hl.split] at h
  obtain ⟨more, rfl, hr⟩ := h.of_append fun _ hc => Lexeme.not_isBlank_of_mem_written hl.proper hc
  exact ⟨more, ⟨hl.proper, rfl, fun hn => hr.atBoundary (hl.whole hn)⟩, hr⟩

theorem read?_eq_none (h : Aligned R offset other cs ds) (hn : Lexeme.read? cs = none) :
    Lexeme.read? ds = none := by
  refine Option.eq_none_iff_forall_ne_some.mpr fun ⟨lexeme, rest⟩ hread => ?_
  obtain ⟨more, hl, -⟩ := h.swap.heads (Lexeme.read?_eq_some_iff.mp hread)
  rw [Lexeme.read?_eq_some_iff.mpr hl] at hn
  cases hn

end Aligned

/-- The scans of two texts find the same lexemes, at places which the change leads from one to the
other, and either both come to the end of their text or both stop before. -/
structure ScannedAlike (place : Int → Int) (offset other : Nat) (cs ds : List Char) : Prop where
  keeps : ∀ found ∈ (scanFrom offset cs).placed, Keeps place found.offset
  placed : (scanFrom other ds).placed =
    (scanFrom offset cs).placed.map (Placed.relocated place)
  stop : (scanFrom offset cs).stop < offset + cs.length ↔
    (scanFrom other ds).stop < other + ds.length

theorem Aligned.scannedAlike {place : Int → Int} {offset other : Nat} {cs ds : List Char}
    (h : Aligned (fun before after => place before = after) offset other cs ds) :
    ScannedAlike place offset other cs ds := by
  -- by the length of what is left, since a lexeme takes several characters
  induction hn : cs.length using Nat.strongRecOn generalizing offset other cs ds with
  | ind n ih =>
    subst hn
    cases h with
    | ends hr hold hnew =>
      refine ⟨?_, ?_, ?_⟩ <;> simp [scanFrom_all_isBlank hold, scanFrom_all_isBlank hnew]
    | @gap _ _ old new cs ds hr hold hnew hrest =>
      have hshort : cs.length < (old ++ cs).length := by
        have hpos := List.length_pos_iff.mpr hold.1
        rw [List.length_append]
        omega
      obtain ⟨hkeeps, hplaced, hstop⟩ := ih _ hshort hrest rfl
      refine ⟨?_, ?_, ?_⟩
      · rwa [scanFrom_blanks hold.2]
      · rwa [scanFrom_blanks hold.2, scanFrom_blanks hnew.2]
      · rwa [scanFrom_blanks hold.2, scanFrom_blanks hnew.2, List.length_append,
          List.length_append, ← Nat.add_assoc, ← Nat.add_assoc]
    | @kept _ _ c cs ds hr hrest =>
      cases hc : isBlank c with
      | true =>
        obtain ⟨hkeeps, hplaced, hstop⟩ := ih _ (by simp) hrest rfl
        refine ⟨?_, ?_, ?_⟩
        · rwa [scanFrom_blank hc]
        · rwa [scanFrom_blank hc, scanFrom_blank hc]
        · rw [scanFrom_blank hc, scanFrom_blank hc, List.length_cons, List.length_cons]
          omega
      | false =>
        have halike : Aligned _ offset other (c :: cs) (c :: ds) := .kept hr hrest
        cases hread : Lexeme.read? (c :: cs) with
        | none =>
          have hother := halike.read?_eq_none hread
          refine ⟨?_, ?_, ?_⟩ <;> simp [scanFrom_stop hc hread, scanFrom_stop hc hother]
        | some found =>
          obtain ⟨lexeme, rest⟩ := found
          have hl := Lexeme.read?_eq_some_iff.mp hread
          obtain ⟨more, hm, hlater⟩ := halike.heads hl
          have hold := congrArg List.length hl.split
          have hnew := congrArg List.length hm.split
          have hpos := List.length_pos_iff.mpr (Lexeme.written_ne_nil hl.proper)
          simp only [List.length_append] at hold hnew
          obtain ⟨hkeeps, hplaced, hstop⟩ := ih rest.length (by omega) hlater rfl
          have hfirst : Keeps place offset := by
            have hnext : place (offset + 1 : Nat) = (other + 1 : Nat) := hrest.related
            push_cast at hnext
            exact ⟨by omega, by omega⟩
          refine ⟨?_, ?_, ?_⟩
          · rw [scanFrom_lexeme hl]
            exact List.forall_mem_cons.mpr ⟨hfirst, hkeeps⟩
          · rw [scanFrom_lexeme hl, scanFrom_lexeme hm, hplaced, List.map_cons,
              Placed.relocated, halike.related, Int.toNat_natCast]
          · rw [scanFrom_lexeme hl, scanFrom_lexeme hm, hold, hnew, ← Nat.add_assoc,
              ← Nat.add_assoc]
            exact hstop

namespace Respacing

variable {place : Int → Int} {offset other : Nat}

/-- Characters are taken apart at all of their blanks. -/
theorem exists_parts (cs : List Char) : ∃ (lead : GapChange) (parts : List (List Char × GapChange)),
    lead.old.chars ++ (parts.flatMap fun (part, gap) => part ++ gap.old.chars) = cs ∧
    (lead.old.chars ≠ [] → lead.new.chars ≠ []) ∧
    (∀ part ∈ parts.dropLast, part.2.old.chars ≠ [] ∧ part.2.new.chars ≠ []) ∧
    ∀ part ∈ parts, part.1 ≠ [] ∧ ∀ c ∈ part.1, isBlank c = false := by
  induction cs with
  | nil => exact ⟨⟨⟨[], rfl⟩, ⟨[], rfl⟩⟩, [], rfl, id, by simp, by simp⟩
  | cons c cs ih =>
    obtain ⟨lead, parts, rfl, hlead, hinner, hsolid⟩ := ih
    cases hc : isBlank c with
    | true =>
      have hold : (c :: lead.old.chars).all isBlank := by simp [hc, lead.old.blank]
      have hnew : (c :: lead.new.chars).all isBlank := by simp [hc, lead.new.blank]
      exact ⟨⟨⟨_, hold⟩, ⟨_, hnew⟩⟩, parts, rfl, by simp, hinner, hsolid⟩
    | false =>
      -- the character begins a part of its own unless it stands directly in front of one
      by_cases hgap : lead.old.chars ≠ [] ∨ parts = []
      · refine ⟨⟨⟨[], rfl⟩, ⟨[], rfl⟩⟩, ([c], lead) :: parts, by simp, id, ?_, ?_⟩
        · cases parts with
          | nil => simp
          | cons next rest =>
            have hold : lead.old.chars ≠ [] := hgap.resolve_right (by simp)
            exact List.forall_mem_cons.mpr ⟨⟨hold, hlead hold⟩, hinner⟩
        · exact List.forall_mem_cons.mpr ⟨by simp [hc], hsolid⟩
      · obtain ⟨hold, hne⟩ : lead.old.chars = [] ∧ parts ≠ [] := by simpa using hgap
        obtain ⟨⟨part, gap⟩, rest, rfl⟩ := List.exists_cons_of_ne_nil hne
        obtain ⟨⟨-, hpart⟩, hrest⟩ := List.forall_mem_cons.mp hsolid
        have hlonger : ∀ d ∈ c :: part, isBlank d = false := List.forall_mem_cons.mpr ⟨hc, hpart⟩
        refine ⟨⟨⟨[], rfl⟩, ⟨[], rfl⟩⟩, (c :: part, gap) :: rest, by simp [hold], id, ?_, ?_⟩
        · cases rest with
          | nil => simp
          | cons next rest => exact List.forall_mem_cons.mpr (List.forall_mem_cons.mp hinner)
        · exact List.forall_mem_cons.mpr ⟨⟨by simp, hlonger⟩, hrest⟩

/-- Every text can have all of its runs of blanks replaced. -/
theorem exists_oldText (text : String) : ∃ respacing : Respacing, respacing.oldText = text ∧
    ∀ part ∈ respacing.parts, part.1 ≠ [] ∧ ∀ c ∈ part.1, isBlank c = false := by
  obtain ⟨lead, parts, he, -, hinner, hsolid⟩ := exists_parts text.toList
  exact ⟨⟨lead, parts, hinner⟩, by rw [oldText, he, String.ofList_toList], hsolid⟩

/-- Two texts stay aligned in front of a part that they share. -/
theorem aligned_part {R : Nat → Nat → Prop} {part cs ds : List Char}
    (hr : ∀ k ≤ part.length, R (offset + k) (other + k))
    (h : Aligned R (offset + part.length) (other + part.length) cs ds) :
    Aligned R offset other (part ++ cs) (part ++ ds) := by
  induction part generalizing offset other with
  | nil => exact h
  | cons c part ih =>
    refine .kept (hr 0 (by simp)) (ih (fun k hk => ?_) ?_)
    · rw [Nat.add_assoc, Nat.add_assoc, Nat.add_comm 1 k]
      exact hr (k + 1) (by simpa using hk)
    · rwa [Nat.add_assoc, Nat.add_assoc, Nat.add_comm 1 part.length]

/-- Parts with gaps behind them are aligned if the change of places begins with the changes of those
gaps. -/
theorem aligned_parts {parts : List (List Char × GapChange)}
    (hinner : ∀ part ∈ parts.dropLast, part.2.old.chars ≠ [] ∧ part.2.new.chars ≠ [])
    (hplace : ∀ k : Nat, place (offset + k : Nat) = other + k + changeBefore parts k) :
    Aligned (fun before after => place before = after) offset other
      (parts.flatMap fun (part, gap) => part ++ gap.old.chars)
      (parts.flatMap fun (part, gap) => part ++ gap.new.chars) := by
  induction parts generalizing offset other with
  | nil => exact .ends (by simpa [changeBefore] using hplace 0) rfl rfl
  | cons part rest ih =>
    obtain ⟨part, gap⟩ := part
    have hpart : ∀ k ≤ part.length, place (offset + k : Nat) = (other + k : Nat) := by
      intro k hk
      rw [hplace, changeBefore, if_pos hk]
      push_cast
      omega
    simp only [List.flatMap_cons, List.append_assoc]
    refine aligned_part hpart ?_
    cases rest with
    | nil =>
      simp only [List.flatMap_nil, List.append_nil]
      exact .ends (hpart _ (Nat.le_refl _)) gap.old.blank gap.new.blank
    | cons next rest =>
      obtain ⟨hold, hnew⟩ : gap.old.chars ≠ [] ∧ gap.new.chars ≠ [] := hinner (part, gap) (by simp)
      have hpos : 0 < gap.old.length := List.length_pos_iff.mpr hold
      refine .gap (hpart _ (Nat.le_refl _)) ⟨hold, gap.old.blank⟩ ⟨hnew, gap.new.blank⟩
        (ih (fun later hm => hinner later (by simp [hm])) fun k => ?_)
      have hbehind : part.length + gap.old.length + k - (part.length + gap.old.length) = k := by
        omega
      have hk := hplace (part.length + gap.old.length + k)
      rw [changeBefore, if_neg (by omega), hbehind, GapChange.extent] at hk
      change place (offset + part.length + gap.old.length + k : Nat) =
        (other + part.length + gap.new.length : Nat) + k + changeBefore (next :: rest) k
      rw [Nat.add_assoc, Nat.add_assoc, ← Nat.add_assoc part.length, hk]
      push_cast
      omega

theorem scannedAlike (respacing : Respacing) :
    ScannedAlike respacing.place 0 0 respacing.oldText.toList respacing.newText.toList := by
  have haligned : Aligned (fun before after => respacing.place before = after)
      respacing.lead.old.length respacing.lead.new.length _ _ :=
    aligned_parts respacing.inner fun k => by
      have hbehind : ((respacing.lead.old.length + k : Nat) : Int).toNat -
          respacing.lead.old.length = k := by omega
      rw [place, hbehind, GapChange.extent]
      push_cast
      omega
  obtain ⟨hkeeps, hplaced, hstop⟩ := haligned.scannedAlike
  rw [oldText, newText, String.toList_ofList, String.toList_ofList]
  refine ⟨?_, ?_, ?_⟩
  · rwa [scanFrom_blanks respacing.lead.old.blank, Nat.zero_add]
  · rwa [scanFrom_blanks respacing.lead.old.blank, scanFrom_blanks respacing.lead.new.blank,
      Nat.zero_add, Nat.zero_add]
  · rwa [scanFrom_blanks respacing.lead.old.blank, scanFrom_blanks respacing.lead.new.blank,
      List.length_append, List.length_append, Nat.zero_add, Nat.zero_add, Nat.zero_add,
      Nat.zero_add]

theorem readAlike (respacing : Respacing) :
    ReadAlike respacing.place (Expression.parse respacing.oldText)
      (Expression.parse respacing.newText) := by
  obtain ⟨hkeeps, hplaced, hstop⟩ := respacing.scannedAlike
  refine Expression.readAlike_parse hkeeps hplaced ?_
  rwa [Nat.zero_add, Nat.zero_add, String.length_toList, String.length_toList] at hstop

end Respacing

/-- Blanks do not change what a text means. Every text is made up of parts without blanks and of
runs of blanks. Whatever other runs of them stand between, before and behind its parts, it is
accepted or not, and refused for the same long amount or not; its tokens are the same but for the
positions of dates, which are moved by as much as the blanks in front of them become longer, and
compiling comes to the same but for the position that a failure reports. -/
theorem tokenize_respaced :
    (∀ text : String, ∃ respacing : Respacing, respacing.oldText = text ∧
      ∀ part ∈ respacing.parts, part.1 ≠ [] ∧ ∀ c ∈ part.1, isBlank c = false) ∧
    ∀ respacing : Respacing,
      ((∃ tokens, tokenize respacing.newText = .ok tokens) ↔
        ∃ tokens, tokenize respacing.oldText = .ok tokens) ∧
      (∀ digits, tokenize respacing.newText = .error (.amountTooLong digits) ↔
        tokenize respacing.oldText = .error (.amountTooLong digits)) ∧
      (∀ tokens, tokenize respacing.oldText = .ok tokens →
        tokenize respacing.newText = .ok (tokens.map (Token.relocated respacing.place))) ∧
      ∀ (compiler : Compiler) (now : Option Moment),
        (compiler.compile respacing.newText now).outcome =
          (compiler.compile respacing.oldText now).outcome.mapError
            (Failure.relocated respacing.place) := by
  refine ⟨Respacing.exists_oldText, fun respacing => ?_⟩
  have halike := respacing.readAlike
  refine ⟨?_, ?_, ?_, halike.compile⟩
  all_goals
    rw [tokenize, tokenize]
    generalize Expression.parse respacing.oldText = old at halike ⊢
    generalize Expression.parse respacing.newText = new at halike ⊢
  · cases halike <;> simp [Except.map]
  · cases halike <;> simp [Except.map]
  · cases halike <;> simp [Except.map, Expression.tokens_relocated]

end SearchFilter
