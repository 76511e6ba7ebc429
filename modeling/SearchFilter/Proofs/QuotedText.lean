import Mathlib.Algebra.Group.Nat.Defs
import SearchFilter.JsonReader
import SearchFilter.Quoted
import SearchFilter.Proofs.DecimalNumber

namespace SearchFilter

/-- The number that hexadecimal digits write. -/
def hexNumber? (digits : List Char) : Option Nat :=
  digits.foldlM (fun value c => (Json.hexValue? c).map (value * 16 + ·)) 0

/-- How many digits behind a backslash and a letter write a character by its number. -/
def escapeWidth? : Char → Option Nat
  | 'x' => some 2
  | 'u' => some 4
  | 'U' => some 8
  | _ => none

/-- The character that a backslash and one more character stand for. -/
def shortEscape? : Char → Option Char
  | 'n' => some '\n'
  | 'r' => some '\r'
  | 't' => some '\t'
  | '\\' => some '\\'
  | '\x27' => some '\x27'
  | '\x22' => some '\x22'
  | _ => none

/-- The character written at the head of some text, and what follows it. -/
def unescape? : List Char → Option (Char × List Char)
  | [] => none
  | '\\' :: letter :: rest =>
    match escapeWidth? letter with
    | some width => (hexNumber? (rest.take width)).map fun n => (Char.ofNat n, rest.drop width)
    | none => (shortEscape? letter).map fun c => (c, rest)
  | c :: rest => some (c, rest)

theorem length_of_unescape? {cs rest : List Char} {c : Char}
    (h : unescape? cs = some (c, rest)) : rest.length < cs.length := by
  unfold unescape? at h
  split at h
  next => cases h
  next letter behind =>
    split at h
    next width _ =>
      obtain ⟨_, _, he⟩ := Option.map_eq_some_iff.mp h
      cases he
      simp only [List.length_drop, List.length_cons]
      omega
    next =>
      obtain ⟨_, _, he⟩ := Option.map_eq_some_iff.mp h
      cases he
      simp only [List.length_cons]
      omega
  next =>
    cases h
    simp

/-- The characters up to a mark that is not escaped, and what follows it. -/
def readMarked (mark : Char) (cs : List Char) : Option (List Char × List Char) :=
  match cs with
  | [] => none
  | c :: rest =>
    if c = mark then some ([], rest)
    else
      match _h : unescape? (c :: rest) with
      | none => none
      | some (written, later) =>
        (readMarked mark later).map fun (text, after) => (written :: text, after)
termination_by cs.length
decreasing_by exact length_of_unescape? _h

def isMark (c : Char) : Bool := c == '\x27' || c == '\x22'

/-- The text in marks at the head of a text, and what follows it. -/
def readQuoted? : List Char → Option (List Char × List Char)
  | [] => none
  | mark :: rest => if isMark mark then readMarked mark rest else none

/-- The text in the first marks of a text, and what follows it. -/
def readFirstQuoted? (cs : List Char) : Option (List Char × List Char) :=
  readQuoted? (cs.dropWhile (!isMark ·))

/-- The text in the first marks of a message. -/
def namedText? (message : String) : Option String :=
  (readFirstQuoted? message.toList).map fun (text, _) => .ofList text

/-- The text in the first marks behind those. -/
def namedResult? (message : String) : Option String := do
  let (_, rest) ← readFirstQuoted? message.toList
  let (result, _) ← readFirstQuoted? rest
  return .ofList result

theorem hexValue?_digitChar : ∀ n < 16, Json.hexValue? (Nat.digitChar n) = some n := by
  decide

theorem length_hexDigits (width n : Nat) : (hexDigits width n).length = width := by
  induction width generalizing n with
  | zero => rfl
  | succ width ih => rw [hexDigits, List.length_append, ih, List.length_singleton]

theorem hexNumber?_hexDigits {width n : Nat} (h : n < 16 ^ width) :
    hexNumber? (hexDigits width n) = some n := by
  induction width generalizing n with
  | zero =>
    have hn : n = 0 := by simpa using h
    rw [hn]
    rfl
  | succ width ih =>
    have hhigh : hexNumber? (hexDigits width (n / 16)) = some (n / 16) :=
      ih (Nat.div_lt_of_lt_mul (by rwa [Nat.mul_comm, ← Nat.pow_succ]))
    have hlow : Json.hexValue? (Nat.digitChar (n % 16)) = some (n % 16) :=
      hexValue?_digitChar _ (Nat.mod_lt _ (by decide))
    rw [hexNumber?] at hhigh
    rw [hexDigits, hexNumber?, List.foldlM_append, hhigh]
    simp only [List.foldlM_cons, List.foldlM_nil, hlow, Option.map_some, Option.bind_eq_bind,
      Option.bind_some, Option.pure_def, Nat.div_add_mod']

theorem unescape?_byNumber {letter c : Char} {width : Nat} (hw : escapeWidth? letter = some width)
    (hc : c.toNat < 16 ^ width) (rest : List Char) :
    unescape? ('\\' :: letter :: hexDigits width c.toNat ++ rest) = some (c, rest) := by
  change unescape? ('\\' :: letter :: (hexDigits width c.toNat ++ rest)) = _
  rw [unescape?, hw]
  simp only [List.take_left' (length_hexDigits _ _), List.drop_left' (length_hexDigits _ _),
    hexNumber?_hexDigits hc, Option.map_some, Char.ofNat_toNat]

theorem unescape?_short {letter c : Char} (h : shortEscape? letter = some c)
    (rest : List Char) : unescape? ('\\' :: letter :: rest) = some (c, rest) := by
  have hw : escapeWidth? letter = none := by
    unfold shortEscape? at h
    split at h <;> first | rfl | cases h
  rw [unescape?, hw]
  simp only [h, Option.map_some]

theorem unescape?_raw {c : Char} (h : c ≠ '\\') (rest : List Char) :
    unescape? (c :: rest) = some (c, rest) :=
  unescape?.eq_3 _ _ fun _ _ he _ => h he

section

variable {mark c : Char}

/-- A character is written by a letter, as itself or by its number. -/
theorem quoteChar_cases (hm : isMark mark) (c : Char) :
    (∃ letter, quoteChar mark c = ['\\', letter] ∧ shortEscape? letter = some c) ∨
      (quoteChar mark c = [c] ∧ c ≠ '\\' ∧ c ≠ mark ∧ isPrintable c) ∨
      ∃ letter width, quoteChar mark c = '\\' :: letter :: hexDigits width c.toNat ∧
        escapeWidth? letter = some width ∧ c.toNat < 16 ^ width := by
  unfold quoteChar
  split
  next h =>
    have hshort : shortEscape? c = some c := by
      rcases h with rfl | rfl
      · rfl
      · rcases Bool.or_eq_true_iff.mp hm with hm | hm
        · rw [eq_of_beq hm]
          rfl
        · rw [eq_of_beq hm]
          rfl
    exact .inl ⟨c, rfl, hshort⟩
  next hraw =>
    split
    next h => exact .inl ⟨'n', rfl, h ▸ rfl⟩
    split
    next h => exact .inl ⟨'r', rfl, h ▸ rfl⟩
    split
    next h => exact .inl ⟨'t', rfl, h ▸ rfl⟩
    split
    next h => exact .inr (.inl ⟨rfl, fun he => hraw (.inl he), fun he => hraw (.inr he), h⟩)
    split
    next h => exact .inr (.inr ⟨'x', 2, rfl, rfl, by omega⟩)
    split
    next h => exact .inr (.inr ⟨'u', 4, rfl, rfl, by omega⟩)
    next =>
      have hc : c.toNat < 16 ^ 8 := Nat.lt_of_lt_of_le c.val.toNat_lt (by decide)
      exact .inr (.inr ⟨'U', 8, rfl, rfl, hc⟩)

/-- Unescaping takes what a character is written as for that character. -/
theorem unescape?_quoteChar (hm : isMark mark) (rest : List Char) :
    unescape? (quoteChar mark c ++ rest) = some (c, rest) := by
  rcases quoteChar_cases hm c with ⟨letter, hq, hshort⟩ | ⟨hq, hslash, -⟩ |
    ⟨letter, width, hq, hw, hc⟩
  · rw [hq]
    exact unescape?_short hshort rest
  · rw [hq]
    exact unescape?_raw hslash rest
  · rw [hq]
    exact unescape?_byNumber hw hc rest

/-- What a character is written as does not begin with the mark around it. -/
theorem exists_quoteChar_cons (hm : isMark mark) :
    ∃ first rest, quoteChar mark c = first :: rest ∧ first ≠ mark := by
  have hslash : '\\' ≠ mark := by
    rintro rfl
    exact absurd hm (by decide)
  rcases quoteChar_cases hm c with ⟨letter, hq, -⟩ | ⟨hq, -, hne, -⟩ | ⟨letter, width, hq, -⟩
  · exact ⟨_, _, hq, hslash⟩
  · exact ⟨_, _, hq, hne⟩
  · exact ⟨_, _, hq, hslash⟩

theorem readMarked_quoteChar (hm : isMark mark) (rest : List Char) :
    readMarked mark (quoteChar mark c ++ rest) =
      (readMarked mark rest).map fun (text, after) => (c :: text, after) := by
  obtain ⟨first, behind, hq, hne⟩ := exists_quoteChar_cons (c := c) hm
  have hc : unescape? (quoteChar mark c ++ rest) = some (c, rest) := unescape?_quoteChar hm rest
  rw [hq, List.cons_append] at hc ⊢
  rw [readMarked, if_neg hne]
  split
  next he => cases hc.symm.trans he
  next he =>
    cases hc.symm.trans he
    rfl

theorem readMarked_flatMap (hm : isMark mark) (text rest : List Char) :
    readMarked mark (text.flatMap (quoteChar mark) ++ mark :: rest) = some (text, rest) := by
  induction text with
  | nil =>
    rw [List.flatMap_nil, List.nil_append, readMarked, if_pos rfl]
  | cons c text ih =>
    rw [List.flatMap_cons, List.append_assoc, readMarked_quoteChar hm, ih]
    rfl

end

theorem isMark_quoteMark (text : List Char) : isMark (quoteMark text) := by
  unfold quoteMark
  split <;> rfl

/-- A text in marks ends at its closing mark, and is read back as it was. -/
theorem readQuoted?_quoteChars (text rest : List Char) :
    readQuoted? (quoteChars text ++ rest) = some (text, rest) := by
  have hm : isMark (quoteMark text) := isMark_quoteMark text
  rw [quoteChars, List.cons_append, List.cons_append, readQuoted?, if_pos hm, List.append_assoc]
  exact readMarked_flatMap hm text rest

theorem readFirstQuoted?_append {preface : List Char} (h : preface.all (!isMark ·))
    (text rest : List Char) :
    readFirstQuoted? (preface ++ (quoteChars text ++ rest)) = some (text, rest) := by
  have hmark : (quoteChars text ++ rest).dropWhile (!isMark ·) = quoteChars text ++ rest := by
    rw [quoteChars, List.cons_append, List.cons_append,
      List.dropWhile_cons_of_neg (by simp [isMark_quoteMark])]
  rw [readFirstQuoted?, List.dropWhile_append_of_pos (List.all_eq_true.mp h), hmark,
    readQuoted?_quoteChars]

section

variable {preface link : String}

/-- The text that a message names is read back, whatever follows it. -/
theorem namedText?_quoted (h : preface.toList.all (!isMark ·)) (text rest : String) :
    namedText? (preface ++ quoted text ++ rest) = some text := by
  rw [namedText?, String.toList_append, String.toList_append, quoted, String.toList_ofList,
    List.append_assoc, readFirstQuoted?_append h]
  exact congrArg some String.ofList_toList

/-- So is the text that it names behind that one. -/
theorem namedResult?_quoted (h : preface.toList.all (!isMark ·))
    (hl : link.toList.all (!isMark ·)) (text result : String) :
    namedResult? (preface ++ quoted text ++ link ++ quoted result) = some result := by
  have hresult := readFirstQuoted?_append hl result.toList []
  rw [List.append_nil] at hresult
  simp only [namedResult?, quoted, String.toList_append, String.toList_ofList, List.append_assoc,
    readFirstQuoted?_append h, Option.bind_eq_bind, Option.bind_some, hresult]
  exact congrArg some String.ofList_toList

end

end SearchFilter
