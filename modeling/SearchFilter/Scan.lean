import SearchFilter.CharClass
import SearchFilter.LexemeReading

namespace SearchFilter

structure Placed where
  offset : Nat
  lexeme : Lexeme
  deriving DecidableEq

/-- The lexemes of a text up to the offset where no further one begins, which is its end if it has
nothing else in it. -/
structure Scan where
  placed : List Placed
  stop : Nat
  deriving DecidableEq

def scanFrom (offset : Nat) : List Char → Scan
  | [] => ⟨[], offset⟩
  | c :: rest =>
    if isBlank c then scanFrom (offset + 1) rest
    else
      match _h : Lexeme.read? (c :: rest) with
      | none => ⟨[], offset⟩
      | some (lexeme, tail) =>
        let later := scanFrom (offset + lexeme.written.length) tail
        ⟨⟨offset, lexeme⟩ :: later.placed, later.stop⟩
termination_by cs => cs.length
decreasing_by
  · simp
  · obtain ⟨he, hne⟩ := Lexeme.append_of_read? _h
    have hl := congrArg List.length he
    have hp := List.length_pos_iff.mpr hne
    simp only [List.length_append] at hl
    omega

/-- The offset of the first of some remaining lexemes, or else of what stopped the scan. -/
def Scan.offsetOf (scan : Scan) (remaining : List Placed) : Nat :=
  (remaining.head?.map Placed.offset).getD scan.stop

/-- The place of an offset in its line, counted from one. -/
def columnAt (text : List Char) (offset : Nat) : Nat :=
  ((text.take offset).reverse.takeWhile (· ≠ '\n')).length + 1

end SearchFilter
