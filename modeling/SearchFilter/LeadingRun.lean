import SearchFilter.Token
import SearchFilter.WordChar

namespace SearchFilter

/-- A fixed number of digits at the start of a text, and the rest. -/
def takeDigits? (count : Nat) (cs : List Char) : Option (List Char × List Char) :=
  if (cs.take count).length = count ∧ (cs.take count).all isDigit then
    some (cs.take count, cs.drop count)
  else none

def takeChar? (c : Char) : List Char → Option (List Char)
  | [] => none
  | d :: rest => if d = c then some rest else none

/-- The longest run at the start of a text that begins as `first` says and goes on as `part`
says. -/
def takeRun? (first part : Char → Bool) : List Char → Option (List Char × List Char)
  | [] => none
  | c :: rest => if first c then some (c :: rest.takeWhile part, rest.dropWhile part) else none

def takeUnit? : List Char → Option (DurationUnit × List Char)
  | [] => none
  | c :: rest => (DurationUnit.ofSuffix? c).map (·, rest)

/-- Whether a word that ends here is not the beginning of a longer one. -/
def atBoundary : List Char → Bool
  | [] => true
  | c :: _ => !isWordPart c

theorem takeDigits?_eq_some_iff {count : Nat} {cs digits rest : List Char} :
    takeDigits? count cs = some (digits, rest) ↔
      cs = digits ++ rest ∧ digits.length = count ∧ digits.all isDigit := by
  unfold takeDigits?
  constructor
  · intro h
    split at h
    next hc =>
      obtain ⟨rfl, rfl⟩ := Prod.mk.inj (Option.some.inj h)
      exact ⟨(List.take_append_drop count cs).symm, hc⟩
    next => simp at h
  · rintro ⟨rfl, rfl, hd⟩
    simp_all

theorem takeChar?_eq_some_iff {c : Char} {cs rest : List Char} :
    takeChar? c cs = some rest ↔ cs = c :: rest := by
  cases cs with
  | nil => simp [takeChar?]
  | cons d ds => by_cases h : d = c <;> simp [takeChar?, h]

theorem takeRun?_eq_some_iff {first part : Char → Bool} {cs run rest : List Char} :
    takeRun? first part cs = some (run, rest) ↔ ∃ c tail, cs = c :: tail ∧ first c ∧
      c :: tail.takeWhile part = run ∧ tail.dropWhile part = rest := by
  cases cs with
  | nil => simp [takeRun?]
  | cons d ds => by_cases h : first d <;> simp [takeRun?, h, and_assoc]

theorem takeUnit?_eq_some_iff {cs rest : List Char} {unit : DurationUnit} :
    takeUnit? cs = some (unit, rest) ↔ cs = unit.suffix :: rest := by
  cases cs with
  | nil => simp [takeUnit?]
  | cons c tail =>
    simp only [takeUnit?, Option.map_eq_some_iff, Prod.mk.injEq, List.cons.injEq,
      DurationUnit.ofSuffix?_eq_some_iff]
    grind

theorem append_of_takeRun? {first part : Char → Bool} {cs run rest : List Char}
    (h : takeRun? first part cs = some (run, rest)) : cs = run ++ rest ∧ run ≠ [] := by
  obtain ⟨c, tail, rfl, _, rfl, rfl⟩ := takeRun?_eq_some_iff.mp h
  simp [List.takeWhile_append_dropWhile]

end SearchFilter
