import SearchFilter.DecimalText
import SearchFilter.IntegerText

namespace SearchFilter

theorem digitValue?_of_plain {c : Char} (h : c.isDigit) : digitValue? c = some (c.toNat - 48) := by
  have hc : 48 ≤ c.toNat ∧ c.toNat ≤ 57 := by
    simp only [Char.isDigit, Bool.and_eq_true, decide_eq_true_eq] at h
    exact h
  rw [digitValue?, decimalZeros, List.find?_cons_of_pos (by simp; omega)]
  rfl

theorem digitsValue_of_plain {digits : List Char} (h : digits.all Char.isDigit) :
    digitsValue digits = Nat.ofDigitChars 10 digits 0 := by
  have from_value : ∀ start, digits.foldl
      (fun value c => value * 10 + (digitValue? c).getD 0) start =
        Nat.ofDigitChars 10 digits start := by
    induction digits with
    | nil => simp
    | cons c rest ih =>
      intro start
      simp only [List.all_cons, Bool.and_eq_true] at h
      rw [List.foldl_cons, ih h.2, Nat.ofDigitChars_cons, digitValue?_of_plain h.1, Nat.mul_comm]
      rfl
  exact from_value 0

theorem all_isDigit_toDigits (n : Nat) : (Nat.toDigits 10 n).all Char.isDigit :=
  List.all_eq_true.mpr fun _ hc => Nat.isDigit_of_mem_toDigits (by decide) (by decide) hc

/-- Written digits are worth the number that they were written for. -/
theorem digitsValue_toDigits (n : Nat) : digitsValue (Nat.toDigits 10 n) = n := by
  rw [digitsValue_of_plain (all_isDigit_toDigits n), Nat.ofDigitChars_ten_toDigits]

theorem all_isDigit_of_plain {digits : List Char} (h : digits.all Char.isDigit) :
    digits.all isDigit := by
  refine List.all_eq_true.mpr fun c hc => ?_
  rw [isDigit, digitValue?_of_plain (List.all_eq_true.mp h c hc)]
  rfl

/-- Zeros in front change no value. -/
theorem digitsValue_zeroPadded (width n : Nat) : digitsValue (zeroPadded width n) = n := by
  have hz : ∀ count, digitsValue (List.replicate count '0' ++ Nat.toDigits 10 n) =
      digitsValue (Nat.toDigits 10 n) := by
    intro count
    induction count with
    | zero => rfl
    | succ count ih => exact ih
  rw [zeroPadded, hz, digitsValue_toDigits]

theorem length_zeroPadded {width n : Nat} (h : (Nat.toDigits 10 n).length ≤ width) :
    (zeroPadded width n).length = width := by
  rw [zeroPadded, List.length_append, List.length_replicate]
  omega

theorem all_isDigit_zeroPadded (width n : Nat) : (zeroPadded width n).all isDigit := by
  have hz : isDigit '0' := by decide
  rw [zeroPadded, List.all_append, all_isDigit_of_plain (all_isDigit_toDigits n)]
  simp [hz]

theorem head?_toDigits {n : Nat} (h : 0 < n) : (Nat.toDigits 10 n).head? ≠ some '0' := by
  induction n using Nat.strongRecOn with
  | ind n ih =>
    by_cases hn : n < 10
    · have digit : ∀ k < 10, 0 < k → [Nat.digitChar k].head? ≠ some '0' := by decide
      rw [Nat.toDigits_of_lt_base hn]
      exact digit n hn h
    · have hd := ih (n / 10) (by omega) (by omega)
      rw [Nat.toDigits_of_base_le (by decide) (by omega)]
      cases hc : Nat.toDigits 10 (n / 10) with
      | nil => exact absurd hc Nat.toDigits_ne_nil
      | cons c rest => simpa [hc] using hd

theorem plainNat?_toDigits {n : Nat} (h : (Nat.toDigits 10 n).length ≤ digitLimit) :
    plainNat? (Nat.toDigits 10 n) = some n := by
  rcases Nat.eq_zero_or_pos n with rfl | hn
  · rfl
  · have hz : Nat.toDigits 10 n ≠ ['0'] := fun he => head?_toDigits hn (by rw [he]; rfl)
    have hp : ¬(Nat.toDigits 10 n = [] ∨ (Nat.toDigits 10 n).head? = some '0' ∨
        ¬(Nat.toDigits 10 n).all Char.isDigit) := by
      simp [head?_toDigits hn, all_isDigit_toDigits n]
    rw [plainNat?, if_neg hz, if_neg hp, if_neg (by omega), digitsValue_toDigits]

theorem toList_toString_int (n : Int) :
    (toString n).toList =
      if 0 ≤ n then Nat.toDigits 10 n.natAbs else '-' :: Nat.toDigits 10 n.natAbs := by
  rw [Int.toString_eq_repr, Int.repr_eq_if]
  by_cases hn : 0 ≤ n
  · rw [if_pos hn, if_pos hn, Nat.toList_repr, show n.toNat = n.natAbs by omega]
  · rw [if_neg hn, if_neg hn, String.toList_append, Nat.toList_repr,
      show (-n).toNat = n.natAbs by omega]
    rfl

/-- An integer that is not too long is read back from what it is written as. -/
theorem plainInt?_toString {n : Int} (h : exceedsDigitLimit n = false) :
    plainInt? (toString n).toList = some n := by
  have hl : (Nat.toDigits 10 n.natAbs).length ≤ digitLimit := by
    simpa [exceedsDigitLimit] using h
  rw [toList_toString_int]
  by_cases hn : 0 ≤ n
  · have hne : ∀ rest, Nat.toDigits 10 n.natAbs ≠ '-' :: rest := by
      intro rest he
      have hd := List.all_eq_true.mp (all_isDigit_toDigits n.natAbs) '-' (by simp [he])
      exact absurd hd (by decide)
    rw [if_pos hn, plainInt?.eq_2 _ hne, plainNat?_toDigits hl]
    change some (n.natAbs : Int) = some n
    rw [Int.natAbs_of_nonneg hn]
  · rw [if_neg hn, plainInt?, plainNat?_toDigits hl]
    change some (-(n.natAbs : Int)) = some n
    rw [show -(n.natAbs : Int) = n by omega]

theorem not_mem_toString {n : Int} {c : Char} (hc : c ≠ '-') (hd : c.isDigit = false) :
    c ∉ (toString n).toList := by
  have hn : c ∉ Nat.toDigits 10 n.natAbs := by
    intro hm
    have := List.all_eq_true.mp (all_isDigit_toDigits n.natAbs) c hm
    simp [hd] at this
  rw [toList_toString_int]
  split <;> simp [hn, hc]

end SearchFilter
