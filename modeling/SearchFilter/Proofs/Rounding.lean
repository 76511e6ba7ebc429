import Mathlib.Algebra.Group.Nat.Defs
import SearchFilter.Proofs.DecimalNumber
import SearchFilter.Rounding

namespace SearchFilter

section

variable {num other : Int} {den : Nat}

theorem roundHalfEven_bounds (num : Int) (den : Nat) :
    num / den ≤ roundHalfEven num den ∧ roundHalfEven num den ≤ num / den + 1 := by
  rw [roundHalfEven]
  split <;> omega

theorem roundHalfEven_mono (hd : 0 < den) (h : num ≤ other) :
    roundHalfEven num den ≤ roundHalfEven other den := by
  have hlow : num / (den : Int) ≤ other / den := Int.ediv_le_ediv (Int.natCast_pos.mpr hd) h
  rcases Int.lt_or_eq_of_le hlow with hlt | heq
  · have hup := (roundHalfEven_bounds num den).2
    have hdown := (roundHalfEven_bounds other den).1
    omega
  · -- between the same neighbours the remainders decide
    have hnum := Int.mul_ediv_add_emod num den
    have hother := Int.mul_ediv_add_emod other den
    rw [heq] at hnum
    have hrem : num % (den : Int) ≤ other % den := by omega
    simp only [roundHalfEven, heq]
    split <;> split <;> omega

/-- A quotient that is more than a half below a whole number is not rounded to it. -/
theorem roundHalfEven_lt {bound : Int} (hd : 0 < den) (h : 2 * num + den < 2 * (bound * den)) :
    roundHalfEven num den < bound := by
  have hden : (0 : Int) < den := Int.natCast_pos.mpr hd
  have hlow : num / (den : Int) < bound := Int.ediv_lt_of_lt_mul hden (by omega)
  have hup := (roundHalfEven_bounds num den).2
  rcases Int.lt_or_eq_of_le (Int.add_one_le_of_lt hlow) with hnext | rfl
  · omega
  · have hnum := Int.mul_ediv_add_emod num den
    rw [Int.add_mul, Int.mul_comm _ (den : Int)] at h
    have hrem : 2 * (num % (den : Int)) < den := by omega
    rw [roundHalfEven, if_pos (.inl hrem)]
    exact hlow

theorem roundHalfEven_mul (num : Int) (hd : 0 < den) : roundHalfEven (num * den) den = num := by
  have hq : num * (den : Int) / den = num := Int.mul_ediv_cancel num (by omega)
  have hr : num * (den : Int) % den = 0 := Int.mul_emod_left num den
  rw [roundHalfEven, hq, hr, if_pos (.inl (by omega))]

/-- How many parts of a unit a quotient is rounded to. -/
def roundingScale (num : Int) (den : Nat) : Nat := 1 <<< binaryPlaces num den

theorem roundingScale_eq (num : Int) (den : Nat) :
    roundingScale num den = 2 ^ binaryPlaces num den := Nat.one_shiftLeft _

theorem roundingScale_pos (num : Int) (den : Nat) : (0 : Int) < roundingScale num den := by
  rw [roundingScale_eq]
  exact Int.natCast_pos.mpr (Nat.two_pow_pos _)

theorem roundedFloor_eq (num : Int) (den : Nat) :
    roundedFloor num den =
      roundHalfEven (num * roundingScale num den) den / roundingScale num den := rfl

/-- Rounding carries a quotient to the next whole number at most. -/
theorem roundedFloor_bounds (num : Int) (den : Nat) :
    num / den ≤ roundedFloor num den ∧ roundedFloor num den ≤ num / den + 1 := by
  have hscale := roundingScale_pos num den
  have hparts : num * roundingScale num den / den / roundingScale num den = num / den := by
    rw [Int.ediv_ediv_of_nonneg (Int.natCast_nonneg den), Int.mul_ediv_mul_of_pos_left _ _ hscale]
  have hnext : (num * roundingScale num den / den + 1 * roundingScale num den) /
      roundingScale num den = num / den + 1 := by
    rw [Int.add_mul_ediv_right _ _ (Int.ne_of_gt hscale), hparts]
  obtain ⟨hdown, hup⟩ := roundHalfEven_bounds (num * roundingScale num den) den
  rw [roundedFloor_eq]
  constructor
  · rw [← hparts]
    exact Int.ediv_le_ediv hscale hdown
  · rw [← hnext]
    exact Int.ediv_le_ediv hscale (by omega)

theorem natAbs_roundedFloor_le (num : Int) (den : Nat) :
    (roundedFloor num den).natAbs ≤ num.natAbs + 1 := by
  have hquotient := Int.natAbs_ediv_le_natAbs num den
  have hbounds := roundedFloor_bounds num den
  omega

/-- Rounding changes no quotient that is a whole number. -/
theorem roundedFloor_mul (num : Int) (hd : 0 < den) : roundedFloor (num * den) den = num := by
  rw [roundedFloor_eq, Int.mul_right_comm, roundHalfEven_mul _ hd]
  exact Int.mul_ediv_cancel num (Int.ne_of_gt (roundingScale_pos (num * den) den))

/-- Rounding carries no quotient to the next whole number if its parts are fine enough. -/
theorem roundedFloor_of_fine (hd : 0 < den) (h : den < 2 * roundingScale num den) :
    roundedFloor num den = num / den := by
  have hlow := (roundedFloor_bounds num den).1
  have hlt : roundedFloor num den < num / den + 1 := by
    rw [roundedFloor_eq]
    refine Int.ediv_lt_of_lt_mul (roundingScale_pos num den) (roundHalfEven_lt hd ?_)
    have hnum := Int.mul_ediv_add_emod num den
    have hrem := Int.emod_lt_of_pos num (Int.natCast_pos.mpr hd)
    have hgap : num + 1 ≤ (num / den + 1) * den := by
      rw [Int.add_mul, Int.mul_comm _ (den : Int)]
      omega
    have hscaled : num * roundingScale num den + roundingScale num den ≤
        (num / den + 1) * roundingScale num den * den := by
      have hle := Int.mul_le_mul_of_nonneg_right hgap (Int.natCast_nonneg (roundingScale num den))
      rwa [Int.add_mul, Int.one_mul, Int.mul_right_comm] at hle
    omega
  omega

/-- The size of a quotient that is not a whole number depends on its floor only. -/
theorem natAbs_ediv_eq (hd : 0 < den) (hrem : 0 < num % (den : Int)) :
    num.natAbs / den = if 0 ≤ num / (den : Int) then (num / (den : Int)).natAbs
      else (num / (den : Int)).natAbs - 1 := by
  have hden : (0 : Int) < den := Int.natCast_pos.mpr hd
  have hsign := Int.ediv_nonneg_iff_of_pos (a := num) hden
  have hcast := Int.natCast_ediv num.natAbs den
  by_cases hnonneg : 0 ≤ num
  · rw [Int.natAbs_of_nonneg hnonneg] at hcast
    rw [if_pos (hsign.mpr hnonneg)]
    omega
  · have hneg : (num.natAbs : Int) = -num := Int.ofNat_natAbs_of_nonpos (by omega)
    have hdvd : ¬(den : Int) ∣ num := fun h => by
      rw [Int.dvd_iff_emod_eq_zero.mp h] at hrem
      exact Int.lt_irrefl _ hrem
    rw [hneg, Int.neg_ediv, if_neg hdvd, Int.sign_eq_one_of_pos hden] at hcast
    rw [if_neg (fun h => hnonneg (hsign.mp h))]
    omega

theorem roundedFloor_mono (hd : 0 < den) (h : num ≤ other) :
    roundedFloor num den ≤ roundedFloor other den := by
  have hden : (0 : Int) < den := Int.natCast_pos.mpr hd
  have hup := (roundedFloor_bounds num den).2
  have hdown := (roundedFloor_bounds other den).1
  have hlow : num / (den : Int) ≤ other / den := Int.ediv_le_ediv hden h
  rcases Int.lt_or_eq_of_le hlow with hlt | heq
  · omega
  · -- of one floor: a whole number is kept, and all else is rounded to the same parts
    have hnum := Int.mul_ediv_add_emod num den
    have hother := Int.mul_ediv_add_emod other den
    rcases Int.lt_or_eq_of_le (Int.emod_nonneg num (Int.ne_of_gt hden)) with hrem | hwhole
    · have hlater : 0 < other % (den : Int) := by
        rw [heq] at hnum
        omega
      have hscale : roundingScale num den = roundingScale other den := by
        simp only [roundingScale, binaryPlaces, natAbs_ediv_eq hd hrem, natAbs_ediv_eq hd hlater,
          heq]
      rw [roundedFloor_eq, roundedFloor_eq, hscale]
      refine Int.ediv_le_ediv (roundingScale_pos other den) (roundHalfEven_mono hd ?_)
      exact Int.mul_le_mul_of_nonneg_right h (Int.natCast_nonneg _)
    · have hkept := roundedFloor_mul (num / den) hd
      rw [Int.ediv_mul_cancel_of_emod_eq_zero hwhole.symm] at hkept
      omega

end

theorem stepsInOne_eq : stepsInOne = 2 ^ placesBehind := Nat.one_shiftLeft _

theorem stepsInOne_pos : 0 < stepsInOne := by
  rw [stepsInOne_eq]
  exact Nat.two_pow_pos _

theorem log2_lt_of_lt {n bits : Nat} (hbits : 0 < bits) (h : n < 2 ^ bits) :
    Nat.log2 n < bits := by
  rcases Nat.eq_zero_or_pos n with rfl | hpos
  · rwa [Nat.log2_zero]
  · exact (Nat.log2_lt (Nat.ne_of_gt hpos)).mpr h

/-- Of 53 bits none are spared as long as there are places behind the point. -/
theorem log2_mul_le {n : Nat} (hn : n < 2 ^ 53) (places : Nat) :
    Nat.log2 (n * 2 ^ places) - 52 ≤ places := by
  have hbits : n * 2 ^ places < 2 ^ (53 + places) := by
    rw [Nat.pow_add]
    exact Nat.mul_lt_mul_of_pos_right hn (Nat.two_pow_pos _)
  have hlog := log2_lt_of_lt (by omega) hbits
  omega

/-- A whole number of 53 bits has as many steps as it says. -/
theorem binarySteps_mul {n : Int} {den : Nat} (hd : 0 < den) (hn : n.natAbs < 2 ^ 53) :
    binarySteps (n * den) den = n * (stepsInOne : Nat) := by
  have hsize : (n * den * (stepsInOne : Nat)).natAbs / den = n.natAbs * 2 ^ placesBehind := by
    rw [Int.mul_right_comm, Int.natAbs_mul, Int.natAbs_natCast, Int.natAbs_mul,
      Int.natAbs_natCast, Nat.mul_div_cancel _ hd, stepsInOne_eq]
  have hspare := log2_mul_le hn placesBehind
  generalize hk : Nat.log2 (n.natAbs * 2 ^ placesBehind) - 52 = spare at hspare
  have hsteps : stepsInOne = 2 ^ (placesBehind - spare) * 2 ^ spare := by
    rw [stepsInOne_eq, ← Nat.pow_add, Nat.sub_add_cancel hspare]
  have hnum : n * den * (stepsInOne : Nat) =
      n * (2 ^ (placesBehind - spare) : Nat) * (den * 2 ^ spare : Nat) := by
    rw [hsteps, Int.natCast_mul, Int.natCast_mul]
    ac_rfl
  rw [binarySteps, hsize, hk, Nat.one_shiftLeft, hnum,
    roundHalfEven_mul _ (Nat.mul_pos hd (Nat.two_pow_pos _)), hsteps, Int.natCast_mul,
    Int.mul_assoc]

/-- Where the point of a decimal stands that comes to a whole number of at most 16 digits. -/
theorem digits_of_whole {size digits front behind whole : Nat} (hlow : 10 ^ (digits - 1) ≤ size)
    (hup : size < 10 ^ digits) (h : size * 10 ^ front = whole * 10 ^ behind) (hpos : 0 < whole)
    (hwhole : whole < 10 ^ 16) : behind < digits + front ∧ digits + front ≤ 16 + behind := by
  have hten : ∀ power, 0 < 10 ^ power := fun _ => Nat.pow_pos (by decide)
  constructor
  · have hlt : 10 ^ behind < 10 ^ (digits + front) := by
      calc 10 ^ behind ≤ whole * 10 ^ behind := Nat.le_mul_of_pos_left _ hpos
        _ = size * 10 ^ front := h.symm
        _ < 10 ^ digits * 10 ^ front := Nat.mul_lt_mul_of_pos_right hup (hten front)
        _ = 10 ^ (digits + front) := (Nat.pow_add ..).symm
    exact (Nat.pow_lt_pow_iff_right (by decide)).mp hlt
  · have hlt : 10 ^ (digits - 1 + front) < 10 ^ (16 + behind) := by
      calc 10 ^ (digits - 1 + front) = 10 ^ (digits - 1) * 10 ^ front := Nat.pow_add ..
        _ ≤ size * 10 ^ front := Nat.mul_le_mul_right _ hlow
        _ = whole * 10 ^ behind := h
        _ < 10 ^ 16 * 10 ^ behind := Nat.mul_lt_mul_of_pos_right hwhole (hten behind)
        _ = 10 ^ (16 + behind) := (Nat.pow_add ..).symm
    have hpower := (Nat.pow_lt_pow_iff_right (by decide)).mp hlt
    omega

theorem pow_length_toDigits_le {n : Nat} (hn : 0 < n) :
    10 ^ ((Nat.toDigits 10 n).length - 1) ≤ n ∧ n < 10 ^ (Nat.toDigits 10 n).length := by
  have hpos : 0 < (Nat.toDigits 10 n).length := List.length_pos_iff.mpr Nat.toDigits_ne_nil
  refine ⟨Nat.le_of_not_lt fun hlt => ?_,
    (Nat.length_toDigits_le_iff (by decide) hpos).mp (Nat.le_refl _)⟩
  rcases Nat.eq_zero_or_pos ((Nat.toDigits 10 n).length - 1) with hone | hmore
  · rw [hone] at hlt
    omega
  · have hle := (Nat.length_toDigits_le_iff (by decide) hmore).mpr hlt
    omega

/-- A decimal that is a whole number of 53 bits is taken for that number. -/
theorem BinaryDecimal.ofDecimal_of_whole {mantissa exponent n : Int}
    (h : mantissa * (10 ^ exponent.toNat : Nat) = n * (10 ^ (-exponent).toNat : Nat))
    (hn : n.natAbs < 2 ^ 53) : ofDecimal mantissa exponent = whole n := by
  have hten : ∀ power, 0 < 10 ^ power := fun _ => Nat.pow_pos (by decide)
  have hsize : mantissa.natAbs * 10 ^ exponent.toNat = n.natAbs * 10 ^ (-exponent).toNat := by
    have habs := congrArg Int.natAbs h
    rwa [Int.natAbs_mul, Int.natAbs_mul, Int.natAbs_natCast, Int.natAbs_natCast] at habs
  have hzero : mantissa = 0 ↔ n = 0 := by
    have hden := Nat.ne_of_gt (hten (-exponent).toNat)
    have hnum := Nat.ne_of_gt (hten exponent.toNat)
    rw [← Int.natAbs_eq_zero, ← Int.natAbs_eq_zero (a := n)]
    constructor
    · intro hz
      rw [hz, Nat.zero_mul] at hsize
      exact (Nat.mul_eq_zero.mp hsize.symm).resolve_right hden
    · intro hz
      rw [hz, Nat.zero_mul] at hsize
      exact (Nat.mul_eq_zero.mp hsize).resolve_right hnum
  by_cases hm : mantissa = 0
  · rw [ofDecimal, if_pos (.inl hm), hzero.mp hm]
  · have hpos : 0 < mantissa.natAbs := Int.natAbs_pos.mpr hm
    have hwhole : 0 < n.natAbs := Int.natAbs_pos.mpr fun hz => hm (hzero.mpr hz)
    obtain ⟨hlow, hup⟩ := pow_length_toDigits_le hpos
    obtain ⟨hleast, hmost⟩ := digits_of_whole hlow hup hsize hwhole
      (Nat.lt_of_lt_of_le hn (by decide))
    have hsteps : (n * (stepsInOne : Nat)).natAbs < (1 <<< placesInFront) * stepsInOne := by
      rw [Int.natAbs_mul, Int.natAbs_natCast]
      refine Nat.mul_lt_mul_of_pos_right (Nat.lt_of_lt_of_le hn ?_) stepsInOne_pos
      rw [Nat.one_shiftLeft]
      exact Nat.pow_le_pow_right (by decide) (by decide)
    have hcount : binarySteps (mantissa * (Nat.pow 10 exponent.toNat : Nat))
        (Nat.pow 10 (-exponent).toNat) = n * (stepsInOne : Nat) :=
      (congrArg (binarySteps · _) h).trans (binarySteps_mul (hten _) hn)
    have hinOne : ((stepsInOne : Nat) : Int) ≠ 0 := by
      have := stepsInOne_pos
      omega
    rw [ofDecimal, if_neg (by omega), if_neg (by omega)]
    simp only [hcount]
    rw [if_neg (Nat.not_le.mpr hsteps), if_pos (Int.mul_emod_left _ _),
      Int.mul_ediv_cancel _ hinOne]

end SearchFilter
