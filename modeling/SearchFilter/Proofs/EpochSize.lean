import SearchFilter.Proofs.RealDate
import SearchFilter.Proofs.Rounding
import SearchFilter.Proofs.TermShape

namespace SearchFilter

theorem CalendarDate.natAbs_dayNumber_le (date : CalendarDate) :
    date.dayNumber.natAbs ≤ 10000000 := by
  have hy := date.year_range
  have hm := date.month_range
  have hb := daysBeforeMonth_le date.year date.month
  have hd := date.day_le
  have hyear : daysBeforeYear date.year ≤ 9999 * 366 := by
    unfold daysBeforeYear
    omega
  rw [dayNumber]
  omega

theorem Moment.natAbs_utcMicros_le (moment : Moment) :
    moment.utcMicros.natAbs ≤ 1000000000000000000 := by
  have hd := moment.date.natAbs_dayNumber_le
  have hh := moment.hour_lt
  have hm := moment.minute_lt
  have hs := moment.second_lt
  have hu := moment.micro_lt
  have ho : (moment.offset.getD 0).natAbs < 86400000000 := by
    cases h : moment.offset with
    | none => decide
    | some ahead =>
      have := moment.offset_range ahead (by simp [h])
      simp only [Option.getD_some]
      omega
  rw [utcMicros, secondOfDay]
  omega

theorem Moment.natAbs_epoch_le (moment : Moment) : moment.epoch.natAbs ≤ 10 ^ 19 := by
  have hu := moment.natAbs_utcMicros_le
  have hr := natAbs_roundedFloor_le moment.utcMicros 1000000
  rw [epoch]
  omega

theorem exceedsDigitLimit_eq_false {n : Int} {digits : Nat} (hd : digits ≤ digitLimit)
    (h : n.natAbs < 10 ^ digits) : exceedsDigitLimit n = false := by
  have hn : n.natAbs < 10 ^ digitLimit :=
    Nat.lt_of_lt_of_le h (Nat.pow_le_pow_right (by decide) hd)
  have hl := (Nat.length_toDigits_le_iff (by decide) (by decide)).mpr hn
  rw [exceedsDigitLimit]
  simpa using hl

theorem DurationUnit.seconds_le (unit : DurationUnit) : unit.seconds ≤ 31536000 := by
  cases unit <;> decide

/-- The seconds of a duration have at most eight digits more than its amount. -/
theorem Duration.short_epochBefore {length : Duration} {digits : Nat} (hz : 0 ≤ length.amount)
    (h : length.amount.toNat < 10 ^ digits) (hd : 19 ≤ digits ∧ digits + 8 ≤ digitLimit)
    (now : Moment) : exceedsDigitLimit (length.epochBefore now) = false := by
  apply exceedsDigitLimit_eq_false hd.2
  have hn := now.natAbs_epoch_le
  obtain ⟨amount, ha⟩ := Int.eq_ofNat_of_zero_le hz
  rw [ha, Int.toNat_natCast] at h
  have hbig : 10 ^ 19 ≤ 10 ^ digits := Nat.pow_le_pow_right (by decide) hd.1
  have hproduct : amount * length.unit.seconds ≤ 10 ^ digits * 31536000 :=
    Nat.mul_le_mul (Nat.le_of_lt h) length.unit.seconds_le
  have hseconds : length.seconds = ((amount * length.unit.seconds : Nat) : Int) := by
    rw [seconds, ha, Int.natCast_mul]
  rw [epochBefore, hseconds, Nat.pow_add]
  omega

theorem Moment.short_epoch (moment : Moment) : exceedsDigitLimit moment.epoch = false := by
  have hn := moment.natAbs_epoch_le
  have hd : 20 ≤ digitLimit := by decide
  exact exceedsDigitLimit_eq_false hd (by omega)

theorem DateLiteral.Plain.storable {literal : DateLiteral} (h : literal.Plain) :
    literal.Storable := by
  have field : ∀ {n : Int}, 0 ≤ n → n ≤ 9999 → FitsDateField n := by
    intro n hl hu
    exact ⟨by omega, by omega⟩
  refine ⟨field h.year.1 h.year.2, fun month hm => ?_, fun day hd => ?_⟩
  · have hmonth := h.month month hm
    exact field hmonth.1 (by omega)
  · have hday := h.day day hd
    exact field hday.1 (by omega)

/-- A date that digits can write has a range or is not in the calendar. -/
theorem DateLiteral.Plain.range_error {literal : DateLiteral} (h : literal.Plain)
    {failure : Failure} (he : literal.range = .error failure) :
    ∃ fault, failure = .impossibleDate literal.text literal.position fault := by
  rcases range_cases h.storable with ⟨_, _, _, range, hr⟩ | ⟨fault, _, hr⟩
  · cases hr.symm.trans he
  · cases hr.symm.trans he
    exact ⟨fault, rfl⟩

/-- A constraint on a moment that a clock or a calendar can show is short enough to be written. -/
theorem Term.Demands.short {now : Moment} {term : Term} {demands : Chain Constraint}
    (h : term.Demands now demands) (hp : term.Proper)
    {digits : Nat} (hd : 19 ≤ digits ∧ digits + 8 ≤ digitLimit)
    (ha : ∀ bound length, term = .timed bound (.duration length) →
      length.amount.toNat < 10 ^ digits) :
    ∀ constraint ∈ demands.operands, constraint.Short := by
  intro constraint hm
  cases h with
  | tag => cases List.mem_singleton.mp hm; trivial
  | notTag => cases List.mem_singleton.mp hm; trivial
  | duration =>
    cases List.mem_singleton.mp hm
    exact Duration.short_epochBefore hp (ha _ _ rfl) hd now
  | @bounded comparison literal range =>
    cases List.mem_singleton.mp hm
    cases comparison with
    | greater => exact range.first.short_epoch
    | less => exact range.last.short_epoch
  | @whole literal range =>
    rcases List.mem_cons.mp hm with rfl | hm
    · exact range.first.short_epoch
    · cases List.mem_singleton.mp hm
      exact range.last.short_epoch

/-- Only a date that is not in the calendar keeps a term from demanding something. -/
theorem Term.constraints_error {now : Moment} {term : Term} {failure : Failure}
    (hp : term.Proper) (h : term.constraints now = .error failure) :
    ∃ bound literal fault, term = .timed bound (.date literal) ∧
      literal.range = .error failure ∧
      failure = .impossibleDate literal.text literal.position fault := by
  cases term with
  | tag name => cases h
  | notTag name => cases h
  | timed bound span =>
    cases span with
    | duration length => cases bound <;> cases h
    | date literal =>
      have hr : literal.range = .error failure := by
        cases bound with
        | none => exact map_eq_error_iff.mp h
        | some comparison => exact map_eq_error_iff.mp h
      have hplain : literal.Plain := hp
      obtain ⟨fault, hf⟩ := hplain.range_error hr
      exact ⟨bound, literal, fault, rfl, hr, hf⟩

/-- Only a date that is not in the calendar keeps a term from being written, if no amount is too
long. -/
theorem Term.written_error {now : Moment} {term : Term} {failure : Failure} (hp : term.Proper)
    {digits : Nat} (hd : 19 ≤ digits ∧ digits + 8 ≤ digitLimit)
    (ha : ∀ bound length, term = .timed bound (.duration length) →
      length.amount.toNat < 10 ^ digits)
    (h : term.written now = .error failure) :
    ∃ bound literal fault, term = .timed bound (.date literal) ∧
      literal.range = .error failure ∧
      failure = .impossibleDate literal.text literal.position fault := by
  cases hc : term.constraints now with
  | ok demands =>
    have hs := (Term.constraints_eq_ok_iff.mp hc).short hp hd ha
    rw [Term.written_eq_ok_iff.mpr ⟨hc, hs⟩] at h
    cases h
  | error other =>
    have hw : term.written now = .error other := by rw [written, hc]; rfl
    cases hw.symm.trans h
    exact constraints_error hp hc

theorem Expression.written_error {text : String} {expression : Expression} {now : Moment}
    {failure : Failure} (hp : Expression.parse text = .ok expression)
    (hd : DigitRunsWithin 4292 text) (h : expression.written now = .error failure) :
    ∃ bound literal fault, .timed bound (.date literal) ∈ expression.chain.operands ∧
      literal.range = .error failure ∧
      failure = .impossibleDate literal.text literal.position fault := by
  obtain ⟨term, hm, hw⟩ := Chain.traverse_error (map_eq_error_iff.mp h)
  have ha : ∀ bound length, term = .timed bound (.duration length) →
      length.amount.toNat < 10 ^ 4292 := by
    rintro bound length rfl
    exact Expression.amount_lt_of_parse hp hd hm
  obtain ⟨bound, literal, fault, rfl, hr, hf⟩ :=
    Term.written_error (Expression.proper_of_parse hp term hm) (by decide) ha hw
  exact ⟨bound, literal, fault, hm, hr, hf⟩

/-- A filter that is read but not compiled has a date that is not in the calendar, or a number that
is too long to be written. -/
theorem Expression.failure_of_written {text : String} {expression : Expression} {now : Moment}
    {failure : Failure} (hp : parse text = .ok expression)
    (h : expression.written now = .error failure) :
    (∃ term position fault, failure = .impossibleDate term position fault) ∨
      failure = .resultTooLong := by
  obtain ⟨term, hm, hw⟩ := Chain.traverse_error (map_eq_error_iff.mp h)
  cases hc : term.constraints now with
  | error other =>
    have he : term.written now = .error other := by rw [Term.written, hc]; rfl
    cases he.symm.trans hw
    obtain ⟨_, literal, fault, _, _, hf⟩ := Term.constraints_error (proper_of_parse hp term hm) hc
    exact .inl ⟨literal.text, literal.position, fault, hf⟩
  | ok demands =>
    have he : term.written now = demands.traverse Constraint.writable := by
      rw [Term.written, hc]
      rfl
    obtain ⟨constraint, _, hf⟩ := Chain.traverse_error (he.symm.trans hw)
    exact .inr (Constraint.writable_error hf)

end SearchFilter
