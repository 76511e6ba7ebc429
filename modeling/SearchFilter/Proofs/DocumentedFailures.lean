import SearchFilter.Proofs.EntryPoints
import SearchFilter.Proofs.JoinedFilter

namespace SearchFilter

namespace Compiler

variable {compiler : Compiler} {text : String} {now : Option Moment}

/-- Both ways of compiling fail for the same date that is not in the calendar. -/
def RejectsDate (compiler : Compiler) (text : String) (now : Option Moment) : Prop :=
  ∃ term position fault,
    (compiler.compile text now).outcome = .error (.impossibleDate term position fault) ∧
    (compiler.compileStrictly text now).outcome = .error (.impossibleDate term position fault)

/-- Seconds of an amount with 4292 digits can always be written. So a text without longer runs of
digits can fail in two ways only. -/
theorem drops_or_compiles_or_rejectsDate (hd : DigitRunsWithin 4292 text) :
    compiler.Drops text now ∨ compiler.Compiles text now ∨ compiler.RejectsDate text now := by
  have hopens : ¬OpensWithLongAmount text := not_opensWithLongAmount hd (by decide)
  rcases Expression.parse_of_not_opensWithLongAmount hopens with
    ⟨expression, hp⟩ | ⟨column, expected, hp⟩
  · rcases compiles_or_fails_of_parse hp with hc | ⟨failure, -, hcompile, hstrict⟩
    · exact .inr (.inl hc)
    · obtain ⟨term, position, fault, rfl⟩ := compile_error hp hd hcompile
      exact .inr (.inr ⟨term, position, fault, hcompile, hstrict⟩)
  · exact .inl (drops_of_parse hp)

/-- For a text without a run of more than 4292 digits the strict entry point gives a filter or
reports that the text is malformed or that a date is not in the calendar, and the silent one gives a
filter or reports such a date. No other failure can arise, whatever the time. -/
theorem documented_failures (hd : DigitRunsWithin 4292 text) (compiler : Compiler)
    (now : Option Moment) :
    ((∃ output, (compiler.compileStrictly text now).outcome = .ok output) ∨
      (∃ column expected, (compiler.compileStrictly text now).outcome =
        .error (.malformed text column expected)) ∨
      ∃ term position fault, (compiler.compileStrictly text now).outcome =
        .error (.impossibleDate term position fault)) ∧
    ((∃ output, (compiler.compile text now).outcome = .ok output) ∨
      ∃ term position fault, (compiler.compile text now).outcome =
        .error (.impossibleDate term position fault)) ∧
    ∀ failure, (compiler.compileStrictly text now).outcome = .error failure ∨
        (compiler.compile text now).outcome = .error failure →
      (∀ item, failure ≠ .foreignItem item) ∧ failure ≠ .dateFieldTooLarge ∧
        failure ≠ .dateFieldTooSmall ∧ failure ≠ .dateFieldBeyondWord ∧
        (∀ digits, failure ≠ .amountTooLong digits) ∧ failure ≠ .resultTooLong := by
  have houtcome : compiler.Drops text now ∨ compiler.Compiles text now ∨
    compiler.RejectsDate text now := drops_or_compiles_or_rejectsDate hd
  rcases houtcome with ⟨column, expected, -, -, hstrict, hcompile⟩ |
    ⟨output, -, hcompile, hstrict⟩ | ⟨term, position, fault, hcompile, hstrict⟩
  · rw [hstrict, hcompile]
    refine ⟨.inr (.inl ⟨_, _, rfl⟩), .inl ⟨_, rfl⟩, fun failure hf => ?_⟩
    rcases hf with hf | hf
    · cases hf
      simp
    · cases hf
  · rw [hstrict, hcompile]
    refine ⟨.inl ⟨_, rfl⟩, .inl ⟨_, rfl⟩, fun failure hf => ?_⟩
    rcases hf with hf | hf <;> cases hf
  · rw [hstrict, hcompile]
    refine ⟨.inr (.inr ⟨_, _, _, rfl⟩), .inr ⟨_, _, _, rfl⟩, fun failure hf => ?_⟩
    rcases hf with hf | hf <;>
      · cases hf
        simp

end Compiler

/-- A duration of some years, alone. -/
def yearsText (digits : List Char) : String := String.ofList (digits ++ ['y'])

theorem digitRunsWithin_yearsText {digits : List Char} {limit : Nat} (h : digits.length ≤ limit) :
    DigitRunsWithin limit (yearsText digits) := by
  intro run hi hd
  rw [yearsText, String.toList_ofList] at hi
  by_contra hlong
  have hle := hi.length_le
  rw [List.length_append, List.length_singleton] at hle
  have hall : run = digits ++ ['y'] := hi.eq_of_length (by simp; omega)
  have hunit : isDigit 'y' = true := List.all_eq_true.mp hd 'y' (by simp [hall])
  exact absurd hunit (by decide)

theorem documented_failures_longest_amount :
    DigitRunsWithin 4292 (yearsText (List.replicate 4292 '9')) ∧
      ((∃ output, ((⟨.startOfDay ⟨2020, 1, 1, by decide, by decide⟩⟩ : Compiler).compile
          (yearsText (List.replicate 4292 '9')) none).outcome = .ok output) ∨
        ∃ term position fault, ((⟨.startOfDay ⟨2020, 1, 1, by decide, by decide⟩⟩ :
          Compiler).compile (yearsText (List.replicate 4292 '9')) none).outcome =
            .error (.impossibleDate term position fault)) := by
  have hd : DigitRunsWithin 4292 (yearsText (List.replicate 4292 '9')) :=
    digitRunsWithin_yearsText (Nat.le_of_eq List.length_replicate)
  exact ⟨hd, (Compiler.documented_failures hd
    ⟨.startOfDay ⟨2020, 1, 1, by decide, by decide⟩⟩ none).2.1⟩

theorem parse_yearsText {digits : List Char} (hne : digits ≠ []) (hd : digits.all isDigit)
    (hl : digits.length ≤ digitLimit) :
    Expression.parse (yearsText digits) =
      .ok ⟨.timed none (.duration ⟨digitsValue digits, .year⟩), []⟩ := by
  have hheads : (Lexeme.duration digits .year).Heads (yearsText digits).toList [] :=
    ⟨⟨hne, hd⟩, by simp [yearsText, Lexeme.written, DurationUnit.suffix], fun _ => rfl⟩
  have hspan : (Lexeme.duration digits .year).span? 0 =
      some (.ok (.duration ⟨digitsValue digits, .year⟩)) := by
    rw [Lexeme.span?, if_neg (Nat.not_lt.mpr hl)]
  exact Expression.parse_eq_ok_iff.mpr
    ⟨[⟨0, .duration digits .year⟩], .lexeme hheads .nil, _, [], rfl, .span hspan, .nil⟩

theorem digitsValue_nines (count : Nat) :
    digitsValue (List.replicate count '9') + 1 = 10 ^ count := by
  have hnine : digitValue? '9' = some 9 := by decide
  induction count with
  | zero => rfl
  | succ count ih =>
    rw [digitsValue] at ih ⊢
    rw [List.replicate_succ', List.foldl_append, List.foldl_cons, List.foldl_nil, hnine,
      Option.getD_some, Nat.pow_succ, ← ih]
    omega

theorem Duration.long_epochBefore {length : Duration}
    (h : ((10 ^ digitLimit + 10 ^ 19 : Nat) : Int) ≤ length.seconds) (now : Moment) :
    exceedsDigitLimit (length.epochBefore now) = true := by
  have hn := now.natAbs_epoch_le
  rw [exceedsDigitLimit, decide_eq_true_eq]
  by_contra hshort
  have hlt := (Nat.length_toDigits_le_iff (by decide) (by decide)).mp (Nat.not_lt.mp hshort)
  rw [epochBefore] at hlt
  generalize 10 ^ digitLimit = limit at h hlt
  omega

/-- One digit more is too many: the seconds of as many years as 4293 or more nines write are too
long to write, whatever the time. -/
theorem compile_longer_amount {count : Nat} (h : digitLimit ≤ count + 7) (hl : count ≤ digitLimit)
    (compiler : Compiler) (now : Option Moment) :
    (compiler.compile (yearsText (List.replicate count '9')) now).outcome =
      .error .resultTooLong := by
  have hcount : 20 ≤ count := by
    have hlimit : 27 ≤ digitLimit := by decide
    omega
  have hvalue := digitsValue_nines count
  have hlong : exceedsDigitLimit (Duration.epochBefore
      ⟨digitsValue (List.replicate count '9'), .year⟩ (now.getD compiler.clock)) = true := by
    apply Duration.long_epochBefore
    have hlimit : 10 ^ digitLimit ≤ 10 ^ count * 10 ^ 7 := by
      rw [← Nat.pow_add]
      exact Nat.pow_le_pow_right (by decide) h
    have hbig : 10 ^ 20 ≤ 10 ^ count := Nat.pow_le_pow_right (by decide) hcount
    simp only [Duration.seconds, DurationUnit.seconds]
    omega
  have hne : List.replicate count '9' ≠ [] := by
    rw [Ne, List.replicate_eq_nil_iff]
    omega
  have hdigits : (List.replicate count '9').all isDigit :=
    List.all_eq_true.mpr fun c hm => List.eq_of_mem_replicate hm ▸ (by decide)
  have hwritten : Term.written (now.getD compiler.clock)
      (.timed none (.duration ⟨digitsValue (List.replicate count '9'), .year⟩)) =
        .error .resultTooLong := by
    rw [Term.written, Term.constraints]
    change (Constraint.writable _).map Chain.single = _
    rw [Constraint.writable, Option.getD_none, if_pos hlong]
    rfl
  rw [Compiler.compile_of_parse
    (parse_yearsText hne hdigits (by rwa [List.length_replicate]))]
  simp only [Expression.written, Expression.chain, Chain.ofLinks, Chain.traverse, hwritten]
  rfl

end SearchFilter
