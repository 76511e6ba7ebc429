import SearchFilter.Proofs.FilterWords
import SearchFilter.Proofs.TermShape

namespace SearchFilter

theorem Term.Demands.readable {now : Moment} {term : Term} {demands : Chain Constraint}
    (h : term.Demands now demands) (hp : term.Proper)
    (hs : ∀ constraint ∈ demands.operands, constraint.Short) :
    ∀ constraint ∈ demands.operands, constraint.Readable := by
  intro constraint hm
  have hc := hs constraint hm
  cases h with
  | tag =>
    cases List.mem_singleton.mp hm
    exact hp.1
  | notTag =>
    cases List.mem_singleton.mp hm
    exact hp
  | duration =>
    cases List.mem_singleton.mp hm
    exact hc
  | bounded =>
    cases List.mem_singleton.mp hm
    exact hc
  | whole =>
    rcases List.mem_cons.mp hm with rfl | hm
    · exact hc
    · cases List.mem_singleton.mp hm
      exact hc

/-- A compiled filter is the text of the demands of the expression that it was compiled from, and
these can be read back from it. -/
theorem Compiler.compile_filter {compiler : Compiler} {text output : String} {now : Option Moment}
    (h : (compiler.compile text now).outcome = .ok output) (hne : output ≠ "") :
    ∃ expression filter, Expression.parse text = .ok expression ∧
      expression.constraints (now.getD compiler.clock) = .ok filter ∧ output = filter.text ∧
      ∀ constraint ∈ filter.operands, constraint.Readable := by
  rw [compile_outcome] at h
  split at h
  next expression hp =>
    obtain ⟨filter, hw, rfl⟩ := map_eq_ok_iff.mp h
    obtain ⟨hc, hs⟩ := Expression.constraints_of_written hw
    refine ⟨expression, filter, hp, hc, rfl, fun constraint hm => ?_⟩
    obtain ⟨inners, ht, rfl⟩ := map_eq_ok_iff.mp hc
    obtain ⟨inner, hi, hm⟩ := Chain.mem_operands_flatten_iff.mp hm
    obtain ⟨term, hmem, hd⟩ := (Chain.traverse_eq_ok_iff.mp ht).exists_mem hi
    exact (Term.constraints_eq_ok_iff.mp hd).readable (Expression.proper_of_parse hp term hmem)
      (fun other ho => hs other (Chain.mem_operands_flatten_iff.mpr ⟨inner, hi, ho⟩)) constraint hm
  next => exact absurd (Except.ok.inj h).symm hne
  next => cases h

/-- A compiled filter falls into atoms in one way, which are read as the demands of its expression
and as nothing else; so only texts with the same demands compile to the same filter. -/
theorem Compiler.compile_unambiguous {compiler : Compiler} {text output : String}
    {now : Option Moment} (h : (compiler.compile text now).outcome = .ok output)
    (hne : output ≠ "") :
    ∃ expression filter atoms,
      tokenize text = .ok expression.tokens ∧ Expression.parse text = .ok expression ∧
      expression.constraints (now.getD compiler.clock) = .ok filter ∧
      atoms.laidOut = spacedWords output ∧ filter.Related Constraint.Worded atoms ∧
      (∀ others : Chain (List (List Char)), others.laidOut = spacedWords output →
        (∀ atom ∈ others.operands, IsAtom atom) → others = atoms) ∧
      (∀ other : Chain Constraint, other.Related Constraint.Worded atoms → other = filter) ∧
      ∀ (again : Compiler) (same : String) (later : Option Moment) (rival : Expression)
        (demands : Chain Constraint), (again.compile same later).outcome = .ok output →
        Expression.parse same = .ok rival →
        rival.constraints (later.getD again.clock) = .ok demands → demands = filter := by
  obtain ⟨expression, filter, hp, hc, rfl, hr⟩ := compile_filter h hne
  obtain ⟨atoms, ha, hw⟩ := Chain.exists_atoms hr
  refine ⟨expression, filter, atoms, tokenize_eq_ok_iff.mpr ⟨expression, hp, rfl⟩, hp, hc, hw.symm,
    ha, ?_, ?_, ?_⟩
  · intro others ho hatoms
    exact Chain.laidOut_inj hatoms ha.isAtom (ho.trans hw)
  · intro other ho
    exact Chain.Reads.unique ⟨atoms, rfl, ho⟩ ⟨atoms, rfl, ha⟩
  · intro again same later rival demands hsame hrival hdemands
    obtain ⟨found, result, hf, hres, htext, hread⟩ := compile_filter hsame hne
    cases Except.ok.inj (hrival.symm.trans hf)
    cases Except.ok.inj (hdemands.symm.trans hres)
    obtain ⟨others, ho, hv⟩ := Chain.exists_atoms hread
    exact Chain.Reads.unique ⟨others, rfl, ho⟩ ⟨atoms, by rw [← hw, htext, hv], ha⟩

theorem compile_unambiguous_bare_date :
    ((⟨.startOfDay ⟨2020, 1, 1, by decide, by decide⟩⟩ : Compiler).compile
        "2019 OR !AND" none).outcome =
          .ok "date > 1546300800 AND date < 1577836799 OR tags != AND" ∧
      "date > 1546300800 AND date < 1577836799 OR tags != AND" ≠ "" ∧
      ∃ atoms : Chain (List (List Char)), atoms.laidOut =
          spacedWords "date > 1546300800 AND date < 1577836799 OR tags != AND" ∧
        ∀ others : Chain (List (List Char)), others.laidOut =
            spacedWords "date > 1546300800 AND date < 1577836799 OR tags != AND" →
          (∀ atom ∈ others.operands, IsAtom atom) → others = atoms := by
  have h : ((⟨.startOfDay ⟨2020, 1, 1, by decide, by decide⟩⟩ : Compiler).compile
      "2019 OR !AND" none).outcome =
        .ok "date > 1546300800 AND date < 1577836799 OR tags != AND" :=
    eq_ok_of_toOption (by decide +kernel)
  have hne : "date > 1546300800 AND date < 1577836799 OR tags != AND" ≠ "" := by decide
  obtain ⟨_, _, atoms, _, _, _, hlaid, _, hunique, _⟩ := Compiler.compile_unambiguous h hne
  exact ⟨h, hne, atoms, hlaid, hunique⟩

end SearchFilter
