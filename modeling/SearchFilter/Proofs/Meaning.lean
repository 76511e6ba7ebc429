import Mathlib.Data.Set.Defs
import SearchFilter.Proofs.OutputReading

namespace SearchFilter

/-- What a filter can ask about a document. -/
structure Document where
  tags : Set String
  date : Int

def Constraint.Holds (document : Document) : Constraint → Prop
  | .tagged name => name ∈ document.tags
  | .untagged name => name ∉ document.tags
  | .dated .greater second => second < document.date
  | .dated .less second => document.date < second

/-- Whether a document meets a term. A date alone is one condition with two bounds. -/
def Term.Holds (now : Moment) (document : Document) : Term → Prop
  | .tag name => name ∈ document.tags
  | .notTag name => name ∉ document.tags
  | .timed (some .greater) (.date literal) =>
    ∃ range, literal.range = .ok range ∧ range.startEpoch < document.date
  | .timed (some .less) (.date literal) =>
    ∃ range, literal.range = .ok range ∧ document.date < range.endEpoch
  | .timed none (.date literal) =>
    ∃ range, literal.range = .ok range ∧
      range.startEpoch < document.date ∧ document.date < range.endEpoch
  | .timed (some .less) (.duration length) => document.date < now.epoch - length.seconds
  | .timed (some .greater) (.duration length) => now.epoch - length.seconds < document.date
  | .timed none (.duration length) => now.epoch - length.seconds < document.date

/-- Whether a document meets an expression, whose ANDs bind tighter than its ORs. -/
def Expression.Holds (now : Moment) (document : Document) (expression : Expression) : Prop :=
  expression.chain.Holds (Term.Holds now document)

/-- Whether a document meets a backend filter, whose ANDs bind tighter than its ORs. -/
def Chain.Selects (filter : Chain Constraint) (document : Document) : Prop :=
  filter.Holds (Constraint.Holds document)

theorem Term.Demands.isConjunction {now : Moment} {term : Term} {demands : Chain Constraint}
    (h : term.Demands now demands) : demands.IsConjunction := by
  cases h with
  | whole => exact ⟨rfl, trivial⟩
  | _ => trivial

/-- A document meets a term if it meets all that the term demands. -/
theorem Term.Demands.holds_iff {now : Moment} {term : Term} {demands : Chain Constraint}
    (h : term.Demands now demands) {document : Document} :
    term.Holds now document ↔ ∀ constraint ∈ demands.operands, constraint.Holds document := by
  cases h with
  | tag => simp [Holds, Chain.operands, Constraint.Holds]
  | notTag => simp [Holds, Chain.operands, Constraint.Holds]
  | @duration bound length =>
    rcases bound with _ | _ | _ <;>
      simp [Holds, Chain.operands, Constraint.Holds, Duration.epochBefore]
  | @bounded comparison literal range hr =>
    cases comparison <;> simp [Holds, Chain.operands, Constraint.Holds, DateRange.edge, hr]
  | whole hr => simp [Holds, Chain.operands, Constraint.Holds, hr]

/-- The demands of an expression select the documents that meet it. -/
theorem Expression.holds_iff {now : Moment} {expression : Expression} {filter : Chain Constraint}
    (h : expression.constraints now = .ok filter) {document : Document} :
    expression.Holds now document ↔ filter.Selects document := by
  obtain ⟨inners, ht, rfl⟩ := map_eq_ok_iff.mp h
  have hr := Chain.traverse_eq_ok_iff.mp ht
  have hconj : ∀ inner ∈ inners.operands, inner.IsConjunction := by
    intro inner hi
    obtain ⟨term, _, hd⟩ := hr.exists_mem hi
    exact (Term.constraints_eq_ok_iff.mp hd).isConjunction
  rw [Chain.Selects, Chain.holds_flatten_iff hconj]
  exact (hr.mono fun _ _ hd => (Term.constraints_eq_ok_iff.mp hd).holds_iff).holds_iff

/-- Compiling preserves meaning: the text that it gives can be read as one filter only, and that
filter selects the documents that meet the expression. -/
theorem Compiler.compile_preserves_meaning {compiler : Compiler} {text output : String}
    {now : Option Moment} (h : (compiler.compile text now).outcome = .ok output)
    (hne : output ≠ "") :
    ∃ expression filter, tokenize text = .ok expression.tokens ∧
      Expression.parse text = .ok expression ∧
      (∀ other : Chain Constraint, other.Reads (spacedWords output) ↔ other = filter) ∧
      ∀ document, filter.Selects document ↔
        expression.Holds (now.getD compiler.clock) document := by
  obtain ⟨expression, filter, hp, hc, rfl, hr⟩ := compile_filter h hne
  obtain ⟨atoms, ha, hw⟩ := Chain.exists_atoms hr
  have hreads : filter.Reads (spacedWords filter.text) := ⟨atoms, hw.symm, ha⟩
  refine ⟨expression, filter, tokenize_eq_ok_iff.mpr ⟨expression, hp, rfl⟩, hp, fun other => ?_,
    fun document => ?_⟩
  · constructor
    · exact fun ho => ho.unique hreads
    · rintro rfl
      exact hreads
  · exact (Expression.holds_iff hc).symm

theorem compile_preserves_meaning_bare_date :
    ((⟨.startOfDay ⟨2020, 1, 1, by decide, by decide⟩⟩ : Compiler).compile
        "vim AND 2019 OR <7d" none).outcome =
          .ok "tags = vim AND date > 1546300800 AND date < 1577836799 OR date < 1577232000" ∧
      "tags = vim AND date > 1546300800 AND date < 1577836799 OR date < 1577232000" ≠ "" ∧
      ∃ filter : Chain Constraint, filter.Reads (spacedWords
          "tags = vim AND date > 1546300800 AND date < 1577836799 OR date < 1577232000") ∧
        ∀ document, filter.Selects document ↔
          Expression.Holds (.startOfDay ⟨2020, 1, 1, by decide, by decide⟩) document
            ⟨.tag "vim", [(.and, .timed none (.date ⟨2019, none, none, "2019", 8⟩)),
              (.or, .timed (some .less) (.duration ⟨7, .day⟩))]⟩ := by
  have h : ((⟨.startOfDay ⟨2020, 1, 1, by decide, by decide⟩⟩ : Compiler).compile
      "vim AND 2019 OR <7d" none).outcome =
        .ok "tags = vim AND date > 1546300800 AND date < 1577836799 OR date < 1577232000" :=
    eq_ok_of_toOption (by decide +kernel)
  have hne : "tags = vim AND date > 1546300800 AND date < 1577836799 OR date < 1577232000" ≠ "" :=
    by decide
  have hp : Expression.parse "vim AND 2019 OR <7d" = .ok
      ⟨.tag "vim", [(.and, .timed none (.date ⟨2019, none, none, "2019", 8⟩)),
        (.or, .timed (some .less) (.duration ⟨7, .day⟩))]⟩ := eq_ok_of_toOption (by decide +kernel)
  obtain ⟨_, filter, _, hexpression, hreads, hselects⟩ := Compiler.compile_preserves_meaning h hne
  cases hp.symm.trans hexpression
  exact ⟨h, hne, filter, (hreads filter).mpr rfl, hselects⟩

end SearchFilter
