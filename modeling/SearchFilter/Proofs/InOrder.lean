import Mathlib.Data.List.Induction
import SearchFilter.Proofs.BareDate
import SearchFilter.Proofs.Meaning

namespace SearchFilter

/-- What a truth value and a further one come to with a connective between them. -/
def Connective.Combines : Connective → Prop → Prop → Prop
  | .and, before, next => before ∧ next
  | .or, before, next => before ∨ next

namespace Chain

variable {α : Type} {holds : α → Prop}

/-- What a chain comes to behind a truth value and a connective, where no connective binds tighter
than another and each one takes all that stands in front of it. -/
def Continues (holds : α → Prop) (before : Prop) (connective : Connective) : Chain α → Prop
  | single operand => connective.Combines before (holds operand)
  | link operand joint rest =>
    rest.Continues holds (connective.Combines before (holds operand)) joint

/-- Whether a chain holds where it is read strictly from left to right. -/
def HoldsInOrder (holds : α → Prop) : Chain α → Prop
  | single operand => holds operand
  | link operand joint rest => rest.Continues holds (holds operand) joint

/-- Whether a document meets a backend filter that is read strictly from left to right. -/
def SelectsInOrder (filter : Chain Constraint) (document : Document) : Prop :=
  filter.HoldsInOrder (Constraint.Holds document)

theorem continues_join {chain other : Chain α} {joint connective : Connective} {before : Prop} :
    (chain.join connective other).Continues holds before joint ↔
      other.Continues holds (chain.Continues holds before joint) connective := by
  induction chain generalizing before joint with
  | single operand => rfl
  | link operand next rest ih =>
    rw [join, Continues, ih]
    rfl

/-- A chain behind another one goes on from what that one comes to. -/
theorem holdsInOrder_join {chain other : Chain α} {connective : Connective} :
    (chain.join connective other).HoldsInOrder holds ↔
      other.Continues holds (chain.HoldsInOrder holds) connective := by
  cases chain with
  | single operand => rfl
  | link operand joint rest => exact continues_join

end Chain

/-- Whether a document meets an expression that is read strictly from left to right, with every
term as one operand. -/
def Expression.HoldsInOrder (now : Moment) (document : Document) (expression : Expression) : Prop :=
  expression.chain.HoldsInOrder (Term.Holds now document)

/-- A date alone behind an OR, with a document that lies not before the last second of the date.
Of the two bounds of such a date the OR takes the first one only; the second one is a condition on
all that stands in front. -/
def CutsOff (document : Document) (clause : Connective × Term) : Prop :=
  ∃ literal range, clause = (.or, .timed none (.date literal)) ∧ literal.range = .ok range ∧
    range.endEpoch ≤ document.date

/-- Terms that hold in order are cut off by the second bound of a date, and nothing behind the date
makes up for that: every later term holds exactly if it stands behind an AND. -/
def Expression.CutOff (now : Moment) (document : Document) (expression : Expression) : Prop :=
  ∃ front clause rest, expression.clauses = front ++ clause :: rest ∧
    (⟨expression.first, front⟩ : Expression).HoldsInOrder now document ∧
    CutsOff document clause ∧
    ∀ later ∈ rest, later.2.Holds now document ↔ later.1 = .and

theorem cutsOff_iff {document : Document} {connective : Connective} {literal : DateLiteral}
    {range : DateRange} (hr : literal.range = .ok range) :
    CutsOff document (connective, .timed none (.date literal)) ↔
      connective = .or ∧ range.endEpoch ≤ document.date := by
  constructor
  · intro h
    obtain ⟨_, same, he, hs, hend⟩ := h
    cases he
    cases hr.symm.trans hs
    exact ⟨rfl, hend⟩
  · intro h
    obtain ⟨rfl, hend⟩ := h
    exact ⟨literal, range, rfl, hr, hend⟩

theorem CutsOff.connective_eq {document : Document} {clause : Connective × Term}
    (h : CutsOff document clause) : clause.1 = .or := by
  obtain ⟨_, _, rfl, _⟩ := h
  rfl

theorem CutsOff.not_holds {now : Moment} {document : Document} {clause : Connective × Term}
    (h : CutsOff document clause) : ¬clause.2.Holds now document := by
  obtain ⟨literal, range, rfl, hr, hend⟩ := h
  intro hholds
  obtain ⟨same, hs, _, hlt⟩ := hholds
  cases hr.symm.trans hs
  omega

/-- The demands of a term, behind a truth value and a connective, come to what the term itself comes
to there, unless it cuts off what stands in front of it. -/
theorem Term.Demands.continues_iff {now : Moment} {term : Term} {demands : Chain Constraint}
    (h : term.Demands now demands) {document : Document} {connective : Connective}
    {before : Prop} :
    demands.Continues (Constraint.Holds document) before connective ↔
      connective.Combines before (term.Holds now document) ∧
        ¬(before ∧ CutsOff document (connective, term)) := by
  have hholds : term.Holds now document ↔ _ := h.holds_iff
  by_cases hbare : ∃ literal, term = .timed none (.date literal)
  · obtain ⟨literal, rfl⟩ := hbare
    cases h with
    | @whole _ range hr =>
      have hterm : (Term.timed none (.date literal)).Holds now document ↔
          range.startEpoch < document.date ∧ document.date < range.endEpoch := by
        rw [hholds]
        simp [Chain.operands, Constraint.Holds]
      rw [cutsOff_iff hr, hterm]
      cases connective with
      | and => simp [Chain.Continues, Connective.Combines, Constraint.Holds, and_assoc]
      | or =>
        simp only [Chain.Continues, Connective.Combines, Constraint.Holds, true_and]
        by_cases hlt : document.date < range.endEpoch
        · have hend : ¬range.endEpoch ≤ document.date := by omega
          simp [hlt, hend]
        · have hend : range.endEpoch ≤ document.date := by omega
          simp [hlt, hend]
  · have hcuts : ¬CutsOff document (connective, term) := by
      intro hc
      obtain ⟨literal, _, he, _⟩ := hc
      exact hbare ⟨literal, congrArg Prod.snd he⟩
    have hsingle : ∃ constraint, demands = .single constraint := by
      cases h with
      | whole => exact absurd ⟨_, rfl⟩ hbare
      | _ => exact ⟨_, rfl⟩
    obtain ⟨constraint, rfl⟩ := hsingle
    have hterm : term.Holds now document ↔ constraint.Holds document := by
      rw [hholds]
      simp [Chain.operands]
    rw [Chain.Continues, hterm]
    simp [hcuts]

theorem Term.Demands.holdsInOrder_iff {now : Moment} {term : Term} {demands : Chain Constraint}
    (h : term.Demands now demands) {document : Document} :
    demands.SelectsInOrder document ↔ term.Holds now document := by
  rw [h.holds_iff]
  cases h with
  | whole =>
    simp [Chain.SelectsInOrder, Chain.HoldsInOrder, Chain.Continues, Connective.Combines,
      Chain.operands]
  | _ => simp [Chain.SelectsInOrder, Chain.HoldsInOrder, Chain.operands]

namespace Expression

variable {now : Moment} {document : Document} {first term : Term}
  {clauses : List (Connective × Term)} {connective : Connective}

theorem chain_snoc :
    (⟨first, clauses ++ [(connective, term)]⟩ : Expression).chain =
      (⟨first, clauses⟩ : Expression).chain.join connective (.single term) := by
  have hjoin : (⟨first, clauses ++ [(connective, term)]⟩ : Expression) =
      (⟨first, clauses⟩ : Expression).join connective ⟨term, []⟩ := rfl
  rw [hjoin, chain_join]
  rfl

/-- An expression with one more clause has the demands of the last term behind those of the rest. -/
theorem constraints_snoc {filter : Chain Constraint}
    (h : (⟨first, clauses ++ [(connective, term)]⟩ : Expression).constraints now = .ok filter) :
    ∃ before demands, (⟨first, clauses⟩ : Expression).constraints now = .ok before ∧
      term.Demands now demands ∧ filter = before.join connective demands := by
  rw [constraints, chain_snoc, Chain.traverse_flatten_join] at h
  obtain ⟨before, hb, h⟩ := bind_eq_ok_iff.mp h
  obtain ⟨demands, hd, h⟩ := bind_eq_ok_iff.mp h
  obtain ⟨inners, ht, rfl⟩ := map_eq_ok_iff.mp hd
  obtain ⟨inner, hi, rfl⟩ := map_eq_ok_iff.mp ht
  exact ⟨before, inner, hb, Term.constraints_eq_ok_iff.mp hi, (pure_eq_ok_iff.mp h).symm⟩

theorem holdsInOrder_snoc :
    (⟨first, clauses ++ [(connective, term)]⟩ : Expression).HoldsInOrder now document ↔
      connective.Combines ((⟨first, clauses⟩ : Expression).HoldsInOrder now document)
        (term.Holds now document) := by
  rw [HoldsInOrder, chain_snoc, Chain.holdsInOrder_join]
  rfl

/-- With one more clause, an expression is cut off by that clause, or it was before and the clause
does not make up for it. -/
theorem cutOff_snoc :
    (⟨first, clauses ++ [(connective, term)]⟩ : Expression).CutOff now document ↔
      (⟨first, clauses⟩ : Expression).HoldsInOrder now document ∧
          CutsOff document (connective, term) ∨
        (⟨first, clauses⟩ : Expression).CutOff now document ∧
          (term.Holds now document ↔ connective = .and) := by
  constructor
  · intro h
    obtain ⟨front, clause, rest, he, hfront, hcuts, hrest⟩ := h
    rcases List.eq_nil_or_concat rest with rfl | ⟨rest, last, rfl⟩
    · obtain ⟨rfl, hlast⟩ := List.append_inj' he rfl
      cases hlast
      exact .inl ⟨hfront, hcuts⟩
    · rw [List.concat_eq_append, ← List.cons_append, ← List.append_assoc] at he
      obtain ⟨rfl, hlast⟩ := List.append_inj' he rfl
      cases hlast
      have hlater := hrest (connective, term) (by simp)
      exact .inr ⟨⟨front, clause, rest, rfl, hfront, hcuts,
        fun later hm => hrest later (by simp [hm])⟩, hlater⟩
  · rintro (⟨hfront, hcuts⟩ | ⟨⟨front, clause, rest, rfl, hfront, hcuts, hrest⟩, hlater⟩)
    · exact ⟨clauses, _, [], rfl, hfront, hcuts, by simp⟩
    · refine ⟨front, clause, rest ++ [(connective, term)], by simp, hfront, hcuts, ?_⟩
      intro later hm
      rcases List.mem_append.mp hm with hm | hm
      · exact hrest later hm
      · cases List.mem_singleton.mp hm
        exact hlater

/-- What is cut off holds by itself. -/
theorem CutOff.holdsInOrder {expression : Expression} (h : expression.CutOff now document) :
    expression.HoldsInOrder now document := by
  obtain ⟨first, clauses⟩ := expression
  induction clauses using List.reverseRecOn with
  | nil =>
    obtain ⟨_, _, _, he, _⟩ := h
    simp at he
  | append_singleton clauses clause ih =>
    obtain ⟨connective, term⟩ := clause
    rw [holdsInOrder_snoc]
    rcases cutOff_snoc.mp h with ⟨hfront, hcuts⟩ | ⟨hbefore, hlater⟩
    · cases hcuts.connective_eq
      exact .inl hfront
    · have hfront := ih hbefore
      cases connective with
      | and => exact ⟨hfront, hlater.mpr rfl⟩
      | or => exact .inl hfront

/-- Read from left to right, the demands of an expression hold exactly if its terms do and are not
cut off. -/
theorem selectsInOrder_iff {expression : Expression} {filter : Chain Constraint}
    (h : expression.constraints now = .ok filter) :
    filter.SelectsInOrder document ↔
      expression.HoldsInOrder now document ∧ ¬expression.CutOff now document := by
  obtain ⟨first, clauses⟩ := expression
  -- Clause by clause from the left: the filter is false where the expression is cut off, and
  -- otherwise what the expression is.
  induction clauses using List.reverseRecOn generalizing filter with
  | nil =>
    obtain ⟨inners, ht, rfl⟩ := map_eq_ok_iff.mp h
    obtain ⟨demands, hd, rfl⟩ := map_eq_ok_iff.mp ht
    have hfirst : demands.SelectsInOrder document ↔ first.Holds now document :=
      (Term.constraints_eq_ok_iff.mp hd).holdsInOrder_iff
    have huncut : ¬(⟨first, []⟩ : Expression).CutOff now document := by
      intro hc
      obtain ⟨_, _, _, he, _⟩ := hc
      simp at he
    rw [Chain.flatten, hfirst]
    simp [huncut, HoldsInOrder, chain, Chain.ofLinks, Chain.HoldsInOrder]
  | append_singleton clauses clause ih =>
    obtain ⟨connective, term⟩ := clause
    obtain ⟨before, demands, hb, hd, rfl⟩ := constraints_snoc h
    have hbefore : before.HoldsInOrder (Constraint.Holds document) ↔ _ := ih hb
    have hcut : (⟨first, clauses⟩ : Expression).CutOff now document →
        (⟨first, clauses⟩ : Expression).HoldsInOrder now document := CutOff.holdsInOrder
    have hterm : CutsOff document (connective, term) → ¬term.Holds now document :=
      CutsOff.not_holds
    rw [Chain.SelectsInOrder, Chain.holdsInOrder_join, hd.continues_iff, hbefore,
      holdsInOrder_snoc, cutOff_snoc]
    cases connective with
    | and =>
      have huncut : ¬CutsOff document (.and, term) := by
        intro hc
        cases hc.connective_eq
      simp only [Connective.Combines, huncut, and_false, not_false_eq_true, and_true, false_or,
        iff_true]
      grind
    | or =>
      simp only [Connective.Combines, reduceCtorEq, iff_false]
      grind

end Expression

/-- Compiling preserves the reading from left to right, but for a date alone behind an OR: what
stands in front of it is then cut off from the documents that lie not before the last second of the
date. The text that compiling gives can be read as one filter only. Read from left to right, it
selects the documents that meet the expression, without those for which the expression is cut off,
and these all meet the expression. -/
theorem Compiler.compile_preserves_order {compiler : Compiler} {text output : String}
    {now : Option Moment} (h : (compiler.compile text now).outcome = .ok output)
    (hne : output ≠ "") :
    ∃ expression filter, tokenize text = .ok expression.tokens ∧
      Expression.parse text = .ok expression ∧
      (∀ other : Chain Constraint, other.Reads (spacedWords output) ↔ other = filter) ∧
      ∀ document,
        (¬expression.CutOff (now.getD compiler.clock) document →
          (filter.SelectsInOrder document ↔
            expression.HoldsInOrder (now.getD compiler.clock) document)) ∧
        (expression.CutOff (now.getD compiler.clock) document →
          expression.HoldsInOrder (now.getD compiler.clock) document ∧
            ¬filter.SelectsInOrder document) := by
  obtain ⟨expression, filter, hp, hc, rfl, hr⟩ := compile_filter h hne
  refine ⟨expression, filter, tokenize_eq_ok_iff.mpr ⟨expression, hp, rfl⟩, hp,
    fun other => Chain.reads_text_iff hr, fun document => ?_⟩
  have hselects : filter.SelectsInOrder document ↔ _ := Expression.selectsInOrder_iff hc
  constructor
  · intro huncut
    rw [hselects]
    exact and_iff_left huncut
  · intro hcut
    refine ⟨hcut.holdsInOrder, fun hs => ?_⟩
    exact (hselects.mp hs).2 hcut

/-- A date alone at the front or behind an AND cuts nothing off. -/
theorem compile_preserves_order_bare_date :
    ((⟨.startOfDay ⟨2020, 1, 1, by decide, by decide⟩⟩ : Compiler).compile
        "vim AND 2019 OR <7d" none).outcome =
          .ok "tags = vim AND date > 1546300800 AND date < 1577836799 OR date < 1577232000" ∧
      "tags = vim AND date > 1546300800 AND date < 1577836799 OR date < 1577232000" ≠ "" ∧
      ∃ filter : Chain Constraint, filter.Reads (spacedWords
          "tags = vim AND date > 1546300800 AND date < 1577836799 OR date < 1577232000") ∧
        ∀ document, filter.SelectsInOrder document ↔
          Expression.HoldsInOrder (.startOfDay ⟨2020, 1, 1, by decide, by decide⟩) document
            ⟨.tag "vim", [(.and, .timed none (.date ⟨2019, none, none, "2019", 8⟩)),
              (.or, .timed (some .less) (.duration ⟨7, .day⟩))]⟩ := by
  have h : ((⟨.startOfDay ⟨2020, 1, 1, by decide, by decide⟩⟩ : Compiler).compile
      "vim AND 2019 OR <7d" none).outcome =
        .ok "tags = vim AND date > 1546300800 AND date < 1577836799 OR date < 1577232000" :=
    eq_ok_of_toOption (by decide +kernel)
  have hne : "tags = vim AND date > 1546300800 AND date < 1577836799 OR date < 1577232000" ≠ "" :=
    by decide
  have hp : Expression.parse "vim AND 2019 OR <7d" = .ok
      ⟨.tag "vim", [(.and, .timed none (.date ⟨2019, none, none, "2019", 8⟩)),
        (.or, .timed (some .less) (.duration ⟨7, .day⟩))]⟩ := eq_ok_of_toOption (by decide +kernel)
  obtain ⟨_, filter, _, hexpression, hreads, hselects⟩ := Compiler.compile_preserves_order h hne
  cases hp.symm.trans hexpression
  refine ⟨h, hne, filter, (hreads filter).mpr rfl, fun document => (hselects document).1 ?_⟩
  intro hcut
  obtain ⟨front, clause, rest, he, _, hcuts, _⟩ := hcut
  have hmem : clause ∈ front ++ clause :: rest := by simp
  rw [← he] at hmem
  obtain ⟨literal, _, rfl, _⟩ := hcuts
  simp at hmem

/-- A tag with a date behind an OR: a document with the tag and of a later year meets the expression
read from left to right, but not the filter. -/
theorem tag_cut_off :
    ((⟨.startOfDay ⟨2020, 1, 1, by decide, by decide⟩⟩ : Compiler).compile
        "vim OR 2019" none).outcome =
          .ok "tags = vim OR date > 1546300800 AND date < 1577836799" ∧
      Expression.parse "vim OR 2019" =
        .ok ⟨.tag "vim", [(.or, .timed none (.date ⟨2019, none, none, "2019", 7⟩))]⟩ ∧
      ∃ filter : Chain Constraint,
        (∀ other : Chain Constraint, other.Reads (spacedWords
          "tags = vim OR date > 1546300800 AND date < 1577836799") ↔ other = filter) ∧
        ¬(filter.SelectsInOrder ⟨{"vim"}, 1600000000⟩ ↔
          Expression.HoldsInOrder (.startOfDay ⟨2020, 1, 1, by decide, by decide⟩)
            ⟨{"vim"}, 1600000000⟩
            ⟨.tag "vim", [(.or, .timed none (.date ⟨2019, none, none, "2019", 7⟩))]⟩) := by
  have h : ((⟨.startOfDay ⟨2020, 1, 1, by decide, by decide⟩⟩ : Compiler).compile
      "vim OR 2019" none).outcome =
        .ok "tags = vim OR date > 1546300800 AND date < 1577836799" :=
    eq_ok_of_toOption (by decide +kernel)
  have hp : Expression.parse "vim OR 2019" =
      .ok ⟨.tag "vim", [(.or, .timed none (.date ⟨2019, none, none, "2019", 7⟩))]⟩ :=
    eq_ok_of_toOption (by decide +kernel)
  have hne : "tags = vim OR date > 1546300800 AND date < 1577836799" ≠ "" := by decide
  obtain ⟨_, filter, hexpression, hconstraints, htext, hreadable⟩ := Compiler.compile_filter h hne
  cases hp.symm.trans hexpression
  have hrange : DateLiteral.range ⟨2019, none, none, "2019", 7⟩ = .ok range2019 := rfl
  have hend : range2019.endEpoch ≤ 1600000000 := by decide +kernel
  have hcut : Expression.CutOff (.startOfDay ⟨2020, 1, 1, by decide, by decide⟩)
      ⟨{"vim"}, 1600000000⟩
      ⟨.tag "vim", [(.or, .timed none (.date ⟨2019, none, none, "2019", 7⟩))]⟩ :=
    ⟨[], _, [], rfl, rfl, (cutsOff_iff hrange).mpr ⟨rfl, hend⟩, by simp⟩
  refine ⟨h, hp, filter, fun other => ?_, fun hiff => ?_⟩
  · rw [htext]
    exact Chain.reads_text_iff hreadable
  · exact ((Expression.selectsInOrder_iff hconstraints).mp (hiff.mpr hcut.holdsInOrder)).2 hcut

end SearchFilter
