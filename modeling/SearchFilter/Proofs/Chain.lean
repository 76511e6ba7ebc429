import SearchFilter.Proofs.Outcome
import SearchFilter.Token

namespace SearchFilter

/-- Operands with a connective between each two. -/
inductive Chain (α : Type) where
  | single (operand : α)
  | link (operand : α) (connective : Connective) (rest : Chain α)
  deriving DecidableEq

namespace Chain

variable {α β : Type}

def operands : Chain α → List α
  | single operand => [operand]
  | link operand _ rest => operand :: rest.operands

/-- The runs of operands that the ORs of a chain part. -/
def alternatives : Chain α → List (List α)
  | single operand => [[operand]]
  | link operand .or rest => [operand] :: rest.alternatives
  | link operand .and rest => rest.alternatives.modifyHead (operand :: ·)

/-- Whether a chain holds where AND binds tighter than OR. -/
def Holds (holds : α → Prop) (chain : Chain α) : Prop :=
  ∃ run ∈ chain.alternatives, ∀ operand ∈ run, holds operand

/-- A chain without an OR. -/
def IsConjunction : Chain α → Prop
  | single _ => True
  | link _ connective rest => connective = .and ∧ rest.IsConjunction

def join : Chain α → Connective → Chain α → Chain α
  | single operand, connective, other => link operand connective other
  | link operand joint rest, connective, other => link operand joint (rest.join connective other)

def map (f : α → β) : Chain α → Chain β
  | single operand => single (f operand)
  | link operand connective rest => link (f operand) connective (rest.map f)

/-- The chain of the operands of all operands. -/
def flatten : Chain (Chain α) → Chain α
  | single inner => inner
  | link inner connective rest => inner.join connective rest.flatten

/-- The first failure among the operands, or the chain of what they come to. -/
def traverse (f : α → Except Failure β) : Chain α → Except Failure (Chain β)
  | single operand => (f operand).map single
  | link operand connective rest => do
    let result ← f operand
    let later ← rest.traverse f
    return link result connective later

/-- The same connectives, between operands that correspond. -/
inductive Related (R : α → β → Prop) : Chain α → Chain β → Prop
  | single {a : α} {b : β} : R a b → Related R (.single a) (.single b)
  | link {a : α} {b : β} {connective : Connective} {rest : Chain α} {later : Chain β} :
      R a b → Related R rest later → Related R (.link a connective rest) (.link b connective later)

theorem alternatives_join_or {chain other : Chain α} (h : chain.IsConjunction) :
    (chain.join .or other).alternatives = chain.operands :: other.alternatives := by
  induction chain with
  | single operand => rfl
  | link operand connective rest ih =>
    obtain ⟨rfl, hr⟩ := h
    rw [join, alternatives, ih hr, operands, List.modifyHead_cons]

theorem alternatives_join_and {chain other : Chain α} (h : chain.IsConjunction) :
    (chain.join .and other).alternatives =
      other.alternatives.modifyHead (chain.operands ++ ·) := by
  induction chain with
  | single operand => rfl
  | link operand connective rest ih =>
    obtain ⟨rfl, hr⟩ := h
    rw [join, alternatives, ih hr, List.modifyHead_modifyHead]
    rfl

/-- Operands without an OR stay together wherever their chain stands. -/
theorem alternatives_flatten {chain : Chain (Chain α)}
    (h : ∀ inner ∈ chain.operands, inner.IsConjunction) :
    chain.flatten.alternatives = chain.alternatives.map (·.flatMap operands) := by
  have single : ∀ {inner : Chain α}, inner.IsConjunction →
      inner.alternatives = [inner.operands] := by
    intro inner hi
    induction inner with
    | single operand => rfl
    | link operand connective rest ih =>
      obtain ⟨rfl, hr⟩ := hi
      rw [alternatives, ih hr]
      rfl
  induction chain with
  | single inner => simpa [flatten, alternatives] using single (h inner (by simp [operands]))
  | link inner connective rest ih =>
    have hi : inner.IsConjunction := h inner (by simp [operands])
    have hr := ih fun other hm => h other (by simp [operands, hm])
    cases connective with
    | or => simp [flatten, alternatives, alternatives_join_or hi, hr]
    | and =>
      rw [flatten, alternatives_join_and hi, hr, alternatives]
      cases rest.alternatives <;> simp

theorem holds_flatten_iff {chain : Chain (Chain α)} {holds : α → Prop}
    (h : ∀ inner ∈ chain.operands, inner.IsConjunction) :
    chain.flatten.Holds holds ↔
      chain.Holds fun inner => ∀ operand ∈ inner.operands, holds operand := by
  simp only [Holds, alternatives_flatten h, List.mem_map]
  constructor
  · intro hx
    obtain ⟨_, ⟨run, hm, rfl⟩, hr⟩ := hx
    exact ⟨run, hm, fun inner hi operand ho => hr operand (List.mem_flatMap.mpr ⟨inner, hi, ho⟩)⟩
  · intro hx
    obtain ⟨run, hm, hr⟩ := hx
    refine ⟨_, ⟨run, hm, rfl⟩, fun operand ho => ?_⟩
    obtain ⟨inner, hi, ho⟩ := List.mem_flatMap.mp ho
    exact hr inner hi operand ho

theorem operands_join {chain other : Chain α} {connective : Connective} :
    (chain.join connective other).operands = chain.operands ++ other.operands := by
  induction chain with
  | single operand => rfl
  | link operand joint rest ih => rw [join, operands, operands, ih, List.cons_append]

theorem mem_operands_flatten_iff {chain : Chain (Chain α)} {operand : α} :
    operand ∈ chain.flatten.operands ↔ ∃ inner ∈ chain.operands, operand ∈ inner.operands := by
  induction chain with
  | single inner => simp [flatten, operands]
  | link inner connective rest ih => simp [flatten, operands_join, operands, ih]

theorem join_flatten {chain other : Chain (Chain α)} {connective : Connective} :
    (chain.join connective other).flatten = chain.flatten.join connective other.flatten := by
  have assoc : ∀ {first second third : Chain α} {joint : Connective},
      (first.join joint second).join connective third =
        first.join joint (second.join connective third) := by
    intro first second third joint
    induction first with
    | single operand => rfl
    | link operand _ rest ih => simp only [join, ih]
  induction chain with
  | single inner => rfl
  | link inner joint rest ih => rw [join, flatten, ih, flatten, assoc]

theorem traverse_join {chain other : Chain α} {connective : Connective}
    {f : α → Except Failure β} :
    (chain.join connective other).traverse f = (do
      let result ← chain.traverse f
      let later ← other.traverse f
      return result.join connective later) := by
  induction chain with
  | single operand =>
    rw [join, traverse, traverse]
    cases f operand <;> rfl
  | link operand joint rest ih =>
    simp only [join, traverse, ih, bind_assoc, pure_bind]

/-- Joining commutes with replacing every operand by a chain of its own. -/
theorem traverse_flatten_join {chain other : Chain α} {connective : Connective}
    {f : α → Except Failure (Chain β)} :
    ((chain.join connective other).traverse f).map flatten = (do
      let result ← (chain.traverse f).map flatten
      let later ← (other.traverse f).map flatten
      return result.join connective later) := by
  rw [traverse_join]
  cases chain.traverse f with
  | error failure => rfl
  | ok inners =>
    cases other.traverse f with
    | error failure => rfl
    | ok later => exact congrArg Except.ok join_flatten

theorem traverse_error {chain : Chain α} {f : α → Except Failure β} {failure : Failure}
    (h : chain.traverse f = .error failure) : ∃ a ∈ chain.operands, f a = .error failure := by
  induction chain with
  | single operand =>
    refine ⟨operand, by simp [operands], ?_⟩
    rw [traverse] at h
    cases hf : f operand with
    | error other => rw [hf] at h; cases h; rfl
    | ok result => rw [hf] at h; cases h
  | link operand connective rest ih =>
    rw [traverse] at h
    cases hf : f operand with
    | error other => rw [hf] at h; cases h; exact ⟨operand, by simp [operands], hf⟩
    | ok result =>
      cases hr : rest.traverse f with
      | error other =>
        rw [hf, hr] at h
        cases h
        obtain ⟨a, ha, he⟩ := ih hr
        exact ⟨a, by simp [operands, ha], he⟩
      | ok later => rw [hf, hr] at h; cases h

theorem traverse_eq_ok_iff {chain : Chain α} {result : Chain β} {f : α → Except Failure β} :
    chain.traverse f = .ok result ↔ Related (fun a b => f a = .ok b) chain result := by
  induction chain generalizing result with
  | single operand =>
    rw [traverse, map_eq_ok_iff]
    constructor
    · intro hx
      obtain ⟨value, hv, rfl⟩ := hx
      exact .single hv
    · intro hx
      obtain ⟨hv⟩ := hx
      exact ⟨_, hv, rfl⟩
  | link operand connective rest ih =>
    simp only [traverse, bind_eq_ok_iff, pure_eq_ok_iff, ih]
    constructor
    · intro hx
      obtain ⟨value, hv, later, hl, rfl⟩ := hx
      exact .link hv hl
    · intro h
      cases h with
      | link hv hl => exact ⟨_, hv, _, hl, rfl⟩

theorem Related.exists_mem {R : α → β → Prop} {chain : Chain α} {other : Chain β}
    (h : Related R chain other) {b : β} (hb : b ∈ other.operands) :
    ∃ a ∈ chain.operands, R a b := by
  induction h with
  | single hr =>
    cases List.mem_singleton.mp hb
    exact ⟨_, List.mem_singleton_self _, hr⟩
  | link hr _ ih =>
    rcases List.mem_cons.mp hb with rfl | hm
    · exact ⟨_, List.mem_cons_self, hr⟩
    · obtain ⟨a, ha, hr⟩ := ih hm
      exact ⟨a, List.mem_cons_of_mem _ ha, hr⟩

theorem related_self {R : α → α → Prop} {chain : Chain α} (h : ∀ a ∈ chain.operands, R a a) :
    Related R chain chain := by
  induction chain with
  | single operand => exact .single (h operand (by simp [operands]))
  | link operand connective rest ih =>
    exact .link (h operand (by simp [operands])) (ih fun a ha => h a (by simp [operands, ha]))

theorem Related.mono {R S : α → β → Prop} {chain : Chain α} {other : Chain β}
    (h : Related R chain other) (hs : ∀ a b, R a b → S a b) : Related S chain other := by
  induction h with
  | single hr => exact .single (hs _ _ hr)
  | link hr _ ih => exact .link (hs _ _ hr) ih

theorem Related.eq {chain other : Chain α} (h : Related (· = ·) chain other) : chain = other := by
  induction h with
  | single hr => rw [hr]
  | link hr _ ih => rw [hr, ih]

/-- Chains whose operands agree one by one hold together. -/
theorem Related.holds_iff {holds : α → Prop} {meets : β → Prop} {chain : Chain α}
    {other : Chain β} (h : Related (fun a b => holds a ↔ meets b) chain other) :
    chain.Holds holds ↔ other.Holds meets := by
  have runs : chain.alternatives.map (fun run => ∀ a ∈ run, holds a) =
      other.alternatives.map fun run => ∀ b ∈ run, meets b := by
    induction h with
    | single hr => simp [alternatives, hr]
    | @link a b connective rest later hr _ ih =>
      cases connective with
      | or => simp [alternatives, hr, ih]
      | and =>
        rw [alternatives, alternatives]
        cases hc : rest.alternatives with
        | nil => cases ho : later.alternatives <;> simp_all
        | cons run more => cases ho : later.alternatives <;> simp_all
  have some_run : ∀ {γ : Type} {p : γ → Prop} {chain : Chain γ},
      chain.Holds p ↔ ∃ claim ∈ chain.alternatives.map (fun run => ∀ c ∈ run, p c), claim := by
    intro γ p chain
    constructor
    · intro hx
      obtain ⟨run, hm, hr⟩ := hx
      exact ⟨_, List.mem_map_of_mem hm, hr⟩
    · intro hx
      obtain ⟨_, hm, hr⟩ := hx
      obtain ⟨run, ha, rfl⟩ := List.mem_map.mp hm
      exact ⟨run, ha, hr⟩
  rw [some_run, some_run, runs]

end Chain

end SearchFilter
