import Mathlib.Data.List.Induction
import SearchFilter.SearchQuery
import SearchFilter.Proofs.EntryPoints

namespace SearchFilter

/-- A text to filter a request by, with the compiler and the reference time for it. -/
structure FilterCall where
  text : String
  compiler : Compiler
  now : Option Moment

namespace FilterCall

variable {call : FilterCall} {output : String}

def compiled (call : FilterCall) : Except Failure String :=
  (call.compiler.compile call.text call.now).outcome

/-- The filter that the call puts in place, if it is one that does. -/
def applied (call : FilterCall) : Option String :=
  call.compiled.toOption.filter (· ≠ "")

theorem applied_eq_some_iff :
    call.applied = some output ↔ call.compiled = .ok output ∧ output ≠ "" := by
  have hok : call.compiled.toOption = some output ↔ call.compiled = .ok output := by
    cases call.compiled <;> simp [Except.toOption]
  rw [applied, Option.filter_eq_some_iff, hok, decide_eq_true_eq]

/-- No text of the language comes to the empty filter, the sign that there is nothing to apply. -/
theorem not_inLanguage_of_empty (h : call.compiled = .ok "") : ¬InLanguage call.text :=
  (Expression.parse_eq_malformed_iff.mp (Compiler.compile_eq_empty_iff.mp h)).1

end FilterCall

namespace SearchQuery

variable {call : FilterCall} {output : String}

def after (query : SearchQuery) (call : FilterCall) : SearchQuery :=
  (query.processFilter call.compiler call.text call.now).1

/-- What the caller is given: a value or a failure. -/
def answer (query : SearchQuery) (call : FilterCall) : Except Failure Json :=
  (query.processFilter call.compiler call.text call.now).2.outcome

def afterAll (query : SearchQuery) (calls : List FilterCall) : SearchQuery :=
  calls.foldl after query

/-- All that a call can do. -/
theorem after_cases (query : SearchQuery) (call : FilterCall) :
    (∃ failure, call.compiled = .error failure ∧ query.answer call = .error failure ∧
      query.after call = query) ∨
    (call.compiled = .ok "" ∧ query.answer call = .ok query.filter ∧ query.after call = query) ∨
    ∃ output, output ≠ "" ∧ call.compiled = .ok output ∧
      query.answer call = .ok (.string output) ∧
      query.after call = { query with filter := .string output } := by
  have hanswer : query.answer call =
      (query.processFilter call.compiler call.text call.now).2.outcome := rfl
  have hafter : query.after call =
      (query.processFilter call.compiler call.text call.now).1 := rfl
  have hc : (call.compiler.compile call.text call.now).outcome = call.compiled := rfl
  cases h : call.compiled with
  | error failure =>
    rw [processFilter, hc, h] at hanswer hafter
    exact .inl ⟨failure, rfl, hanswer, hafter⟩
  | ok output =>
    rw [processFilter, hc, h] at hanswer hafter
    by_cases hempty : output = ""
    · subst hempty
      exact .inr (.inl ⟨rfl, hanswer, hafter⟩)
    · simp only [if_neg hempty] at hanswer hafter
      exact .inr (.inr ⟨output, hempty, rfl, hanswer, hafter⟩)

theorem after_of_applied (query : SearchQuery) (h : call.applied = some output) :
    query.after call = { query with filter := .string output } := by
  rw [FilterCall.applied_eq_some_iff] at h
  rcases query.after_cases call with ⟨failure, hc, -⟩ | ⟨hc, -⟩ | ⟨other, -, hc, -, heq⟩
  · cases h.1.symm.trans hc
  · cases h.1.symm.trans hc
    exact absurd rfl h.2
  · cases h.1.symm.trans hc
    exact heq

theorem after_of_not_applied (query : SearchQuery) (h : call.applied = none) :
    query.after call = query := by
  rcases query.after_cases call with ⟨_, _, _, heq⟩ | ⟨_, _, heq⟩ | ⟨output, hne, hc, -⟩
  · exact heq
  · exact heq
  · rw [FilterCall.applied_eq_some_iff.mpr ⟨hc, hne⟩] at h
    cases h

theorem afterAll_append_singleton (query : SearchQuery) (calls : List FilterCall)
    (call : FilterCall) : query.afterAll (calls ++ [call]) = (query.afterAll calls).after call := by
  rw [afterAll, List.foldl_append]
  rfl

theorem afterAll_eq (query : SearchQuery) (calls : List FilterCall) :
    query.afterAll calls = { query with
      filter := (calls.filterMap FilterCall.applied).getLast?.elim query.filter .string } := by
  -- from the end, since a call that applies a filter hides what the calls before it did
  induction calls using List.reverseRecOn with
  | nil => rfl
  | append_singleton calls call ih =>
    rw [afterAll_append_singleton, List.filterMap_append]
    cases h : call.applied with
    | none =>
      rw [after_of_not_applied _ h, ih]
      simp [h]
    | some output =>
      rw [after_of_applied _ h, ih]
      simp [h]

/-- Whatever calls are made on a request, with failures among them: it holds the filter applied
last, or its own if there was none, and is unchanged otherwise. Each call that fails leaves it as it
is; each that does not gives the filter held after it, which is the one before if the text is
malformed and a new one, not empty, for any other text. -/
theorem filter_after_calls (query : SearchQuery) (calls : List FilterCall) :
    query.afterAll calls = { query with
      filter := (calls.filterMap FilterCall.applied).getLast?.elim query.filter .string } ∧
    ∀ before call later, calls = before ++ call :: later →
      let held := query.afterAll before
      let next := query.afterAll (before ++ [call])
      ((∃ failure, call.compiled = .error failure ∧ held.answer call = .error failure ∧
          next = held) ∨
        (¬InLanguage call.text ∧ call.compiled = .ok "" ∧
          held.answer call = .ok next.filter ∧ next = held) ∨
        ∃ output, output ≠ "" ∧ call.compiled = .ok output ∧
          held.answer call = .ok next.filter ∧ next = { held with filter := .string output }) ∧
      next = { query with filter := next.filter } := by
  refine ⟨query.afterAll_eq calls, ?_⟩
  rintro before call later -
  dsimp only
  refine ⟨?_, ?_⟩
  · rw [afterAll_append_singleton]
    rcases (query.afterAll before).after_cases call with
      hfails | ⟨hc, ha, heq⟩ | ⟨output, hne, hc, ha, heq⟩
    · exact .inl hfails
    · rw [heq]
      exact .inr (.inl ⟨FilterCall.not_inLanguage_of_empty hc, hc, ha, rfl⟩)
    · rw [heq]
      exact .inr (.inr ⟨output, hne, hc, ha, rfl⟩)
  · rw [query.afterAll_eq (before ++ [call])]

def sampleCall (text : String) : FilterCall :=
  ⟨text, ⟨.startOfDay ⟨2020, 1, 1, by decide, by decide⟩⟩, none⟩

/-- A filter is kept through a malformed text and an impossible date. -/
theorem filter_after_sampleCalls :
    ["vim", "a b", "2019-02-30"].map sampleCall =
      [sampleCall "vim", sampleCall "a b"] ++ sampleCall "2019-02-30" :: [] ∧
    afterAll {} (["vim", "a b", "2019-02-30"].map sampleCall) =
      { filter := .string "tags = vim" } ∧
    ∃ failure, (afterAll {} [sampleCall "vim", sampleCall "a b"]).answer
        (sampleCall "2019-02-30") = .error failure ∧
      afterAll {} ([sampleCall "vim", sampleCall "a b"] ++ [sampleCall "2019-02-30"]) =
        afterAll {} [sampleCall "vim", sampleCall "a b"] := by
  obtain ⟨heq, hstep⟩ := filter_after_calls {} (["vim", "a b", "2019-02-30"].map sampleCall)
  have happlied : ((["vim", "a b", "2019-02-30"].map sampleCall).filterMap
      FilterCall.applied).getLast? = some "tags = vim" := by decide +kernel
  have hfails : (sampleCall "2019-02-30").compiled.toOption = none := by decide +kernel
  refine ⟨rfl, ?_, ?_⟩
  · rw [heq, happlied]
    rfl
  · have hlast := (hstep [sampleCall "vim", sampleCall "a b"] (sampleCall "2019-02-30") [] rfl).1
    rcases hlast with ⟨failure, -, ha, hkept⟩ | ⟨-, hc, -⟩ | ⟨output, -, hc, -⟩
    · exact ⟨failure, ha, hkept⟩
    · rw [hc] at hfails
      cases hfails
    · rw [hc] at hfails
      cases hfails

end SearchQuery

end SearchFilter
