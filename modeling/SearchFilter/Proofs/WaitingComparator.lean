import Mathlib.Data.List.Induction
import SearchFilter.Proofs.EpochSize

namespace SearchFilter

namespace Item

/-- The end of the input, where compiling stops. -/
def isEnd : Item → Bool
  | .token .endOfInput => true
  | _ => false

/-- A date or duration, to which a comparator applies. -/
def isTimed : Item → Bool
  | .token (.date _) => true
  | .token (.duration _) => true
  | _ => false

def comparison? : Item → Option Comparison
  | .token (.comparator comparison) => some comparison
  | _ => none

/-- The text that an item adds to a filter if the given comparator waits in front of it. -/
def emission (now : Moment) (waiting : Option Comparison) : Item → Except Failure String
  | .token t => (t.pieces now waiting).map filterText
  | .foreign value => .error (.foreignItem value)

/-- The failures that an item can have: a date that is not in the calendar or has a number that a
date has no room for, a duration that leads to a number too long to be written, and a value that is
no token. -/
inductive Fails : Item → Failure → Prop
  | impossibleDate {literal : DateLiteral} {fault : CalendarFault} :
      Fails (.token (.date literal)) (.impossibleDate literal.text literal.position fault)
  | fieldOverflow {literal : DateLiteral} {failure : Failure} :
      failure.IsFieldOverflow → Fails (.token (.date literal)) failure
  | resultTooLong {length : Duration} : Fails (.token (.duration length)) .resultTooLong
  | foreign {value : Json} : Fails (.foreign value) (.foreignItem value)

end Item

/-- The items in front of the first end of input, or all of them if there is none. -/
def liveItems (items : List Item) : List Item := items.takeWhile fun item => !item.isEnd

/-- The comparator that waits behind some items: the last one, unless a date or duration stands
behind it. -/
def waitingBehind (front : List Item) : Option Comparison :=
  (front.reverse.takeWhile fun item => !item.isTimed).findSome? Item.comparison?

/-- What each item adds under the comparator that waits behind all of the items in front of it. -/
def emissionsFrom (now : Moment) : (front : List Item) → List Item → List (Except Failure String)
  | _, [] => []
  | front, item :: rest =>
    item.emission now (waitingBehind front) :: emissionsFrom now (front ++ [item]) rest

theorem waitingBehind_append_singleton (front : List Item) (item : Item) :
    waitingBehind (front ++ [item]) =
      if item.isTimed then none else item.comparison?.or (waitingBehind front) := by
  rw [waitingBehind, List.reverse_append, List.reverse_singleton, List.singleton_append,
    List.takeWhile_cons]
  cases item.isTimed with
  | true => rfl
  | false =>
    change List.findSome? Item.comparison? (item :: _) = _
    rw [List.findSome?_cons]
    cases item.comparison? <;> rfl

/-- An item keeps or changes the waiting comparator as its own kind says. -/
theorem Token.pendingAfter_waitingBehind (token : Token) (front : List Item) :
    token.pendingAfter (waitingBehind front) = waitingBehind (front ++ [.token token]) := by
  rw [waitingBehind_append_singleton]
  cases token <;> rfl

theorem append_singleton_eq_append_cons {front before after : List Item} {last item : Item} :
    front ++ [last] = before ++ item :: after ↔
      (front = before ∧ last = item ∧ after = []) ∨
        ∃ between, after = between ++ [last] ∧ front = before ++ item :: between := by
  constructor
  · intro h
    rcases List.eq_nil_or_concat after with rfl | ⟨between, other, rfl⟩
    · obtain ⟨rfl, he⟩ := List.append_inj' h rfl
      exact .inl ⟨rfl, (List.cons.inj he).1, rfl⟩
    · rw [List.concat_eq_append] at h ⊢
      rw [← List.cons_append, ← List.append_assoc] at h
      obtain ⟨rfl, he⟩ := List.append_inj' h rfl
      exact .inr ⟨between, by rw [he], rfl⟩
  · intro h
    rcases h with ⟨rfl, rfl, rfl⟩ | ⟨between, rfl, rfl⟩
    · rfl
    · rw [List.append_assoc, List.cons_append]

/-- The waiting comparator is the last one, with neither a date nor a duration behind it, whatever
else stands there. -/
theorem waitingBehind_eq_some_iff {front : List Item} {comparison : Comparison} :
    waitingBehind front = some comparison ↔
      ∃ before after, front = before ++ .token (.comparator comparison) :: after ∧
        ∀ item ∈ after, item.isTimed = false ∧ item.comparison? = none := by
  -- from the end, where the comparator is looked for
  induction front using List.reverseRecOn with
  | nil => simp [waitingBehind]
  | append_singleton front last ih =>
    simp only [waitingBehind_append_singleton, append_singleton_eq_append_cons]
    constructor
    · intro h
      split at h
      next => cases h
      next htimed =>
        cases hc : last.comparison? with
        | some found =>
          rw [hc] at h
          cases h
          have hlast : last = .token (.comparator comparison) := by
            unfold Item.comparison? at hc
            split at hc
            next => cases hc; rfl
            next => cases hc
          exact ⟨front, [], .inl ⟨rfl, hlast, rfl⟩, by simp⟩
        | none =>
          rw [hc] at h
          obtain ⟨before, between, hfront, hafter⟩ := ih.mp h
          refine ⟨before, between ++ [last], .inr ⟨between, rfl, hfront⟩, fun item hm => ?_⟩
          rcases List.mem_append.mp hm with hm | hm
          · exact hafter item hm
          · cases List.mem_singleton.mp hm
            exact ⟨by simpa using htimed, hc⟩
    · intro h
      obtain ⟨before, after, hsplit, hafter⟩ := h
      rcases hsplit with ⟨-, rfl, -⟩ | ⟨between, rfl, hfront⟩
      · rfl
      · obtain ⟨htimed, hc⟩ := hafter last (by simp)
        rw [htimed, hc]
        exact ih.mpr ⟨before, between, hfront, fun item hm => hafter item (by simp [hm])⟩

/-- Neither a tag nor a connective uses a comparator up. -/
example : waitingBehind [.token (.comparator .less), .token (.tag "vim"),
    .token (.connective .and)] = some .less := rfl

theorem emissionsFrom_append (now : Moment) (front items later : List Item) :
    emissionsFrom now front (items ++ later) =
      emissionsFrom now front items ++ emissionsFrom now (front ++ items) later := by
  induction items generalizing front with
  | nil => rw [List.append_nil]; rfl
  | cons item items ih =>
    rw [List.cons_append, emissionsFrom, ih, emissionsFrom, List.append_assoc,
      List.singleton_append, List.cons_append]

/-- If all of some items can be emitted, so can each of them behind the items in front of it. -/
theorem exists_emission {now : Moment} {front before rest : List Item} {item : Item}
    {texts : List String}
    (h : emissionsFrom now front (before ++ item :: rest) = texts.map .ok) :
    ∃ text, item.emission now (waitingBehind (front ++ before)) = .ok text := by
  have hm : item.emission now (waitingBehind (front ++ before)) ∈
      (texts.map .ok : List (Except Failure String)) := by
    rw [← h, emissionsFrom_append, emissionsFrom]
    exact List.mem_append_right _ List.mem_cons_self
  obtain ⟨text, -, ht⟩ := List.mem_map.mp hm
  exact ⟨text, ht.symm⟩

theorem filterText_append (pieces more : List Piece) :
    filterText (pieces ++ more) = filterText pieces ++ filterText more := by
  rw [filterText, List.flatMap_append, String.ofList_append]
  rfl

/-- What some items are compiled to behind others that leave a comparator waiting. -/
def compileBehind (now : Moment) (front items : List Item) : Except Failure String :=
  (piecesOf now (waitingBehind front) items).map filterText

theorem compileBehind_end {item : Item} (h : item.isEnd = true) (now : Moment)
    (front rest : List Item) : compileBehind now front (item :: rest) = .ok "" := by
  unfold Item.isEnd at h
  split at h
  next => rfl
  next => cases h

/-- Compiling takes one item: its own emission, and then the rest behind it. -/
theorem compileBehind_cons {item : Item} (h : item.isEnd = false) (now : Moment)
    (front rest : List Item) :
    compileBehind now front (item :: rest) = (do
      let here ← item.emission now (waitingBehind front)
      let later ← compileBehind now (front ++ [item]) rest
      return here ++ later) := by
  cases item with
  | foreign value => rfl
  | token token =>
    have hend : token ≠ .endOfInput := by
      rintro rfl
      cases h
    rw [compileBehind, piecesOf_cons hend, token.pendingAfter_waitingBehind, compileBehind,
      Item.emission]
    cases token.pieces now (waitingBehind front) with
    | error failure => rfl
    | ok here =>
      cases piecesOf now (waitingBehind (front ++ [.token token])) rest with
      | error failure => rfl
      | ok later => exact congrArg Except.ok (filterText_append here later)

theorem liveItems_cons (item : Item) (rest : List Item) :
    liveItems (item :: rest) = if item.isEnd then [] else item :: liveItems rest := by
  rw [liveItems, List.takeWhile_cons]
  cases item.isEnd <;> rfl

/-- A run without a failure gives the emissions of all items in order. -/
theorem compileBehind_eq_ok_iff {now : Moment} {front items : List Item} {output : String} :
    compileBehind now front items = .ok output ↔
      ∃ texts, emissionsFrom now front (liveItems items) = texts.map .ok ∧
        String.join texts = output := by
  have stops : ∀ {output : String}, .ok "" = (.ok output : Except Failure String) ↔
      ∃ texts : List String, [] = texts.map (.ok : String → Except Failure String) ∧
        String.join texts = output := by
    intro output
    rw [Except.ok.injEq]
    constructor
    · rintro rfl
      exact ⟨[], rfl, rfl⟩
    · intro h
      obtain ⟨texts, ht, rfl⟩ := h
      cases List.map_eq_nil_iff.mp ht.symm
      rfl
  induction items generalizing front output with
  | nil => exact stops
  | cons item rest ih =>
    rw [liveItems_cons]
    cases hend : item.isEnd with
    | true =>
      rw [compileBehind_end hend]
      exact stops
    | false =>
      simp only [compileBehind_cons hend, bind_eq_ok_iff, pure_eq_ok_iff, ih]
      constructor
      · intro h
        obtain ⟨here, hhere, _, ⟨texts, ht, rfl⟩, rfl⟩ := h
        exact ⟨here :: texts, congrArg₂ List.cons hhere ht, String.join_cons⟩
      · intro h
        obtain ⟨texts, ht, rfl⟩ := h
        obtain ⟨here, later, rfl, hhere, hlater⟩ := List.map_eq_cons_iff.mp ht.symm
        exact ⟨here, hhere.symm, _, ⟨later, hlater.symm, rfl⟩, String.join_cons.symm⟩

/-- A run fails as the first item does that fails. -/
theorem compileBehind_eq_error_iff {now : Moment} {front items : List Item} {failure : Failure} :
    compileBehind now front items = .error failure ↔
      ∃ before item rest, ∃ texts : List String, liveItems items = before ++ item :: rest ∧
        emissionsFrom now front before = texts.map .ok ∧
        item.emission now (waitingBehind (front ++ before)) = .error failure := by
  induction items generalizing front with
  | nil =>
    constructor
    · intro h
      cases h
    · rintro ⟨before, item, rest, texts, hsplit, -⟩
      simp [liveItems] at hsplit
  | cons item rest ih =>
    rw [liveItems_cons]
    cases hend : item.isEnd with
    | true =>
      rw [compileBehind_end hend]
      simp
    | false =>
      rw [compileBehind_cons hend, bind_eq_error_iff]
      simp only [bind_eq_error_iff, ih, List.append_assoc, List.singleton_append]
      constructor
      · rintro (hfails |
          ⟨here, hhere, ⟨before, next, later, texts, hsplit, htexts, hfails⟩ | hdone⟩)
        · exact ⟨[], item, liveItems rest, [], rfl, rfl, by rwa [List.append_nil]⟩
        · refine ⟨item :: before, next, later, here :: texts, congrArg (item :: ·) hsplit, ?_, ?_⟩
          · exact congrArg₂ List.cons hhere htexts
          · exact hfails
        · obtain ⟨_, _, hpure⟩ := hdone
          cases hpure
      · rintro ⟨before, next, later, texts, hsplit, htexts, hfails⟩
        cases before with
        | nil =>
          cases hsplit
          left
          rwa [List.append_nil] at hfails
        | cons first before =>
          obtain ⟨rfl, hrest⟩ := List.cons.inj hsplit
          obtain ⟨here, texts, rfl, hhere, hbefore⟩ := List.map_eq_cons_iff.mp htexts.symm
          exact .inr ⟨here, hhere.symm,
            .inl ⟨before, next, later, texts, hrest, hbefore.symm, hfails⟩⟩

/-- Behind the same items, what compiles to the same alone does so behind all of them. -/
theorem compileBehind_congr {now : Moment} {front shared items others : List Item}
    (h : compileBehind now (front ++ shared) items = compileBehind now (front ++ shared) others) :
    compileBehind now front (shared ++ items) = compileBehind now front (shared ++ others) := by
  induction shared generalizing front with
  | nil => simpa using h
  | cons item shared ih =>
    rw [List.cons_append, List.cons_append]
    cases hend : item.isEnd with
    | true => rw [compileBehind_end hend, compileBehind_end hend]
    | false =>
      rw [compileBehind_cons hend, compileBehind_cons hend, ih (by simpa using h)]

theorem datePiece_of_short (comparison : Comparison) {second : Int}
    (h : exceedsDigitLimit second = false) :
    datePiece comparison second = .ok (.constraint (.dated comparison second)) := by
  rw [datePiece, h]
  rfl

/-- How a bound on the date of a document is written. -/
def boundText : Comparison → Int → String
  | .greater, second => "date > " ++ toString second
  | .less, second => "date < " ++ toString second

theorem toList_boundText (comparison : Comparison) (second : Int) :
    (boundText comparison second).toList = (Constraint.dated comparison second).chars := by
  have hgreater : "date > ".toList = "date ".toList ++ ['>', ' '] := by decide
  have hless : "date < ".toList = "date ".toList ++ ['<', ' '] := by decide
  cases comparison with
  | greater => rw [boundText, String.toList_append, hgreater, List.append_assoc]; rfl
  | less => rw [boundText, String.toList_append, hless, List.append_assoc]; rfl

theorem filterText_constraint (constraint : Constraint) {text : String}
    (h : text.toList = constraint.chars) : filterText [.constraint constraint] = text := by
  rw [filterText, List.flatMap_singleton, Piece.chars, ← h, String.ofList_toList]

theorem filterText_dated (comparison : Comparison) (second : Int) :
    filterText [.constraint (.dated comparison second)] = boundText comparison second :=
  filterText_constraint _ (toList_boundText comparison second)

theorem filterText_between (start stop : Int) :
    filterText [.constraint (.dated .greater start), .connective .and,
      .constraint (.dated .less stop)] =
        "date > " ++ toString start ++ " AND date < " ++ toString stop := by
  have hand : " AND date < ".toList = Piece.chars (.connective .and) ++ "date < ".toList := by
    decide
  have hstop : "date < ".toList ++ (toString stop).toList =
      (Constraint.dated .less stop).chars := by
    rw [← toList_boundText, boundText, String.toList_append]
  rw [← String.toList_inj, String.toList_append, String.toList_append, hand, List.append_assoc,
    List.append_assoc, hstop, ← boundText, toList_boundText, filterText, String.toList_ofList]
  simp only [List.flatMap_cons, List.flatMap_nil, List.append_nil, Piece.chars]

/-- What a date adds to a filter under a waiting comparator. -/
def dateText (range : DateRange) : (waiting : Option Comparison) → String
  | some .greater => boundText .greater range.startEpoch
  | some .less => boundText .less range.endEpoch
  | none => "date > " ++ toString range.startEpoch ++ " AND date < " ++ toString range.endEpoch

namespace Item

variable {now : Moment} {waiting : Option Comparison} {item : Item} {text : String}

/-- A date that has a range is written, whatever comparator waits for it. -/
theorem emission_date {literal : DateLiteral} {range : DateRange} (h : literal.range = .ok range)
    (now : Moment) (waiting : Option Comparison) :
    emission now waiting (.token (.date literal)) = .ok (dateText range waiting) := by
  have hstart : datePiece .greater range.startEpoch = _ :=
    datePiece_of_short .greater range.first.short_epoch
  have hend : datePiece .less range.endEpoch = _ :=
    datePiece_of_short .less range.last.short_epoch
  rw [emission, Token.pieces, h]
  rcases waiting with _ | _ | _
  · rw [dateText, ← filterText_between]
    simp only [bind, Except.bind, pure, Except.pure, hstart, hend]
    rfl
  · rw [dateText, ← filterText_dated]
    simp only [bind, Except.bind, pure, Except.pure, hstart]
    rfl
  · rw [dateText, ← filterText_dated]
    simp only [bind, Except.bind, pure, Except.pure, hend]
    rfl

end Item

end SearchFilter
