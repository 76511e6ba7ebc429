import SearchFilter.Proofs.LexemeHead

namespace SearchFilter

/-- All ways in which the front of a text matches, each with what follows it, in the order in which
they are tried. -/
def Pattern (α : Type) : Type := List Char → List (α × List Char)

namespace Pattern

instance : Monad Pattern where
  pure value := fun cs => [(value, cs)]
  bind first next := fun cs => (first cs).flatMap fun (value, rest) => next value rest

/-- The way in which a pattern matches. -/
def first? {α : Type} (pattern : Pattern α) (cs : List Char) : Option (α × List Char) :=
  (pattern cs).head?

def literal (c : Char) : Pattern Unit
  | [] => []
  | d :: rest => if d = c then [((), rest)] else []

def one (allowed : Char → Bool) : Pattern Char
  | [] => []
  | c :: rest => if allowed c then [(c, rest)] else []

def exactly (allowed : Char → Bool) : (count : Nat) → Pattern (List Char)
  | 0 => pure []
  | count + 1 => do
    let c ← one allowed
    let more ← exactly allowed count
    return c :: more

/-- As many characters as there are, and then one less each time that the rest does not match. -/
def many (allowed : Char → Bool) : Pattern (List Char)
  | [] => [([], [])]
  | c :: rest =>
    (if allowed c then (many allowed rest).map fun (run, after) => (c :: run, after) else []) ++
      [([], c :: rest)]

/-- Looks ahead, and takes nothing. -/
def notBefore (refused : Char → Bool) : Pattern Unit
  | [] => [((), [])]
  | c :: rest => if refused c then [] else [((), c :: rest)]

def either {α : Type} (first second : Pattern α) : Pattern α := fun cs => first cs ++ second cs

/-- Matches only where another pattern does not. -/
def butNot {α β : Type} (pattern : Pattern α) (refused : Pattern β) : Pattern α := fun cs =>
  if (refused.first? cs).isSome then [] else pattern cs

def day : Pattern Lexeme := do
  let y ← exactly isDigit 4
  literal '-'
  let m ← exactly isDigit 2
  literal '-'
  let d ← exactly isDigit 2
  notBefore isWordPart
  return .date (.day y m d)

def month : Pattern Lexeme := do
  let y ← exactly isDigit 4
  literal '-'
  let m ← exactly isDigit 2
  notBefore isWordPart
  return .date (.month y m)

def year : Pattern Lexeme := do
  let y ← exactly isDigit 4
  notBefore isWordPart
  return .date (.year y)

def unit : Pattern DurationUnit
  | [] => []
  | c :: rest => ((DurationUnit.ofSuffix? c).map (·, rest)).toList

def duration : Pattern Lexeme := do
  let c ← one isDigit
  let more ← many isDigit
  let unit ← unit
  notBefore isWordPart
  return .duration (c :: more) unit

def connective : Pattern Lexeme := do
  let connective ← either
    (do literal 'A'; literal 'N'; literal 'D'; return Connective.and)
    (do literal 'O'; literal 'R'; return Connective.or)
  notBefore isWordPart
  return .connective connective

def word : Pattern (List Char) := do
  let c ← one isWordStart
  let more ← many isWordPart
  return c :: more

def tag : Pattern Lexeme := (Lexeme.tag <$> word).butNot connective

def notTag : Pattern Lexeme := do
  literal '!'
  let name ← word
  return .notTag name

/-- The alternatives for a word, in the order in which they are tried. -/
def alternatives : List (Pattern Lexeme) := [day, month, year, duration, connective, tag]

/-- A pattern matches in one way at most, which a reader gives. -/
def Forces {α : Type} (pattern : Pattern α) (reader : List Char → Option (α × List Char)) : Prop :=
  ∀ cs, pattern cs = (reader cs).toList

section

variable {α β : Type}

theorem bind_apply (pattern : Pattern α) (next : α → Pattern β) (cs : List Char) :
    (pattern >>= next) cs = (pattern cs).flatMap fun x => next x.1 x.2 := rfl

namespace Forces

theorem first?_eq {pattern : Pattern α} {reader : List Char → Option (α × List Char)}
    (h : pattern.Forces reader) (cs : List Char) : pattern.first? cs = reader cs := by
  rw [first?, h cs, Option.head?_toList]

theorem bind {pattern : Pattern α} {reader : List Char → Option (α × List Char)}
    {next : α → Pattern β} {later : α → List Char → Option (β × List Char)}
    (h : pattern.Forces reader) (hn : ∀ value, (next value).Forces (later value)) :
    (pattern >>= next).Forces fun cs => reader cs >>= fun x => later x.1 x.2 := by
  intro cs
  change _ = ((reader cs).bind fun x => later x.1 x.2).toList
  rw [bind_apply, h cs]
  cases reader cs with
  | none => rfl
  | some x => exact (List.append_nil _).trans (hn x.1 x.2)

theorem literal {c : Char} {next : Pattern β} {later : List Char → Option (β × List Char)}
    (hn : next.Forces later) :
    (Pattern.literal c >>= fun _ => next).Forces fun cs => takeChar? c cs >>= later := by
  intro cs
  cases cs with
  | nil => rfl
  | cons d rest =>
    change _ = ((takeChar? c (d :: rest)).bind later).toList
    by_cases hd : d = c
    · rw [bind_apply, Pattern.literal, takeChar?, if_pos hd, if_pos hd]
      exact (List.append_nil _).trans (hn rest)
    · rw [bind_apply, Pattern.literal, takeChar?, if_neg hd, if_neg hd]
      rfl

theorem exactly (count : Nat) : (Pattern.exactly isDigit count).Forces (takeDigits? count) := by
  induction count with
  | zero => exact fun cs => rfl
  | succ count ih =>
    intro cs
    cases cs with
    | nil => rfl
    | cons c rest =>
      by_cases hc : isDigit c
      · have htail : Pattern.exactly isDigit (count + 1) (c :: rest) =
            (Pattern.exactly isDigit count rest).map fun x => (c :: x.1, x.2) := by
          rw [Pattern.exactly, bind_apply, one, if_pos hc]
          exact (List.append_nil _).trans List.map_eq_flatMap.symm
        rw [htail, ih rest]
        by_cases hd : (rest.take count).length = count ∧ (rest.take count).all isDigit
        · rw [takeDigits?, if_pos hd, takeDigits?, if_pos (by simpa [hc] using hd)]
          rfl
        · rw [takeDigits?, if_neg hd, takeDigits?, if_neg (by simpa [hc] using hd)]
          rfl
      · rw [Pattern.exactly, bind_apply, one, if_neg hc, takeDigits?, if_neg (by simp [hc])]
        rfl

theorem endWord (lexeme : Lexeme) :
    (notBefore isWordPart >>= fun _ => pure lexeme).Forces (Lexeme.endWord lexeme) := by
  intro cs
  cases cs with
  | nil => rfl
  | cons c rest =>
    by_cases hc : isWordPart c
    · rw [bind_apply, notBefore, if_pos hc, Lexeme.endWord, if_neg (by simp [atBoundary, hc])]
      rfl
    · rw [bind_apply, notBefore, if_neg hc, Lexeme.endWord, if_pos (by simp [atBoundary, hc])]
      rfl

theorem day : Pattern.day.Forces Lexeme.day? :=
  (exactly 4).bind fun _ => literal <| (exactly 2).bind fun _ => literal <|
    (exactly 2).bind fun _ => endWord _

theorem month : Pattern.month.Forces Lexeme.month? :=
  (exactly 4).bind fun _ => literal <| (exactly 2).bind fun _ => endWord _

theorem year : Pattern.year.Forces Lexeme.year? :=
  (exactly 4).bind fun _ => endWord _

end Forces

/-- Giving back characters of a run is of no use where what follows cannot begin with them. -/
theorem many_bind {allowed : Char → Bool} {next : List Char → Pattern β}
    (h : ∀ run c rest, allowed c → next run (c :: rest) = []) (cs : List Char) :
    (many allowed >>= next) cs = next (cs.takeWhile allowed) (cs.dropWhile allowed) := by
  induction cs generalizing next with
  | nil => exact List.append_nil _
  | cons c rest ih =>
    by_cases hc : allowed c
    · have hlonger : ((many allowed rest).map fun x => (c :: x.1, x.2)).flatMap
          (fun x => next x.1 x.2) = (many allowed >>= fun run => next (c :: run)) rest := by
        rw [bind_apply, List.flatMap_map]
      rw [bind_apply, many, if_pos hc, List.flatMap_append]
      change ((many allowed rest).map fun x => (c :: x.1, x.2)).flatMap _ ++ _ = _
      rw [hlonger, ih fun run => h (c :: run), List.flatMap_singleton, h [] c rest hc,
        List.append_nil, List.takeWhile_cons_of_pos hc, List.dropWhile_cons_of_pos hc]
    · rw [bind_apply, many, if_neg hc, List.nil_append, List.flatMap_singleton,
        List.takeWhile_cons_of_neg hc, List.dropWhile_cons_of_neg hc]

/-- A run that nothing has to follow is the longest one. -/
theorem first?_many (allowed : Char → Bool) (cs : List Char) :
    (many allowed).first? cs = some (cs.takeWhile allowed, cs.dropWhile allowed) := by
  induction cs with
  | nil => rfl
  | cons c rest ih =>
    by_cases hc : allowed c
    · rw [first?] at ih
      rw [first?, many, if_pos hc, List.head?_append, List.head?_map, ih,
        List.takeWhile_cons_of_pos hc, List.dropWhile_cons_of_pos hc]
      rfl
    · rw [first?, many, if_neg hc, List.takeWhile_cons_of_neg hc, List.dropWhile_cons_of_neg hc]
      rfl

theorem first?_map (change : α → β) (pattern : Pattern α) (cs : List Char) :
    (change <$> pattern).first? cs = (pattern.first? cs).map fun x => (change x.1, x.2) := by
  rw [first?, first?, ← List.head?_map]
  exact congrArg List.head? List.map_eq_flatMap.symm

theorem mem_literal_bind {c : Char} {next : Pattern β} {cs : List Char} {x : β × List Char} :
    x ∈ (literal c >>= fun _ => next) cs ↔ ∃ rest, cs = c :: rest ∧ x ∈ next rest := by
  cases cs with
  | nil => simp [bind_apply, literal]
  | cons d rest => by_cases hd : d = c <;> simp [bind_apply, literal, hd]

/-- A run that is taken as a whole, as what follows it cannot begin with characters of it. -/
theorem Forces.run {first part : Char → Bool} {next : List Char → Pattern β}
    {later : List Char → List Char → Option (β × List Char)}
    (hn : ∀ run, (next run).Forces (later run))
    (hp : ∀ run c rest, part c → next run (c :: rest) = []) :
    (one first >>= fun c => many part >>= fun more => next (c :: more)).Forces fun cs =>
      takeRun? first part cs >>= fun x => later x.1 x.2 := by
  intro cs
  cases cs with
  | nil => rfl
  | cons c rest =>
    change _ = ((takeRun? first part (c :: rest)).bind fun x => later x.1 x.2).toList
    by_cases hc : first c
    · rw [bind_apply, one, if_pos hc, takeRun?, if_pos hc, List.flatMap_singleton]
      exact (many_bind (fun run => hp (c :: run)) rest).trans (hn _ _)
    · rw [bind_apply, one, if_neg hc, takeRun?, if_neg hc]
      rfl

end

/-- No digit is a unit, so a duration takes all digits of its run, whatever is given back. -/
theorem Forces.duration : Pattern.duration.Forces Lexeme.duration? := by
  have hunit : unit.Forces takeUnit? := by
    intro cs
    cases cs <;> rfl
  refine Forces.run (fun digits => hunit.bind fun unit => .endWord (.duration digits unit)) ?_
  intro run c rest hc
  have hletter : DurationUnit.ofSuffix? c = none := by
    cases hu : DurationUnit.ofSuffix? c with
    | none => rfl
    | some unit =>
      rw [← DurationUnit.ofSuffix?_eq_some_iff.mp hu, isDigit_suffix] at hc
      cases hc
  rw [bind_apply, unit, hletter]
  rfl

theorem Forces.connective : Pattern.connective.Forces Lexeme.connective? := by
  intro cs
  unfold Lexeme.connective?
  split
  next rest => exact (List.append_nil _).trans (Forces.endWord (.connective .and) rest)
  next rest => exact (List.append_nil _).trans (Forces.endWord (.connective .or) rest)
  next hand hor =>
    refine List.eq_nil_iff_forall_not_mem.mpr fun x hx => ?_
    obtain ⟨_, hword, -⟩ := List.mem_flatMap.mp hx
    rcases List.mem_append.mp hword with ha | ho
    · obtain ⟨_, rfl, hn⟩ := mem_literal_bind.mp ha
      obtain ⟨_, rfl, hd⟩ := mem_literal_bind.mp hn
      obtain ⟨rest, rfl, -⟩ := mem_literal_bind.mp hd
      exact hand rest rfl
    · obtain ⟨_, rfl, hr⟩ := mem_literal_bind.mp ho
      obtain ⟨rest, rfl, -⟩ := mem_literal_bind.mp hr
      exact hor rest rfl

theorem first?_word (cs : List Char) : word.first? cs = takeRun? isWordStart isWordPart cs := by
  cases cs with
  | nil => rfl
  | cons c rest =>
    by_cases hc : isWordStart c
    · have hrun : word (c :: rest) = ((c :: ·) <$> many isWordPart) rest := by
        rw [word, bind_apply, one, if_pos hc]
        exact List.append_nil _
      rw [first?, hrun, takeRun?, if_pos hc]
      exact (first?_map _ _ rest).trans (by rw [first?_many]; rfl)
    · rw [first?, word, bind_apply, one, if_neg hc, takeRun?, if_neg hc]
      rfl

theorem first?_tag (cs : List Char) : tag.first? cs = Lexeme.tag? cs := by
  rw [first?, tag, butNot, Forces.connective.first?_eq, Lexeme.tag?]
  split
  next => rfl
  next =>
    rw [← first?_word]
    exact first?_map Lexeme.tag word cs

theorem first?_notTag (cs : List Char) : notTag.first? cs = Lexeme.notTag? cs := by
  cases cs with
  | nil => rfl
  | cons c rest =>
    by_cases hc : c = '!'
    · have hword : notTag (c :: rest) = (Lexeme.notTag <$> word) rest := by
        rw [notTag, bind_apply, literal, if_pos hc]
        exact List.append_nil _
      have hname : notTag.first? (c :: rest) =
          (takeRun? isWordStart isWordPart rest).map fun x => (.notTag x.1, x.2) := by
        rw [first?, hword, ← first?_word]
        exact first?_map Lexeme.notTag word rest
      rw [hname, Lexeme.notTag?, takeChar?, if_pos hc, Option.map_eq_bind]
      rfl
    · rw [first?, notTag, bind_apply, literal, if_neg hc, Lexeme.notTag?, takeChar?, if_neg hc]
      rfl

/-- The readers of words find what trying each alternative with its ways in order finds. -/
theorem first?_alternatives (cs : List Char) :
    alternatives.map (·.first? cs) = Lexeme.wordReaders.map (· cs) := by
  simp only [alternatives, Lexeme.wordReaders, List.map_cons, List.map_nil,
    Forces.day.first?_eq, Forces.month.first?_eq, Forces.year.first?_eq,
    Forces.duration.first?_eq, Forces.connective.first?_eq, first?_tag]

end Pattern

end SearchFilter
