import Mathlib.Data.List.Induction
import Mathlib.Data.Option.Basic
import SearchFilter.JsonReader
import SearchFilter.JsonWriter
import SearchFilter.Proofs.DecimalNumber

namespace SearchFilter

namespace Json

/-- A control character is read back from the four digits of its number. -/
theorem hexUnit?_of_control : ∀ n < 0x20,
    hexUnit? (Nat.digitChar (n / 16 / 16 / 16 % 16)) (Nat.digitChar (n / 16 / 16 % 16))
      (Nat.digitChar (n / 16 % 16)) (Nat.digitChar (n % 16)) = some n := by
  decide

theorem readText_plainEscape {letter c : Char} (h : plainEscape? letter = some c)
    (rest : List Char) :
    readText ('\\' :: letter :: rest) =
      (readText rest).map fun (text, after) => (c :: text, after) := by
  have hu : letter ≠ 'u' := by
    rintro rfl
    cases h
  rw [readText.eq_4 _ _ fun _ _ _ _ _ he _ => hu he, h]
  cases readText rest <;> rfl

theorem readText_raw {c : Char} (hmark : c ≠ '\x22') (hslash : c ≠ '\\') (hc : ¬c.toNat < 0x20)
    (rest : List Char) :
    readText (c :: rest) = (readText rest).map fun (text, after) => (c :: text, after) := by
  rw [readText.eq_5 _ _ hmark (fun _ _ _ _ _ he _ => hslash he) fun _ _ he _ => hslash he,
    if_neg hc]
  cases readText rest <;> rfl

theorem readText_control {c : Char} (hc : c.toNat < 0x20) (rest : List Char) :
    readText ('\\' :: 'u' :: hexDigits 4 c.toNat ++ rest) =
      (readText rest).map fun (text, after) => (c :: text, after) := by
  have hunit := hexUnit?_of_control c.toNat hc
  have hlow : isLowSurrogate c.toNat = false := by
    simp only [isLowSurrogate, Bool.and_eq_false_iff, decide_eq_false_iff_not]
    omega
  have hhigh : isHighSurrogate c.toNat = false := by
    simp only [isHighSurrogate, Bool.and_eq_false_iff, decide_eq_false_iff_not]
    omega
  change readText ('\\' :: 'u' :: _ :: _ :: _ :: _ :: rest) = _
  rw [readText, hunit, Option.bind_eq_bind, Option.bind_some, if_neg (by simp [hlow]),
    if_neg (by simp [hhigh]), Char.ofNat_toNat]
  cases readText rest <;> rfl

/-- Reading takes what a character is written as for that character. -/
theorem readText_escapeChar (c : Char) (rest : List Char) :
    readText (escapeChar c ++ rest) =
      (readText rest).map fun (text, after) => (c :: text, after) := by
  unfold escapeChar
  split
  next h =>
    have hplain : plainEscape? c = some c := by rcases h with rfl | rfl <;> rfl
    exact readText_plainEscape hplain rest
  next hraw =>
    split
    next h => exact h ▸ readText_plainEscape rfl rest
    split
    next h => exact h ▸ readText_plainEscape rfl rest
    split
    next h => exact h ▸ readText_plainEscape rfl rest
    split
    next h => exact h ▸ readText_plainEscape rfl rest
    split
    next h => exact h ▸ readText_plainEscape rfl rest
    split
    next h => exact readText_control h rest
    next h => exact readText_raw (fun he => hraw (.inl he)) (fun he => hraw (.inr he)) h rest

theorem readText_escaped (text rest : List Char) :
    readText (text.flatMap escapeChar ++ '\x22' :: rest) = some (text, rest) := by
  induction text with
  | nil => rw [List.flatMap_nil, List.nil_append, readText]
  | cons c text ih => rw [List.flatMap_cons, List.append_assoc, readText_escapeChar, ih]; rfl

/-- A text does not begin with anything that a number could go on with. -/
def EndsNumber (rest : List Char) : Prop :=
  ∀ c ∈ rest.head?, c.isDigit = false ∧ c ≠ '.' ∧ c ≠ 'e' ∧ c ≠ 'E'

theorem readDigits_toDigits {n : Nat} {rest : List Char} (h : EndsNumber rest) :
    readDigits (Nat.toDigits 10 n ++ rest) = some (Nat.toDigits 10 n, rest) := by
  have hdigits := List.all_eq_true.mp (all_isDigit_toDigits n)
  have htake : rest.takeWhile Char.isDigit = [] := by
    cases rest with
    | nil => rfl
    | cons c rest => simp [(h c rfl).1]
  have hdrop : rest.dropWhile Char.isDigit = rest := by
    cases rest with
    | nil => rfl
    | cons c rest => simp [(h c rfl).1]
  rw [readDigits, List.takeWhile_append_of_pos hdigits, List.dropWhile_append_of_pos hdigits, htake,
    hdrop, List.append_nil, if_neg Nat.toDigits_ne_nil]

theorem readWhole_toDigits {n : Nat} {rest : List Char} (h : EndsNumber rest) :
    readWhole (Nat.toDigits 10 n ++ rest) = some (Nat.toDigits 10 n, rest) := by
  have hplain : (Nat.toDigits 10 n).length = 1 ∨ (Nat.toDigits 10 n).head? ≠ some '0' := by
    rcases Nat.eq_zero_or_pos n with rfl | hn
    · exact .inl rfl
    · exact .inr (head?_toDigits hn)
  simp [readWhole, readDigits_toDigits h, hplain]

theorem readMagnitude_toDigits {n : Nat} {rest : List Char} (h : EndsNumber rest)
    (negative : Bool) :
    readMagnitude negative (Nat.toDigits 10 n ++ rest) =
      some (int (if negative then -(n : Int) else n), rest) := by
  have hfraction : readFraction rest = some ([], rest) := by
    cases rest with
    | nil => rfl
    | cons c rest => rw [readFraction.eq_2]; rintro _ he; exact (h c rfl).2.1 (List.cons.inj he).1
  have hexponent : readExponent rest = some (none, rest) := by
    cases rest with
    | nil => rfl
    | cons c rest =>
      rw [readExponent.eq_3]
      · rintro _ he; exact (h c rfl).2.2.1 (List.cons.inj he).1
      · rintro _ he; exact (h c rfl).2.2.2 (List.cons.inj he).1
  simp [readMagnitude, readWhole_toDigits h, hfraction, hexponent, digitsValue_toDigits]

theorem exists_toDigits (n : Nat) : ∃ c rest, Nat.toDigits 10 n = c :: rest ∧ c.isDigit := by
  obtain ⟨c, rest, he⟩ := List.exists_cons_of_ne_nil (Nat.toDigits_ne_nil (b := 10) (n := n))
  exact ⟨c, rest, he, List.all_eq_true.mp (all_isDigit_toDigits n) c (by simp [he])⟩

theorem readNumber_toString {n : Int} {rest : List Char} (h : EndsNumber rest) :
    readNumber ((toString n).toList ++ rest) = some (int n, rest) := by
  rw [toList_toString_int]
  split
  next hn =>
    have hne : ∀ more, Nat.toDigits 10 n.natAbs ++ rest ≠ '-' :: more := by
      intro more he
      obtain ⟨c, tail, hdigits, hc⟩ := exists_toDigits n.natAbs
      rw [hdigits] at he
      rw [(List.cons.inj he).1] at hc
      cases hc
    have hvalue : (n.natAbs : Int) = n := by omega
    rw [readNumber.eq_2 _ hne, readMagnitude_toDigits h, if_neg Bool.false_ne_true, hvalue]
  next hn =>
    have hvalue : -(n.natAbs : Int) = n := by omega
    rw [List.cons_append, readNumber, readMagnitude_toDigits h, if_pos rfl, hvalue]

/-- A text that does not begin with a blank or with the end of a list. -/
def BeginsValue (cs : List Char) : Prop :=
  ∃ c rest, cs = c :: rest ∧ isBlank c = false ∧ c ≠ ']'

/-- A value is read back from what it is written as, given more steps than that has characters. -/
structure ReadsBack (value : Json) : Prop where
  begins : BeginsValue value.write
  reads : ∀ steps rest, EndsNumber rest → value.write.length < steps →
    readValue steps (value.write ++ rest) = some (value, rest)

/-- A step is there for a value, since its text is not empty. -/
theorem ReadsBack.of_step {value : Json} (hbegins : BeginsValue value.write)
    (hreads : ∀ steps rest, EndsNumber rest → value.write.length ≤ steps →
      readValue (steps + 1) (value.write ++ rest) = some (value, rest)) : ReadsBack value := by
  refine ⟨hbegins, ?_⟩
  rintro (_ | steps) rest hrest hsteps
  · omega
  · exact hreads steps rest hrest (Nat.le_of_lt_succ hsteps)

/-- Values without decimals, whose objects have every key once. -/
inductive Exact : Json → Prop
  | null : Exact null
  | bool (value : Bool) : Exact (bool value)
  | int (value : Int) : Exact (int value)
  | string (text : String) : Exact (string text)
  | array {items : List Json} : (∀ item ∈ items, Exact item) → Exact (array items)
  | object {members : List (String × Json)} : (members.map Prod.fst).Nodup →
      (∀ member ∈ members, Exact member.2) → Exact (object members)

theorem dropWhile_isBlank_of_solid {cs : List Char} (h : ∀ c ∈ cs.head?, isBlank c = false) :
    cs.dropWhile isBlank = cs := by
  cases cs with
  | nil => rfl
  | cons c cs => rw [List.dropWhile_cons_of_neg (by simp [h c rfl])]

theorem isBlank_of_numeric {c : Char} (h : (c == '-' || c.isDigit) = true) : isBlank c = false := by
  cases hb : isBlank c with
  | false => rfl
  | true =>
    simp only [isBlank, Bool.or_eq_true, beq_iff_eq] at hb
    rcases hb with ((rfl | rfl) | rfl) | rfl <;> cases h

section

variable (steps : Nat)

theorem readValue_text (cs : List Char) :
    readValue (steps + 1) ('\x22' :: cs) =
      (readText cs).map fun (text, after) => (string (.ofList text), after) := rfl

theorem readValue_number {c : Char} (hc : (c == '-' || c.isDigit) = true) (cs : List Char) :
    readValue (steps + 1) (c :: cs) = readNumber (c :: cs) := by
  have hother : ∀ d more, c :: cs = d :: more → (d == '-' || d.isDigit) = true := by
    rintro d more he
    rwa [← (List.cons.inj he).1]
  rw [readValue, dropWhile_isBlank_of_solid (by simpa using isBlank_of_numeric hc)]
  split
  next he => cases hother _ _ he
  next he => cases hother _ _ he
  next he => cases hother _ _ he
  next he => cases hother _ _ he
  next he => cases hother _ _ he
  next he => cases hother _ _ he
  next => rfl

theorem readValue_array {inner : List Char} (h : BeginsValue inner) :
    readValue (steps + 1) ('[' :: inner) =
      (readItems steps inner).map fun (items, after) => (array items, after) := by
  obtain ⟨c, rest, rfl, hsolid, hc⟩ := h
  rw [readValue, dropWhile_isBlank_of_solid (by rintro _ ⟨⟩; rfl)]
  split
  next he => cases he
  next he => cases he
  next he => cases he
  next he => cases he
  next he =>
    cases he
    rw [dropWhile_isBlank_of_solid (by simpa using hsolid)]
    split
    next he => exact absurd (List.cons.inj he).1 hc
    next => rfl
  next he => cases he
  next hopen _ => exact absurd rfl (hopen _)

end

theorem BeginsValue.append {cs : List Char} (h : BeginsValue cs) (more : List Char) :
    BeginsValue (cs ++ more) := by
  obtain ⟨c, rest, rfl, hc⟩ := h
  exact ⟨c, rest ++ more, rfl, hc⟩

/-- A number begins with a minus or a digit. -/
theorem exists_toString_int (n : Int) :
    ∃ c rest, (toString n).toList = c :: rest ∧ (c == '-' || c.isDigit) = true := by
  rw [toList_toString_int]
  split
  next =>
    obtain ⟨c, rest, he, hc⟩ := exists_toDigits n.natAbs
    exact ⟨c, rest, he, by simp [hc]⟩
  next => exact ⟨'-', _, rfl, rfl⟩

theorem readsBack_int (n : Int) : ReadsBack (int n) := by
  obtain ⟨c, tail, hwrite, hc⟩ := exists_toString_int n
  refine .of_step ⟨c, tail, hwrite, isBlank_of_numeric hc, ?_⟩ fun steps rest hrest _ => ?_
  · rintro rfl
    cases hc
  · have hread := readNumber_toString (n := n) hrest
    rw [hwrite, List.cons_append] at hread
    rw [write, hwrite, List.cons_append, readValue_number steps hc, hread]

theorem readsBack_string (text : String) : ReadsBack (string text) := by
  refine .of_step ⟨'\x22', _, rfl, rfl, by decide⟩ fun steps rest _ _ => ?_
  have htext := readText_escaped text.toList rest
  rw [write, writeText, List.cons_append, List.cons_append, readValue_text, List.append_assoc,
    List.singleton_append, htext]
  simp

theorem endsNumber_writeItems (items : List Json) (rest : List Char) :
    EndsNumber (writeItems items ++ rest) := by
  cases items with
  | nil => rintro c hc; cases Option.some.inj hc; decide
  | cons item items => rintro c hc; cases Option.some.inj hc; decide

theorem readItems_write {item : Json} {items : List Json}
    (h : ∀ value ∈ item :: items, ReadsBack value) (steps : Nat) (rest : List Char)
    (hsteps : (item.write ++ writeItems items).length < steps) :
    readItems steps (item.write ++ writeItems items ++ rest) = some (item :: items, rest) := by
  induction items generalizing item steps with
  | nil =>
    rcases steps with _ | steps
    · omega
    · rw [List.length_append, writeItems, List.length_singleton] at hsteps
      have hitem := (h item (by simp)).reads steps (writeItems [] ++ rest)
        (endsNumber_writeItems _ _) (by omega)
      rw [List.append_assoc, readItems, hitem]
      rfl
  | cons next items ih =>
    rcases steps with _ | steps
    · omega
    · simp only [List.length_append, writeItems, List.length_cons] at hsteps
      have hitem := (h item (by simp)).reads steps (writeItems (next :: items) ++ rest)
        (endsNumber_writeItems _ _) (by omega)
      have hlater := ih (fun value hm => h value (List.mem_cons_of_mem _ hm)) steps
        (by rw [List.length_append]; omega)
      rw [List.append_assoc, readItems, hitem]
      change (readItems steps (next.write ++ writeItems items ++ rest) >>= fun (items, after) =>
        some (item :: items, after)) = _
      rw [hlater]
      rfl

theorem readsBack_array {items : List Json} (h : ∀ item ∈ items, ReadsBack item) :
    ReadsBack (array items) := by
  cases items with
  | nil => exact .of_step ⟨'[', _, rfl, rfl, by decide⟩ fun steps rest _ _ => rfl
  | cons item items =>
    refine .of_step ⟨'[', _, rfl, rfl, by decide⟩ fun steps rest _ hsteps => ?_
    rw [write, List.cons_append] at hsteps ⊢
    rw [List.length_cons] at hsteps
    have hbegins := ((h item (by simp)).begins.append (writeItems items)).append rest
    rw [List.cons_append, readValue_array _ hbegins, readItems_write h steps rest (by omega)]
    rfl

/-- Reading a member takes its key, then its value, and goes on behind the comma if there is one. -/
theorem readMembers_member {key : String} {value : Json} (h : ReadsBack value) {steps : Nat}
    (hsteps : value.write.length < steps) {more after : List Char} {found : List (String × Json)}
    (hmore : more = '\x7d' :: after ∧ found = [] ∨
      ∃ rest, more = ',' :: rest ∧ readMembers steps rest = some (found, after)) :
    readMembers (steps + 1) (writeText key ++ ':' :: value.write ++ more) =
      some ((key, value) :: found, after) := by
  have hends : EndsNumber more := by
    rintro c hc
    rcases hmore with ⟨rfl, -⟩ | ⟨rest, rfl, -⟩ <;> cases Option.some.inj hc <;> decide
  have htext : readText (key.toList.flatMap escapeChar ++
      '\x22' :: (':' :: (value.write ++ more))) = some (key.toList, ':' :: (value.write ++ more)) :=
    readText_escaped _ _
  have hcs : writeText key ++ ':' :: value.write ++ more =
      '\x22' :: (key.toList.flatMap escapeChar ++ '\x22' :: (':' :: (value.write ++ more))) := by
    simp [writeText]
  have hvalue := h.reads steps more hends hsteps
  rw [hcs]
  change (readText _ >>= _) = _
  rw [htext]
  change (readValue steps _ >>= _) = _
  rw [hvalue]
  simp only [Option.bind_eq_bind, Option.bind_some, String.ofList_toList]
  rcases hmore with ⟨rfl, rfl⟩ | ⟨rest, rfl, hrest⟩
  · rfl
  · change (readMembers steps rest >>= _) = _
    rw [hrest]
    rfl

theorem readMembers_write {key : String} {value : Json} {members : List (String × Json)}
    (h : ∀ member ∈ (key, value) :: members, ReadsBack member.2) (steps : Nat) (rest : List Char)
    (hsteps : (writeText key ++ ':' :: value.write ++ writeMembers members).length < steps) :
    readMembers steps (writeText key ++ ':' :: value.write ++ writeMembers members ++ rest) =
      some ((key, value) :: members, rest) := by
  induction members generalizing key value steps with
  | nil =>
    rcases steps with _ | steps
    · omega
    · have hvalue : ReadsBack value := h _ List.mem_cons_self
      simp only [List.length_append, List.length_cons] at hsteps
      rw [List.append_assoc]
      exact readMembers_member hvalue (by omega) (.inl ⟨rfl, rfl⟩)
  | cons next members ih =>
    obtain ⟨other, later⟩ := next
    rcases steps with _ | steps
    · omega
    · have hvalue : ReadsBack value := h _ List.mem_cons_self
      simp only [List.length_append, List.length_cons, writeMembers] at hsteps
      have hlater := ih (fun member hm => h member (List.mem_cons_of_mem _ hm)) steps
        (by simp only [List.length_append, List.length_cons]; omega)
      rw [List.append_assoc]
      exact readMembers_member hvalue (by omega) (.inr ⟨_, rfl, hlater⟩)

theorem putMember_of_new {key : String} {found : List (String × Json)}
    (h : key ∉ found.map Prod.fst) (value : Json) :
    putMember key value found = found ++ [(key, value)] := by
  induction found with
  | nil => rfl
  | cons first found ih =>
    simp only [List.map_cons, List.mem_cons, not_or] at h
    rw [putMember, if_neg (Ne.symm h.1), ih h.2, List.cons_append]

/-- Members with distinct keys stay as they are. -/
theorem ofMembers_of_nodup {members : List (String × Json)} (h : (members.map Prod.fst).Nodup) :
    ofMembers members = object members := by
  -- from the end, since the last member meets what all the others have come to
  rw [ofMembers]
  induction members using List.reverseRecOn with
  | nil => rfl
  | append_singleton members member ih =>
    obtain ⟨key, value⟩ := member
    rw [List.map_append] at h
    have hkey : key ∉ members.map Prod.fst := fun hm =>
      (List.nodup_append.mp h).2.2 key hm key (by simp) rfl
    have hfound := object.inj (ih (List.nodup_append.mp h).1)
    rw [List.foldl_append, hfound]
    exact congrArg object (putMember_of_new hkey value)

theorem readsBack_object {members : List (String × Json)} (hkeys : (members.map Prod.fst).Nodup)
    (h : ∀ member ∈ members, ReadsBack member.2) : ReadsBack (object members) := by
  cases members with
  | nil => exact .of_step ⟨'\x7b', _, rfl, rfl, by decide⟩ fun steps rest _ _ => rfl
  | cons member members =>
    obtain ⟨key, value⟩ := member
    refine .of_step ⟨'\x7b', _, rfl, rfl, by decide⟩ fun steps rest _ hsteps => ?_
    simp only [write, List.cons_append, List.length_cons] at hsteps
    have hmembers := readMembers_write h steps rest (by omega)
    change (readMembers steps (writeText key ++ ':' :: value.write ++ writeMembers members ++
      rest)).map _ = _
    rw [hmembers]
    exact congrArg (fun value => some (value, rest)) (ofMembers_of_nodup hkeys)

theorem Exact.readsBack {value : Json} (h : Exact value) : ReadsBack value := by
  induction h with
  | null => exact .of_step ⟨'n', _, rfl, rfl, by decide⟩ fun steps rest _ _ => rfl
  | bool value =>
    cases value with
    | false => exact .of_step ⟨'f', _, rfl, rfl, by decide⟩ fun steps rest _ _ => rfl
    | true => exact .of_step ⟨'t', _, rfl, rfl, by decide⟩ fun steps rest _ _ => rfl
  | int value => exact readsBack_int value
  | string text => exact readsBack_string text
  | array _ ih => exact readsBack_array ih
  | object hkeys _ ih => exact readsBack_object hkeys ih

/-- A value without decimals is read back from its compact text. -/
theorem parse?_compact {value : Json} (h : Exact value) : parse? value.compact = some value := by
  have hlength : value.compact.toList.length = value.compact.length := String.length_toList
  have hwrite : value.compact.toList = value.write := String.toList_ofList
  have hread := h.readsBack.reads (value.compact.length + 1) [] (by rintro c hc; cases hc)
    (by rw [← hlength, hwrite]; omega)
  rw [List.append_nil] at hread
  change (readValue _ value.compact.toList >>= _) = _
  rw [hwrite, hread]
  rfl

end Json

end SearchFilter
