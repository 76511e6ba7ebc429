import SearchFilter.Proofs.CheckedKinds
import SearchFilter.SearchResponse

namespace SearchFilter

/-- A field of a body: its name, the name that the backend has for it if that is another one, the
kind of its values, and its default. -/
structure Declared where
  name : String
  wireName : Option String := none
  kind : Kind
  default : Json

namespace Declared

/-- The member that a field is taken from: the one under the name of the backend, even if that is
null, or else the one under its own name. -/
def given (members : List (String × Json)) (field : Declared) : Option (String × Json) :=
  let member := fun key => (members.lookup key).map (key, ·)
  match field.wireName.bind member with
  | some found => some found
  | none => member field.name

/-- Whether a field has a value after the checks: the converted one, or the default if no value was
given. -/
def Holds (members : List (String × Json)) (field : Declared) (result : Json) : Prop :=
  match field.given members with
  | some (_, value) => field.kind.Converts value result
  | none => result = field.default

/-- What is wrong with the value of a field, below the key that it was found under. -/
def issues (members : List (String × Json)) (field : Declared) : List Issue :=
  match field.given members with
  | some (key, value) => (field.kind.issues value).map (Issue.under (.key key))
  | none => []

/-- The names that a field is looked for under, in their order. -/
def keys (field : Declared) : List String := field.wireName.toList ++ [field.name]

variable {members : List (String × Json)} {field : Declared}

theorem findSome?_keys :
    (field.keys.findSome? fun key => (members.lookup key).map (key, ·)) = field.given members := by
  obtain ⟨name, wireName, kind, default⟩ := field
  cases wireName with
  | none =>
    simp only [keys, given, Option.toList_none, List.nil_append, Option.bind_none,
      List.findSome?_cons, List.findSome?_nil]
    cases members.lookup name <;> rfl
  | some wire =>
    simp only [keys, given, Option.toList_some, List.cons_append, List.nil_append,
      Option.bind_some, List.findSome?_cons, List.findSome?_nil]
    cases members.lookup wire <;> cases members.lookup name <;> rfl

theorem checkField (members : List (String × Json)) (field : Declared) {α : Type} (default : α)
    {check : Json → Checked α} {write : α → Json} (h : field.kind.Describes check write)
    (hdefault : write default = field.default) :
    (Json.checkField members field.keys default check).Amounts
      (fun result => field.Holds members (write result)) (field.issues members) := by
  rw [Json.checkField, findSome?_keys]
  unfold Holds issues
  cases field.given members with
  | none =>
    refine (Checked.Amounts.valid default).congr (fun result => ?_) rfl
    rw [← hdefault]
    exact ⟨fun he => congrArg write he.symm, fun he => (h.injective he).symm⟩
  | some found => exact (h.amounts found.2).within (.key found.1)

/-- A field is taken from the same member of two objects if that member is in both and the second
one has no others than the first. -/
theorem given_eq_of_lookup {others : List (String × Json)}
    (hgiven : ∀ key value, field.given members = some (key, value) →
      others.lookup key = some value)
    (hnone : ∀ key, members.lookup key = none → others.lookup key = none) :
    field.given others = field.given members := by
  cases hfound : field.given members with
  | none =>
    rw [← findSome?_keys] at hfound ⊢
    have hmissing := List.findSome?_eq_none_iff.mp hfound
    refine List.findSome?_eq_none_iff.mpr fun key hm => ?_
    rw [hnone key (Option.map_eq_none_iff.mp (hmissing key hm))]
    rfl
  | some found =>
    obtain ⟨key, value⟩ := found
    have hvalue := hgiven key value hfound
    rw [← findSome?_keys] at hfound ⊢
    obtain ⟨front, used, rest, hkeys, hused, hfront⟩ := List.findSome?_eq_some_iff.mp hfound
    obtain ⟨_, _, he⟩ := Option.map_eq_some_iff.mp hused
    cases he
    refine List.findSome?_eq_some_iff.mpr ⟨front, key, rest, hkeys, by rw [hvalue]; rfl, ?_⟩
    intro earlier hm
    rw [hnone earlier (Option.map_eq_none_iff.mp (hfront earlier hm))]
    rfl

theorem lookup_of_given {key : String} {value : Json}
    (h : field.given members = some (key, value)) : members.lookup key = some value := by
  rw [← findSome?_keys] at h
  obtain ⟨_, used, _, _, hused, _⟩ := List.findSome?_eq_some_iff.mp h
  obtain ⟨_, hvalue, he⟩ := Option.map_eq_some_iff.mp hused
  cases he
  exact hvalue

theorem issues_eq_nil_iff :
    field.issues members = [] ↔ ∀ key value, field.given members = some (key, value) →
      ∃ result, field.kind.Converts value result := by
  unfold issues
  cases field.given members with
  | none => exact ⟨fun _ => nofun, fun _ => rfl⟩
  | some found =>
    rw [List.map_eq_nil_iff, Kind.issues_eq_nil_iff]
    constructor
    · rintro hresult key value ⟨⟩
      exact hresult
    · intro h
      exact h found.1 found.2 rfl

end Declared

/-- The members of an object that fields are taken from: those without unknown names, and without
names in whose place the name that the backend has is used. -/
def relevant (declared : List Declared) (members : List (String × Json)) : List (String × Json) :=
  members.filter fun (key, _) =>
    declared.any fun field => (field.given members).map Prod.fst = some key

theorem lookup_filter_key {members : List (String × Json)} (keep : String → Bool) (key : String) :
    (members.filter fun (key, _) => keep key).lookup key =
      if keep key then members.lookup key else none := by
  induction members with
  | nil => simp
  | cons member members ih =>
    obtain ⟨other, value⟩ := member
    by_cases hkey : key = other
    · subst hkey
      cases hkeep : keep key with
      | true => simp [hkeep]
      | false => simpa [hkeep] using ih
    · have hne : (key == other) = false := by simpa using hkey
      cases hkeep : keep other with
      | true => simpa [hkeep, List.lookup_cons, hne] using ih
      | false => simpa [hkeep, List.lookup_cons, hne] using ih

theorem lookup_eq_some_iff_mem {members : List (String × Json)}
    (h : (members.map Prod.fst).Nodup) {key : String} {value : Json} :
    members.lookup key = some value ↔ (key, value) ∈ members := by
  induction members with
  | nil => simp
  | cons member members ih =>
    obtain ⟨other, found⟩ := member
    obtain ⟨hother, hrest⟩ := List.nodup_cons.mp h
    by_cases hkey : key = other
    · subst hkey
      have hmissing : (key, value) ∉ members := by
        intro hm
        exact hother (List.mem_map.mpr ⟨(key, value), hm, rfl⟩)
      simp [hmissing, eq_comm]
    · have hne : (key == other) = false := by simpa using hkey
      simp [List.lookup_cons, hne, ih hrest, hkey]

/-- The order of members with different keys does not matter for a lookup. -/
theorem lookup_eq_of_perm {members others : List (String × Json)}
    (h : (members.map Prod.fst).Nodup) (hperm : members.Perm others) (key : String) :
    members.lookup key = others.lookup key := by
  have hothers : (others.map Prod.fst).Nodup := (hperm.map Prod.fst).nodup_iff.mp h
  refine Option.ext fun value => ?_
  rw [lookup_eq_some_iff_mem h, lookup_eq_some_iff_mem hothers, hperm.mem_iff]

theorem Declared.given_relevant {declared : List Declared} {field : Declared}
    (h : field ∈ declared) (members : List (String × Json)) :
    field.given (relevant declared members) = field.given members := by
  refine given_eq_of_lookup ?_ ?_
  · intro key value hgiven
    have hkeep : (declared.any fun field =>
        (field.given members).map Prod.fst = some key) = true := by
      refine List.any_eq_true.mpr ⟨field, h, ?_⟩
      simp [hgiven]
    rw [relevant, lookup_filter_key (fun key => declared.any fun field =>
      (field.given members).map Prod.fst = some key), hkeep]
    exact lookup_of_given hgiven
  · intro key hnone
    rw [relevant, lookup_filter_key (fun key => declared.any fun field =>
      (field.given members).map Prod.fst = some key), hnone, ite_self]

/-- A check of an object that works field by field. -/
structure CheckedFieldwise {Body : Type} (check : List (String × Json) → Checked Body)
    (values : Body → List Json) (declared : List Declared) : Prop where
  /-- The body has the converted values of its fields, and defaults where no value is given. -/
  valid_iff : ∀ members body, check members = .valid body ↔
    List.Forall₂ (Declared.Holds members) declared (values body)
  /-- There is a body exactly if all given values can be converted. -/
  exists_valid_iff : ∀ members, (∃ body, check members = .valid body) ↔
    ∀ field ∈ declared, ∀ key value, field.given members = some (key, value) →
      ∃ result, field.kind.Converts value result
  /-- Otherwise there are the issues of all fields, in the order of their declaration. -/
  invalid_iff : ∀ members issues, check members = .invalid issues ↔
    issues = declared.flatMap (Declared.issues members) ∧ issues ≠ []
  /-- Only the members matter that fields are taken from, and their order does not. -/
  eq_of_perm : ∀ members others, (members.map Prod.fst).Nodup →
    (relevant declared members).Perm (relevant declared others) → check members = check others

theorem forall₂_congr_of_mem {α β : Type} {R S : α → β → Prop} {as : List α} {bs : List β}
    (h : ∀ a ∈ as, ∀ b, R a b ↔ S a b) : List.Forall₂ R as bs ↔ List.Forall₂ S as bs := by
  induction as generalizing bs with
  | nil => rw [List.forall₂_nil_left_iff, List.forall₂_nil_left_iff]
  | cons a as ih =>
    cases bs with
    | nil => exact ⟨nofun, nofun⟩
    | cons b bs =>
      rw [List.forall₂_cons, List.forall₂_cons, h a List.mem_cons_self b,
        ih fun a hm => h a (List.mem_cons_of_mem _ hm)]

/-- What a check comes to is all that its independence rests on. -/
theorem checkedFieldwise_of_amounts {Body : Type} {check : List (String × Json) → Checked Body}
    {values : Body → List Json} {declared : List Declared}
    (h : ∀ members, (check members).Amounts
      (fun body => List.Forall₂ (Declared.Holds members) declared (values body))
      (declared.flatMap (Declared.issues members))) :
    CheckedFieldwise check values declared where
  valid_iff members := (h members).valid_iff
  exists_valid_iff members := by
    rw [(h members).exists_valid_iff, List.flatMap_eq_nil_iff]
    simp only [Declared.issues_eq_nil_iff]
  invalid_iff members _ := (h members).eq_invalid_iff
  eq_of_perm members others hmembers hperm := by
    have hnodup : ((relevant declared members).map Prod.fst).Nodup :=
      hmembers.sublist (List.filter_sublist.map Prod.fst)
    have hgiven : ∀ field ∈ declared, field.given others = field.given members := by
      intro field hm
      rw [← Declared.given_relevant hm members, ← Declared.given_relevant hm others]
      simp only [Declared.given, lookup_eq_of_perm hnodup hperm]
    refine (h members).unique ((h others).congr (fun body => ?_) ?_)
    · refine forall₂_congr_of_mem fun field hm result => ?_
      rw [Declared.Holds, Declared.Holds, hgiven field hm]
    · refine List.flatMap_congr fun field hm => ?_
      rw [Declared.issues, Declared.issues, hgiven field hm]

/-- The fields of a search request, in the order of their declaration. -/
def SearchQuery.declared : List Declared :=
  [{ name := "query", wireName := some "q", kind := .nullable (.scalar .text), default := .null },
    { name := "filter", kind := .nullable (.scalar .text), default := .null },
    { name := "sort", kind := .nullable (.list (.scalar .text)),
      default := .array [.string "date:desc"] },
    { name := "facets_distribution", wireName := some "facetsDistribution",
      kind := .nullable (.list (.scalar .text)), default := .null },
    { name := "limit", kind := .scalar .int, default := .int 10000 }]

def SearchQuery.values (body : SearchQuery) : List Json :=
  [body.query, body.filter, body.sort, body.facetsDistribution, body.limit]

/-- The fields of a search reply, in the order of their declaration. -/
def SearchResponse.declared : List Declared :=
  [{ name := "hits", kind := .list (.scalar .object), default := .array [] },
    { name := "num_hits", wireName := some "nbHits", kind := .scalar .int, default := .int 0 },
    { name := "exhaustive_num_hits", wireName := some "exhaustiveNbHits", kind := .scalar .bool,
      default := .bool false },
    { name := "query", kind := .scalar .text, default := .string "" },
    { name := "limit", kind := .scalar .int, default := .int 0 },
    { name := "offset", kind := .scalar .int, default := .int 0 },
    { name := "processing_time_ms", wireName := some "processingTimeMs", kind := .scalar .int,
      default := .int 0 }]

def SearchResponse.values (body : SearchResponse) : List Json :=
  [.array (body.hits.map .object), .int body.numHits, .bool body.exhaustiveNumHits,
    .string body.query, .int body.limit, .int body.offset, .int body.processingTimeMs]

theorem Kind.describes_text : (Kind.scalar .text).Describes Json.checkText .string :=
  describes_scalar (fun _ _ => Json.string.inj) fun _ => rfl

theorem Kind.describes_int : (Kind.scalar .int).Describes Json.checkInt .int :=
  describes_scalar (fun _ _ => Json.int.inj) fun _ => rfl

theorem Kind.describes_bool : (Kind.scalar .bool).Describes Json.checkBool .bool :=
  describes_scalar (fun _ _ => Json.bool.inj) fun _ => rfl

theorem Kind.describes_object : (Kind.scalar .object).Describes Json.checkObject .object :=
  describes_scalar (fun _ _ => Json.object.inj) fun _ => rfl

theorem SearchQuery.amounts_ofMembers (members : List (String × Json)) :
    (ofMembers members).Amounts
      (fun body => List.Forall₂ (Declared.Holds members) declared body.values)
      (declared.flatMap (Declared.issues members)) := by
  have htext := Kind.describes_text.asJson.nullable
  have htexts := Kind.describes_text.list.asJson.nullable
  have hquery := Declared.checkField members declared[0] _ htext rfl
  have hfilter := Declared.checkField members declared[1] _ htext rfl
  have hsort := Declared.checkField members declared[2] _ htexts rfl
  have hfacets := Declared.checkField members declared[3] _ htexts rfl
  have hlimit := Declared.checkField members declared[4] _
    Kind.describes_int.asJson rfl
  refine (((((hquery.map SearchQuery.mk).seq hfilter).seq hsort).seq hfacets).seq hlimit).congr
    (fun body => ?_) (by simp [declared])
  constructor
  · rintro ⟨_, limit, ⟨_, facets, ⟨_, sort, ⟨_, filter, ⟨query, hquery, rfl⟩, hfilter, rfl⟩,
      hsort, rfl⟩, hfacets, rfl⟩, hlimit, rfl⟩
    exact .cons hquery (.cons hfilter (.cons hsort (.cons hfacets (.cons hlimit .nil))))
  · intro h
    simp only [declared, values, List.forall₂_cons] at h
    obtain ⟨hquery, hfilter, hsort, hfacets, hlimit, -⟩ := h
    exact ⟨_, _, ⟨_, _, ⟨_, _, ⟨_, _, ⟨_, hquery, rfl⟩, hfilter, rfl⟩, hsort, rfl⟩, hfacets, rfl⟩,
      hlimit, rfl⟩

theorem SearchResponse.amounts_ofMembers (members : List (String × Json)) :
    (ofMembers members).Amounts
      (fun body => List.Forall₂ (Declared.Holds members) declared body.values)
      (declared.flatMap (Declared.issues members)) := by
  have hhits := Declared.checkField members declared[0] []
    Kind.describes_object.list rfl
  have hnumber := Declared.checkField members declared[1] _
    Kind.describes_int rfl
  have hexhaustive := Declared.checkField members declared[2] _
    Kind.describes_bool rfl
  have hquery := Declared.checkField members declared[3] _
    Kind.describes_text rfl
  have hlimit := Declared.checkField members declared[4] _
    Kind.describes_int rfl
  have hoffset := Declared.checkField members declared[5] _
    Kind.describes_int rfl
  have htime := Declared.checkField members declared[6] _
    Kind.describes_int rfl
  refine (((((((hhits.map SearchResponse.mk).seq hnumber).seq hexhaustive).seq hquery).seq
    hlimit).seq hoffset).seq htime).congr (fun body => ?_) (by simp [declared])
  constructor
  · rintro ⟨_, time, ⟨_, offset, ⟨_, limit, ⟨_, query, ⟨_, exhaustive, ⟨_, number,
      ⟨hits, hhits, rfl⟩, hnumber, rfl⟩, hexhaustive, rfl⟩, hquery, rfl⟩, hlimit, rfl⟩, hoffset,
      rfl⟩, htime, rfl⟩
    exact .cons hhits (.cons hnumber (.cons hexhaustive (.cons hquery (.cons hlimit
      (.cons hoffset (.cons htime .nil))))))
  · intro h
    simp only [declared, values, List.forall₂_cons] at h
    obtain ⟨hhits, hnumber, hexhaustive, hquery, hlimit, hoffset, htime, -⟩ := h
    exact ⟨_, _, ⟨_, _, ⟨_, _, ⟨_, _, ⟨_, _, ⟨_, _, ⟨_, hhits, rfl⟩, hnumber, rfl⟩, hexhaustive,
      rfl⟩, hquery, rfl⟩, hlimit, rfl⟩, hoffset, rfl⟩, htime, rfl⟩

/-- Requests and replies are checked field by field: no field has an influence on what becomes of
another one, or on what is said about it. -/
theorem bodies_checked_fieldwise :
    CheckedFieldwise (fun members => SearchQuery.ofJson (.object members)) SearchQuery.values
        SearchQuery.declared ∧
      CheckedFieldwise (fun members => SearchResponse.ofJson (.object members))
        SearchResponse.values SearchResponse.declared :=
  ⟨checkedFieldwise_of_amounts SearchQuery.amounts_ofMembers,
    checkedFieldwise_of_amounts SearchResponse.amounts_ofMembers⟩

/-- An object with a name that is shadowed, a name that is unknown, and three values that are not
what their fields are for. -/
def mixedMembers : List (String × Json) :=
  [("limit", .string "ten"), ("query", .int 1), ("q", .null), ("page", .int 3),
    ("sort", .array [.string "title", .int 1, .null])]

theorem bodies_checked_fieldwise_mixed :
    SearchQuery.ofJson (.object mixedMembers) =
        .invalid [⟨.notText, [.key "sort", .index 1]⟩, ⟨.notText, [.key "sort", .index 2]⟩,
          ⟨.unreadableInt, [.key "limit"]⟩] ∧
      SearchQuery.ofJson (.object mixedMembers) =
        SearchQuery.ofJson (.object [("q", .null),
          ("sort", .array [.string "title", .int 1, .null]), ("limit", .string "ten")]) := by
  have hsame : relevant SearchQuery.declared mixedMembers =
      [("limit", .string "ten"), ("q", .null),
        ("sort", .array [.string "title", .int 1, .null])] := rfl
  have hall : relevant SearchQuery.declared [("q", .null),
      ("sort", .array [.string "title", .int 1, .null]), ("limit", .string "ten")] =
        [("q", .null), ("sort", .array [.string "title", .int 1, .null]),
          ("limit", .string "ten")] := rfl
  constructor
  · exact (bodies_checked_fieldwise.1.invalid_iff mixedMembers _).mpr
      ⟨by decide +kernel, by decide⟩
  · refine bodies_checked_fieldwise.1.eq_of_perm mixedMembers _ (by decide) ?_
    rw [hsame, hall]
    have hcomm : ∀ {first second : List (String × Json)},
        (first ++ second).Perm (second ++ first) :=
      List.perm_append_comm
    exact @hcomm [("limit", .string "ten")] _

end SearchFilter
