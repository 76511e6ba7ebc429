import SearchFilter.Proofs.JsonText
import SearchFilter.Proofs.RequestRuns

namespace SearchFilter

namespace Checked

variable {α β : Type}

theorem map_eq_valid_iff {f : α → β} {checked : Checked α} {result : β} :
    f <$> checked = .valid result ↔ ∃ value, checked = .valid value ∧ f value = result := by
  cases checked with
  | valid value =>
    constructor
    · intro h
      exact ⟨value, rfl, Checked.valid.inj h⟩
    · rintro ⟨_, he, rfl⟩
      cases he
      rfl
  | invalid issues =>
    constructor
    · intro h
      cases h
    · rintro ⟨_, he, -⟩
      cases he

theorem seq_eq_valid_iff {f : Checked (α → β)} {checked : Checked α} {result : β} :
    f <*> checked = .valid result ↔
      ∃ g value, f = .valid g ∧ checked = .valid value ∧ g value = result := by
  cases f <;> cases checked <;> simp [Seq.seq]

theorem within_eq_valid_iff {step : Step} {checked : Checked α} {result : α} :
    checked.within step = .valid result ↔ checked = .valid result := by
  cases checked <;> simp [within]

end Checked

namespace Json

/-- What a field of a checked body holds that is for a text. -/
inductive NullableText : Json → Prop
  | null : NullableText null
  | text (text : String) : NullableText (string text)

/-- What a field of a checked body holds that is for a list of texts. -/
inductive NullableTexts : Json → Prop
  | null : NullableTexts null
  | texts (items : List String) : NullableTexts (array (items.map string))

/-- What holds of the default and of all that passes the check holds of the field. -/
theorem checkField_preserves {α : Type} {P : α → Prop} {members : List (String × Json)}
    {keys : List String} {default result : α} {check : Json → Checked α} (hdefault : P default)
    (hcheck : ∀ {value result}, check value = .valid result → P result)
    (h : checkField members keys default check = .valid result) : P result := by
  rw [checkField] at h
  split at h
  next =>
    cases h
    exact hdefault
  next => exact hcheck (Checked.within_eq_valid_iff.mp h)

theorem nullableText_of_check {value result : Json}
    (h : checkNullable (fun value => string <$> checkText value) value = .valid result) :
    NullableText result := by
  unfold checkNullable at h
  split at h
  next => cases h; exact .null
  next =>
    obtain ⟨text, -, rfl⟩ := Checked.map_eq_valid_iff.mp h
    exact .text text

theorem nullableTexts_of_check {value result : Json}
    (h : checkNullable (fun value => (fun items => array (items.map string)) <$>
      checkList checkText value) value = .valid result) : NullableTexts result := by
  unfold checkNullable at h
  split at h
  next => cases h; exact .null
  next =>
    obtain ⟨items, -, rfl⟩ := Checked.map_eq_valid_iff.mp h
    exact .texts items

/-- A text or null passes the check for it as it is. -/
theorem NullableText.check {value : Json} (h : NullableText value) :
    checkNullable (fun value => string <$> checkText value) value = .valid value := by
  cases h <;> rfl

theorem each_checkText (position : Nat) (items : List String) :
    Checked.each checkText position (items.map string) = .valid items := by
  induction items generalizing position with
  | nil => rfl
  | cons item items ih =>
    rw [List.map_cons, Checked.each, ih]
    rfl

theorem NullableTexts.check {value : Json} (h : NullableTexts value) :
    checkNullable (fun value => (fun items => array (items.map string)) <$>
      checkList checkText value) value = .valid value := by
  cases h with
  | null => rfl
  | texts items =>
    change (fun items => array (items.map string)) <$>
      Checked.each checkText 0 (items.map string) = _
    rw [each_checkText]
    rfl

theorem NullableText.exact {value : Json} (h : NullableText value) : Exact value := by
  cases h with
  | null => exact .null
  | text text => exact .string text

theorem NullableTexts.exact {value : Json} (h : NullableTexts value) : Exact value := by
  cases h with
  | null => exact .null
  | texts items =>
    refine .array fun item hm => ?_
    obtain ⟨text, -, rfl⟩ := List.mem_map.mp hm
    exact .string text

theorem ite_isNull (value : Json) : (if value.isNull then null else value) = value := by
  cases value <;> rfl

/-- Without the members that are null nothing is found where null was, and nothing else is lost. -/
theorem lookup_filter_not_isNull {members : List (String × Json)}
    (h : (members.map Prod.fst).Nodup) (key : String) :
    (members.filter fun (_, value) => !value.isNull).lookup key =
      (members.lookup key).filter fun value => !value.isNull := by
  induction members with
  | nil => rfl
  | cons member members ih =>
    obtain ⟨other, value⟩ := member
    obtain ⟨hother, hrest⟩ := List.nodup_cons.mp h
    have hmissing : members.lookup other = none := by
      refine List.lookup_eq_none_iff.mpr fun member hm => ?_
      have hne : other ≠ member.1 := by
        intro he
        exact hother (List.mem_map.mpr ⟨member, hm, he.symm⟩)
      simpa using hne
    by_cases hkey : key = other
    · subst hkey
      rw [List.lookup_cons_self]
      cases hnull : value.isNull with
      | true =>
        rw [List.filter_cons_of_neg (by simp [hnull]), ih hrest, hmissing]
        simp [Option.filter, hnull]
      | false =>
        rw [List.filter_cons_of_pos (by simp [hnull]), List.lookup_cons_self]
        simp [Option.filter, hnull]
    · have hne : (key == other) = false := by simpa using hkey
      rw [List.lookup_cons, hne, ← ih hrest]
      cases hnull : value.isNull with
      | true => rw [List.filter_cons_of_neg (by simp [hnull])]
      | false => rw [List.filter_cons_of_pos (by simp [hnull]), List.lookup_cons, hne]

/-- A field is read back from members that leave out what is null: it gets its default where it was
null, and else what it was. -/
theorem checkField_filter_not_isNull {members : List (String × Json)} {key : String}
    {names : List String} {default value : Json} {check : Json → Checked Json}
    (hmembers : (members.map Prod.fst).Nodup) (hvalue : members.lookup key = some value)
    (hnames : ∀ name ∈ names, members.lookup name = none) (hcheck : check value = .valid value) :
    checkField (members.filter fun (_, value) => !value.isNull) (key :: names) default check =
      .valid (if value.isNull then default else value) := by
  have hlater : (names.findSome? fun name =>
      ((members.filter fun (_, value) => !value.isNull).lookup name).map (name, ·)) = none := by
    refine List.findSome?_eq_none_iff.mpr fun name hm => ?_
    rw [lookup_filter_not_isNull hmembers, hnames name hm]
    rfl
  rw [checkField, List.findSome?_cons, lookup_filter_not_isNull hmembers, hvalue, hlater]
  cases hnull : value.isNull with
  | true => simp [Option.filter, hnull]
  | false => simp [Option.filter, hnull, hcheck, Checked.within]

end Json

namespace SearchQuery

/-- A body whose fields are of their kinds, as they are after its checks. -/
structure WellFormed (body : SearchQuery) : Prop where
  query : body.query.NullableText
  filter : body.filter.NullableText
  sort : body.sort.NullableTexts
  facetsDistribution : body.facetsDistribution.NullableTexts
  limit : ∃ n, body.limit = .int n

/-- What may be done with a body after its checks: a filter is compiled into it, or a sort
expression is appended. -/
inductive BodyStep where
  | filter (call : FilterCall)
  | appendSort (text : String)

/-- The body after a step; one that fails leaves it as it is. -/
def afterStep (body : SearchQuery) : BodyStep → SearchQuery
  | .filter call => body.after call
  | .appendSort text => (body.appendSort (.string text)).toOption.getD body

def afterSteps (body : SearchQuery) (steps : List BodyStep) : SearchQuery :=
  steps.foldl afterStep body

/-- The fields under the names of the backend. -/
def fields (body : SearchQuery) : List (String × Json) :=
  [("q", body.query), ("filter", body.filter), ("sort", body.sort),
    ("facetsDistribution", body.facetsDistribution), ("limit", body.limit)]

/-- The fields that are not null. -/
def givenFields (body : SearchQuery) : List (String × Json) :=
  body.fields.filter fun (_, value) => !value.isNull

/-- A body with the default in place of a sort that is null. -/
def sorted (body : SearchQuery) : SearchQuery :=
  { body with sort := if body.sort.isNull then .array [.string "date:desc"] else body.sort }

/-- The checks let nothing else through. -/
theorem wellFormed_of_ofMembers {members : List (String × Json)} {body : SearchQuery}
    (h : ofMembers members = .valid body) : body.WellFormed := by
  simp only [ofMembers, Checked.seq_eq_valid_iff, Checked.map_eq_valid_iff] at h
  obtain ⟨_, limit, ⟨_, facets, ⟨_, sort, ⟨_, filter, ⟨query, hquery, rfl⟩, hfilter, rfl⟩, hsort,
    rfl⟩, hfacets, rfl⟩, hlimit, rfl⟩ := h
  exact {
    query := Json.checkField_preserves .null Json.nullableText_of_check hquery
    filter := Json.checkField_preserves .null Json.nullableText_of_check hfilter
    sort := Json.checkField_preserves (.texts ["date:desc"]) Json.nullableTexts_of_check hsort
    facetsDistribution := Json.checkField_preserves .null Json.nullableTexts_of_check hfacets
    limit := by
      refine Json.checkField_preserves (P := fun limit => ∃ n, limit = .int n) ⟨10000, rfl⟩
        (fun hvalue => ?_) hlimit
      obtain ⟨n, -, rfl⟩ := Checked.map_eq_valid_iff.mp hvalue
      exact ⟨n, rfl⟩ }

theorem WellFormed.afterStep {body : SearchQuery} (h : body.WellFormed) (step : BodyStep) :
    (body.afterStep step).WellFormed := by
  cases step with
  | filter call =>
    change (body.after call).WellFormed
    rcases body.after_cases call with ⟨_, _, _, heq⟩ | ⟨_, _, heq⟩ | ⟨output, _, _, _, heq⟩
    · rwa [heq]
    · rwa [heq]
    · rw [heq]
      exact { h with filter := .text output }
  | appendSort text =>
    change ((body.appendSort (.string text)).toOption.getD body).WellFormed
    have hsort := h.sort
    rw [appendSort]
    cases hs : body.sort with
    | array items =>
      rw [hs] at hsort
      cases hsort with | texts texts =>
      have happend : (Json.array (texts.map .string ++ [.string text])).NullableTexts := by
        simpa using Json.NullableTexts.texts (texts ++ [text])
      exact { h with sort := happend }
    | _ => exact h

theorem WellFormed.afterSteps {body : SearchQuery} (h : body.WellFormed) (steps : List BodyStep) :
    (body.afterSteps steps).WellFormed := by
  induction steps generalizing body with
  | nil => exact h
  | cons step steps ih => exact ih (h.afterStep step)

theorem nodup_fields (body : SearchQuery) : (body.fields.map Prod.fst).Nodup := by
  simp [fields]

/-- Any of the fields is read back under its name, if it passes its check as it is. -/
theorem checkField_givenFields (body : SearchQuery) {key : String} {names : List String}
    {default value : Json} {check : Json → Checked Json}
    (hvalue : body.fields.lookup key = some value)
    (hnames : ∀ name ∈ names, body.fields.lookup name = none)
    (hcheck : check value = .valid value) :
    Json.checkField body.givenFields (key :: names) default check =
      .valid (if value.isNull then default else value) :=
  Json.checkField_filter_not_isNull body.nodup_fields hvalue hnames hcheck

namespace WellFormed

variable {body : SearchQuery}

/-- A well-formed body is written as it is, without its fields that are null. -/
theorem toJson_eq (h : body.WellFormed) : body.toJson = .object body.givenFields := by
  obtain ⟨n, hn⟩ := h.limit
  rw [toJson, givenFields, fields, hn]
  rfl

theorem exact_givenFields (h : body.WellFormed) : (Json.object body.givenFields).Exact := by
  refine .object (body.nodup_fields.sublist (List.filter_sublist.map _)) fun member hm => ?_
  have hlimit : body.limit.Exact := by
    obtain ⟨n, hn⟩ := h.limit
    exact hn ▸ .int n
  have hmember := (List.mem_filter.mp hm).1
  simp only [fields, List.mem_cons, List.not_mem_nil, or_false] at hmember
  rcases hmember with rfl | rfl | rfl | rfl | rfl
  · exact h.query.exact
  · exact h.filter.exact
  · exact h.sort.exact
  · exact h.facetsDistribution.exact
  · exact hlimit

theorem ofMembers_givenFields (h : body.WellFormed) :
    ofMembers body.givenFields = .valid body.sorted := by
  obtain ⟨n, hn⟩ := h.limit
  have hquery : Json.checkField body.givenFields ["q", "query"] .null
      (Json.checkNullable fun value => .string <$> Json.checkText value) = .valid body.query := by
    rw [body.checkField_givenFields rfl (by simp [fields]) h.query.check, Json.ite_isNull]
  have hfilter : Json.checkField body.givenFields ["filter"] .null
      (Json.checkNullable fun value => .string <$> Json.checkText value) = .valid body.filter := by
    rw [body.checkField_givenFields rfl (by simp) h.filter.check, Json.ite_isNull]
  have hsort : Json.checkField body.givenFields ["sort"] (.array [.string "date:desc"])
      (Json.checkNullable fun value => (fun items => .array (items.map .string)) <$>
        Json.checkList Json.checkText value) = .valid body.sorted.sort :=
    body.checkField_givenFields rfl (by simp) h.sort.check
  have hfacets : Json.checkField body.givenFields ["facetsDistribution", "facets_distribution"]
      .null (Json.checkNullable fun value => (fun items => .array (items.map .string)) <$>
        Json.checkList Json.checkText value) = .valid body.facetsDistribution := by
    rw [body.checkField_givenFields rfl (by simp [fields]) h.facetsDistribution.check,
      Json.ite_isNull]
  have hlimit : Json.checkField body.givenFields ["limit"] (.int 10000)
      (fun value => .int <$> Json.checkInt value) = .valid body.limit := by
    rw [body.checkField_givenFields rfl (by simp) (by rw [hn]; rfl), hn]
    rfl
  simp only [ofMembers, hquery, hfilter, hsort, hfacets, hlimit]
  rfl

end WellFormed

/-- A checked body, whatever filters were compiled into it and sort expressions appended to it, is
written as an object of its fields that are not null, and reading that text and checking it again
gives the same fields; only a sort that is null comes back as the default one. -/
theorem body_round_trips {members : List (String × Json)} {body : SearchQuery}
    (h : ofJson (.object members) = .valid body) (steps : List BodyStep) :
    let last := body.afterSteps steps
    last.toJson = .object last.givenFields ∧
      Json.parse? last.toJson.compact = some (.object last.givenFields) ∧
      ofJson (.object last.givenFields) = .valid last.sorted := by
  have hlast := (wellFormed_of_ofMembers h).afterSteps steps
  have hjson := hlast.toJson_eq
  refine ⟨hjson, ?_, hlast.ofMembers_givenFields⟩
  rw [hjson]
  exact Json.parse?_compact hlast.exact_givenFields

def sampleMembers : List (String × Json) :=
  [("query", .string "\"\\\x07"), ("facets_distribution", .array [.string "\n"]), ("sort", .null),
    ("limit", .bool true)]

/-- A filter is applied, and nothing is appended to a sort that is null. -/
theorem sampleMembers_round_trip :
    ∃ body, ofJson (.object sampleMembers) = .valid body ∧
      let last := body.afterSteps [.filter (sampleCall "vim"), .appendSort "title"]
      let written : Json := .object [("q", .string "\"\\\x07"), ("filter", .string "tags = vim"),
        ("facetsDistribution", .array [.string "\n"]), ("limit", .int 1)]
      last.sort.isNull = true ∧ Json.parse? last.toJson.compact = some written ∧
        ofJson written = .valid { last with sort := .array [.string "date:desc"] } := by
  have hchecked : ofJson (.object sampleMembers) = .valid _ := rfl
  refine ⟨_, hchecked, ?_⟩
  have happlied : (sampleCall "vim").applied = some "tags = vim" := by decide +kernel
  obtain ⟨-, hread, hcheck⟩ := body_round_trips hchecked
    [.filter (sampleCall "vim"), .appendSort "title"]
  simp only [afterSteps, List.foldl_cons, List.foldl_nil, afterStep, after_of_applied _ happlied]
    at hread hcheck ⊢
  exact ⟨rfl, hread, hcheck⟩

end SearchQuery

end SearchFilter
