import SearchFilter.Compiler
import SearchFilter.Conversion
import SearchFilter.JsonWriter

namespace SearchFilter

/-- The body of a search request. A body that passed its checks has a text or null as its query and
its filter, a list of texts or null as its sort and its facets, and an integer as its limit; what is
assigned to a field later is not checked. -/
structure SearchQuery where
  query : Json := .null
  filter : Json := .null
  sort : Json := .array [.string "date:desc"]
  facetsDistribution : Json := .null
  limit : Json := .int 10000

namespace SearchQuery

def ofMembers (members : List (String × Json)) : Checked SearchQuery :=
  let text := Json.checkNullable fun value => .string <$> Json.checkText value
  let texts := Json.checkNullable fun value =>
    (fun items => .array (items.map .string)) <$> Json.checkList Json.checkText value
  let fresh : SearchQuery := {}
  SearchQuery.mk
    <$> Json.checkField members ["q", "query"] fresh.query text
    <*> Json.checkField members ["filter"] fresh.filter text
    <*> Json.checkField members ["sort"] fresh.sort texts
    <*> Json.checkField members ["facetsDistribution", "facets_distribution"]
      fresh.facetsDistribution texts
    <*> Json.checkField members ["limit"] fresh.limit fun value => .int <$> Json.checkInt value

def ofJson : Json → Checked SearchQuery
  | .object members => ofMembers members
  | _ => .refuse (.notModel "SearchQuery")

/-- The body under the names of the backend, without fields that are null. A boolean limit is
written as a number. -/
def toJson (query : SearchQuery) : Json :=
  .object ([("q", query.query), ("filter", query.filter), ("sort", query.sort),
    ("facetsDistribution", query.facetsDistribution), ("limit", query.limit.counted)].filter
      fun (_, value) => !value.isNull)

/-- Compiles a text and puts it in place of the current filter, unless there is none to apply. The
result is the filter that is in place afterwards. -/
def processFilter (query : SearchQuery) (compiler : Compiler) (text : String)
    (now : Option Moment) : SearchQuery × Journaled Json :=
  let compiled := compiler.compile text now
  match compiled.outcome with
  | .error failure => (query, ⟨.error failure, compiled.events⟩)
  | .ok filter =>
    if filter = "" then (query, ⟨.ok query.filter, compiled.events ++ [.notApplied text]⟩)
    else
      ({ query with filter := .string filter }, ⟨.ok (.string filter), compiled.events⟩)

/-- What a body tells about itself under names that are no fields. -/
def readOnlyNames : List String := ["model_extra", "model_fields_set"]

/-- Gives a field, by its own name, any value. A name that begins with an underscore is kept apart
from the body, which it leaves as it is. -/
def assign (query : SearchQuery) (name : String) (value : Json) : Except Failure SearchQuery :=
  match name with
  | "query" => .ok { query with query := value }
  | "filter" => .ok { query with filter := value }
  | "sort" => .ok { query with sort := value }
  | "facets_distribution" => .ok { query with facetsDistribution := value }
  | "limit" => .ok { query with limit := value }
  | _ =>
    if name.toList.head? = some '_' then .ok query
    else if name ∈ readOnlyNames then .error (.readOnlyName name)
    else .error (.unknownField name)

/-- Adds a value to the sort expressions, if there is a list of them. -/
def appendSort (query : SearchQuery) (value : Json) : Except Failure SearchQuery :=
  match query.sort with
  | .array items => .ok { query with sort := .array (items ++ [value]) }
  | other => .error (.notAppendable other)

end SearchQuery

end SearchFilter
