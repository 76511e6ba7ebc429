import SearchFilter.Conversion

namespace SearchFilter

/-- The body of a search reply; a hit is kept as the object that it is. -/
structure SearchResponse where
  hits : List (List (String × Json))
  numHits : Int
  exhaustiveNumHits : Bool
  query : String
  limit : Int
  offset : Int
  processingTimeMs : Int

namespace SearchResponse

def ofMembers (members : List (String × Json)) : Checked SearchResponse :=
  SearchResponse.mk
    <$> Json.checkField members ["hits"] [] (Json.checkList Json.checkObject)
    <*> Json.checkField members ["nbHits", "num_hits"] 0 Json.checkInt
    <*> Json.checkField members ["exhaustiveNbHits", "exhaustive_num_hits"] false Json.checkBool
    <*> Json.checkField members ["query"] "" Json.checkText
    <*> Json.checkField members ["limit"] 0 Json.checkInt
    <*> Json.checkField members ["offset"] 0 Json.checkInt
    <*> Json.checkField members ["processingTimeMs", "processing_time_ms"] 0 Json.checkInt

def ofJson : Json → Checked SearchResponse
  | .object members => ofMembers members
  | _ => .refuse (.notModel "SearchResponse")

end SearchResponse

end SearchFilter
