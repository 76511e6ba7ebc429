namespace SearchFilter

/-- What is wrong with a value in a body. -/
inductive Complaint where
  | notModel (model : String)
  | notText
  | notList
  | notObject
  | infiniteNumber
  | fractionalInt
  | unreadableInt
  | oversizedInt
  | notInt
  | unreadableBool
  | notBool
  deriving DecidableEq

namespace Complaint

def code : Complaint → String
  | notModel _ => "model_type"
  | notText => "string_type"
  | notList => "list_type"
  | notObject => "dict_type"
  | infiniteNumber => "finite_number"
  | fractionalInt => "int_from_float"
  | unreadableInt => "int_parsing"
  | oversizedInt => "int_parsing_size"
  | notInt => "int_type"
  | unreadableBool => "bool_parsing"
  | notBool => "bool_type"

def message : Complaint → String
  | notModel model => "Input should be a valid dictionary or instance of " ++ model
  | notText => "Input should be a valid string"
  | notList => "Input should be a valid list"
  | notObject => "Input should be a valid dictionary"
  | infiniteNumber => "Input should be a finite number"
  | fractionalInt => "Input should be a valid integer, got a number with a fractional part"
  | unreadableInt => "Input should be a valid integer, unable to parse string as an integer"
  | oversizedInt => "Unable to parse input string as an integer, exceeded maximum size"
  | notInt => "Input should be a valid integer"
  | unreadableBool => "Input should be a valid boolean, unable to interpret input"
  | notBool => "Input should be a valid boolean"

end Complaint

/-- A step from a value into one of its parts. -/
inductive Step where
  | key (name : String)
  | index (position : Nat)
  deriving DecidableEq

structure Issue where
  complaint : Complaint
  location : List Step
  deriving DecidableEq

/-- A value that passed its checks, or everything that is wrong with it. -/
inductive Checked (α : Type) where
  | valid (value : α)
  | invalid (issues : List Issue)

namespace Checked

def refuse {α : Type} (complaint : Complaint) : Checked α := invalid [⟨complaint, []⟩]

/-- The issues of a part, as issues of the whole. -/
def within {α : Type} (step : Step) : Checked α → Checked α
  | valid value => valid value
  | invalid issues =>
    invalid (issues.map fun issue => { issue with location := step :: issue.location })

/-- Checks of parts are independent: the issues of all of them are reported, in order. -/
instance : Applicative Checked where
  pure := valid
  seq function argument :=
    match function, argument () with
    | valid f, valid value => valid (f value)
    | valid _, invalid issues => invalid issues
    | invalid issues, valid _ => invalid issues
    | invalid issues, invalid more => invalid (issues ++ more)

/-- Checks the members of a list, the first of which is at the given position. -/
def each {α β : Type} (check : α → Checked β) : (position : Nat) → List α → Checked (List β)
  | _, [] => valid []
  | position, item :: rest =>
    List.cons <$> within (.index position) (check item) <*> each check (position + 1) rest

end Checked

end SearchFilter
