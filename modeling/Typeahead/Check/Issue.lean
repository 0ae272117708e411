/-!
# Issues

What a check of named fields objects to.  An issue names the way to the offending
value, from the field down through positions and keys, and its complaint.  One check
reports all issues of an input, in the order of the fields.
-/

namespace Typeahead

/-- One step on the way to a value. -/
inductive Step where
  | name (s : String)
  | position (n : Int)
  deriving DecidableEq, Repr

/-- What is wrong with a value. -/
inductive Complaint where
  | boolType
  | boolParsing
  | intType
  | intParsing
  | intParsingSize
  | intFromFloat
  | finiteNumber
  | floatType
  | textType
  | listType
  | tupleType
  | dictType
  | modelType (name : String)
  | choice
  | frozen
  | refused (reason : String)
  deriving DecidableEq, Repr

namespace Complaint

/-- The short name of a complaint. -/
def code : Complaint → String
  | .boolType => "bool_type"
  | .boolParsing => "bool_parsing"
  | .intType => "int_type"
  | .intParsing => "int_parsing"
  | .intParsingSize => "int_parsing_size"
  | .intFromFloat => "int_from_float"
  | .finiteNumber => "finite_number"
  | .floatType => "float_type"
  | .textType => "string_type"
  | .listType => "list_type"
  | .tupleType => "tuple_type"
  | .dictType => "dict_type"
  | .modelType _ => "model_type"
  | .choice => "enum"
  | .frozen => "frozen_instance"
  | .refused _ => "value_error"

/-- The wording of a complaint. -/
def message : Complaint → String
  | .boolType => "Input should be a valid boolean"
  | .boolParsing => "Input should be a valid boolean, unable to interpret input"
  | .intType => "Input should be a valid integer"
  | .intParsing => "Input should be a valid integer, unable to parse string as an integer"
  | .intParsingSize =>
      "Unable to parse input string as an integer, exceeded maximum size"
  | .intFromFloat => "Input should be a valid integer, got a number with a fractional part"
  | .finiteNumber => "Input should be a finite number"
  | .floatType => "Input should be a valid number"
  | .textType => "Input should be a valid string"
  | .listType => "Input should be a valid list"
  | .tupleType => "Input should be a valid tuple"
  | .dictType => "Input should be a valid dictionary"
  | .modelType name => "Input should be a valid dictionary or instance of " ++ name
  | .choice => "Input should be 'word', 'phrase' or 'full'"
  | .frozen => "Instance is frozen"
  | .refused reason => "Value error, " ++ reason

end Complaint

/-- A complaint about the value at the end of a path. -/
structure Issue where
  path : List Step
  complaint : Complaint
  deriving DecidableEq, Repr

namespace Issue

/-- An issue of a field. -/
def ofField (field : String) (complaint : Complaint) : Issue := ⟨[.name field], complaint⟩

/-- The same issue, seen from outside. -/
def under (steps : List Step) (issue : Issue) : Issue :=
  { issue with path := steps ++ issue.path }

end Issue

end Typeahead
