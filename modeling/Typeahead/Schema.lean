/-!
# Tables and models

The declared side of stored rows: column types, columns, tables, and models, which
are classes that may or may not be backed by a table.  A decorated column type stores
its values as another type; `ColumnType.visitName` is the name of the type at the
bottom.
-/

namespace Typeahead

/-- The generic column types. -/
inductive ColumnKind where
  | boolean
  | integer
  | smallInteger
  | bigInteger
  | string
  | text
  | unicode
  | unicodeText
  | float
  | double
  | numeric
  | date
  | datetime
  | time
  | largeBinary
  | json
  | enumeration
  | uuid
  deriving DecidableEq, Repr

/-- A column type: a generic one, one of the database's own under its name there, or
another type with a conversion around it. -/
inductive ColumnType where
  | generic (kind : ColumnKind)
  | native (name : String)
  | decorated (stored : ColumnType)
  deriving DecidableEq, Repr

namespace ColumnKind

/-- All generic types. -/
def all : List ColumnKind :=
  [.boolean, .integer, .smallInteger, .bigInteger, .string, .text, .unicode, .unicodeText,
    .float, .double, .numeric, .date, .datetime, .time, .largeBinary, .json, .enumeration,
    .uuid]

/-- The name that a declaration uses. -/
def declaredName : ColumnKind → String
  | .boolean => "Boolean"
  | .integer => "Integer"
  | .smallInteger => "SmallInteger"
  | .bigInteger => "BigInteger"
  | .string => "String"
  | .text => "Text"
  | .unicode => "Unicode"
  | .unicodeText => "UnicodeText"
  | .float => "Float"
  | .double => "Double"
  | .numeric => "Numeric"
  | .date => "Date"
  | .datetime => "DateTime"
  | .time => "Time"
  | .largeBinary => "LargeBinary"
  | .json => "JSON"
  | .enumeration => "Enum"
  | .uuid => "Uuid"

/-- The name that a field type is reported by. -/
def visitName : ColumnKind → String
  | .boolean => "boolean"
  | .integer => "integer"
  | .smallInteger => "small_integer"
  | .bigInteger => "big_integer"
  | .string => "string"
  | .text => "text"
  | .unicode => "unicode"
  | .unicodeText => "unicode_text"
  | .float => "float"
  | .double => "double"
  | .numeric => "numeric"
  | .date => "date"
  | .datetime => "datetime"
  | .time => "time"
  | .largeBinary => "large_binary"
  | .json => "JSON"
  | .enumeration => "enum"
  | .uuid => "uuid"

end ColumnKind

namespace ColumnType

/-- The type that a declaration names.  Intervals are stored as times and pickled
objects as binary data; any other name is one of the database's own. -/
def ofName (name : String) : ColumnType :=
  if name = "Interval" then .decorated (.generic .datetime)
  else if name = "PickleType" then .decorated (.generic .largeBinary)
  else match ColumnKind.all.find? fun k => k.declaredName == name with
    | some k => .generic k
    | none => .native name

/-- The name of the type that values are stored as. -/
def visitName : ColumnType → String
  | .generic kind => kind.visitName
  | .native name => name
  | .decorated stored => stored.visitName

end ColumnType

/-- A column: the attribute that holds its value, and its name in the database. -/
structure Column where
  attr : String
  name : String
  type : ColumnType
  primaryKey : Bool
  nullable : Bool
  deriving DecidableEq, Repr

/-- A table. -/
structure Table where
  name : String
  columns : List Column
  deriving DecidableEq, Repr

/-- A class of objects; without a table it is a plain one. -/
structure Model where
  name : String
  table : Option Table
  deriving DecidableEq, Repr

namespace Table

/-- The column of a name in the database. -/
def column? (t : Table) (name : String) : Option Column :=
  t.columns.find? fun c => c.name == name

/-- The column that backs an attribute. -/
def attribute? (t : Table) (attr : String) : Option Column :=
  t.columns.find? fun c => c.attr == attr

end Table

end Typeahead
