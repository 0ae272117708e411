import Typeahead.Calendar

/-!
# Values

The values that options, filters and documents hold.  `Value.same` is equality
across kinds: a whole number, a fraction and a truth value are the same when they
count the same, so `1`, `1.0` and `true` are one key of a mapping.  Lists are never
the same as tuples.
-/

namespace Typeahead

/-- A dynamically typed value.  The entries of a mapping are in order of arrival. -/
inductive Value where
  | null
  | bool (b : Bool)
  | int (n : Int)
  | float (x : Binary64)
  | text (s : String)
  | list (items : List Value)
  | tuple (items : List Value)
  | dict (entries : List (Value × Value))
  | date (d : Date)
  | datetime (t : DateTime)
  deriving Inhabited

/-- The entries of a mapping. -/
abbrev Entries := List (Value × Value)

namespace Value

/-- The number that a truth value counts as. -/
def ofBool (b : Bool) : Int := if b then 1 else 0

/-- A whole number or a truth value, as a number. -/
def asInt? : Value → Option Int
  | .bool b => some (ofBool b)
  | .int n => some n
  | _ => none

/-- Whether a value counts as true in a condition. -/
def truthy : Value → Bool
  | .null => false
  | .bool b => b
  | .int n => n != 0
  | .float x => !x.isZero
  | .text s => s != ""
  | .list items => !items.isEmpty
  | .tuple items => !items.isEmpty
  | .dict entries => !entries.isEmpty
  | .date _ => true
  | .datetime _ => true

/-- The first of two values that counts as true, the second one when neither does. -/
def orElse (x y : Value) : Value := if x.truthy then x else y

mutual

/-- Equality across kinds. -/
def same : Value → Value → Bool
  | .null, .null => true
  | .text a, .text b => a == b
  | .date a, .date b => decide (a = b)
  | .datetime a, .datetime b => a.sameInstant b
  | .list a, .list b => sameItems a b
  | .tuple a, .tuple b => sameItems a b
  | .dict a, .dict b => a.length == b.length && hasEntries b a
  | .float a, .float b => a.sameValue b
  | .float a, .int n => a.sameInt n
  | .float a, .bool b => a.sameInt (ofBool b)
  | .int n, .float a => a.sameInt n
  | .bool b, .float a => a.sameInt (ofBool b)
  | .int m, .int n => m == n
  | .int n, .bool b => n == ofBool b
  | .bool b, .int n => n == ofBool b
  | .bool a, .bool b => a == b
  | _, _ => false

/-- Equality of two sequences, item by item. -/
def sameItems : List Value → List Value → Bool
  | [], [] => true
  | x :: xs, y :: ys => same x y && sameItems xs ys
  | _, _ => false

/-- Whether every entry of a second mapping is in the first one. -/
def hasEntries (entries : Entries) : Entries → Bool
  | [] => true
  | (k, v) :: rest =>
      entries.any (fun e => same k e.1 && same v e.2) && hasEntries entries rest

end

mutual

/-- Whether a value may be a key of a mapping. -/
def isKey : Value → Bool
  | .list _ => false
  | .dict _ => false
  | .tuple items => areKeys items
  | _ => true

/-- Whether all items may be keys. -/
def areKeys : List Value → Bool
  | [] => true
  | x :: xs => isKey x && areKeys xs

end

/-- The text inside a value that is text. -/
def text? : Value → Option String
  | .text s => some s
  | _ => none

/-- The items of a list or a tuple. -/
def items? : Value → Option (List Value)
  | .list items => some items
  | .tuple items => some items
  | _ => none

/-- What a loop over a value goes through: items, keys or characters. -/
def members? : Value → Option (List Value)
  | .list items => some items
  | .tuple items => some items
  | .dict entries => some (entries.map (·.1))
  | .text s => some (s.toList.map fun c => .text (String.singleton c))
  | _ => none

end Value

namespace Entries

/-- The value of a key. -/
def lookup (entries : Entries) (key : Value) : Option Value :=
  (entries.find? fun e => e.1.same key).map (·.2)

/-- The value of a name; null when it is missing. -/
def get (entries : Entries) (name : String) : Value :=
  (lookup entries (.text name)).getD .null

/-- Whether a key is there. -/
def has (entries : Entries) (key : Value) : Bool := (lookup entries key).isSome

/-- Sets the value of a key: a present key stays where and as it is, a new one goes
to the end. -/
def insert : Entries → Value → Value → Entries
  | [], key, value => [(key, value)]
  | (k, v) :: rest, key, value =>
      if k.same key then (k, value) :: rest else (k, v) :: insert rest key value

/-- A mapping from a list of entries in which later ones overwrite earlier ones. -/
def ofList (entries : List (Value × Value)) : Entries :=
  entries.foldl (fun acc e => insert acc e.1 e.2) []

end Entries

end Typeahead
