import Typeahead.Value.Basic
import Typeahead.Number.Numeral
import Typeahead.Text.Quoted

/-!
# Values as text

`Value.plain` is the text of a value in names, terms and coordinates, where text
stands for itself.  `Value.quoted` is the text of a value in messages and inside
containers, where text is quoted and times name their parts.  A whole number beyond
the digit limit has no text: `Value.isWritable` says where that is met, and
`Value.plain?` and `Value.quoted?` refuse such values.
-/

namespace Typeahead

namespace Value

/-- Numbers are written by position from one ten-thousandth up to sixteen digits. -/
def floatStyle : FloatStyle := ⟨-3, 16, 2⟩

/-- The numbers of a list with separators. -/
def commaNumbers (ns : List Nat) : String := ", ".intercalate (ns.map toString)

/-- A date that names its parts. -/
def quotedDate (d : Date) : String :=
  "datetime.date(" ++ commaNumbers [d.year, d.month, d.day] ++ ")"

/-- A length of time in minutes, as whole days and seconds. -/
def quotedOffset (minutes : Int) : String :=
  if minutes = 0 then "datetime.timezone.utc"
  else
    let days := Int.fdiv minutes 1440
    let seconds := Int.fmod minutes 1440 * 60
    let dayPart := if days = 0 then [] else ["days=" ++ toString days]
    let secondPart := if seconds = 0 then [] else ["seconds=" ++ toString seconds]
    "datetime.timezone(datetime.timedelta(" ++ ", ".intercalate (dayPart ++ secondPart) ++ "))"

/-- A time that names its parts; seconds and microseconds are left out when they are
zero. -/
def quotedDateTime (t : DateTime) : String :=
  let fraction := if t.microsecond = 0 then [] else [t.microsecond]
  let seconds := if t.second = 0 && t.microsecond = 0 then [] else t.second :: fraction
  "datetime.datetime(" ++
    commaNumbers ([t.date.year, t.date.month, t.date.day, t.hour, t.minute] ++ seconds) ++
    ((t.offset.map fun m => ", tzinfo=" ++ quotedOffset m).getD "") ++ ")"

mutual

/-- The text of a value in messages and inside containers. -/
def quoted : Value → String
  | .null => "None"
  | .bool b => if b then "True" else "False"
  | .int n => toString n
  | .float x => floatStyle.text x
  | .text s => Text.quoted s
  | .list items => "[" ++ ", ".intercalate (quotedItems items) ++ "]"
  | .tuple [x] => "(" ++ quoted x ++ ",)"
  | .tuple items => "(" ++ ", ".intercalate (quotedItems items) ++ ")"
  | .dict entries => "\x7b" ++ ", ".intercalate (quotedEntries entries) ++ "\x7d"
  | .date d => quotedDate d
  | .datetime t => quotedDateTime t

/-- The texts of the items of a sequence. -/
def quotedItems : List Value → List String
  | [] => []
  | x :: xs => quoted x :: quotedItems xs

/-- The texts of the entries of a mapping. -/
def quotedEntries : Entries → List String
  | [] => []
  | (k, v) :: rest => (quoted k ++ ": " ++ quoted v) :: quotedEntries rest

end

/-- The text of a value in names, terms and coordinates. -/
def plain : Value → String
  | .text s => s
  | .date d => d.iso
  | .datetime t => t.textWith " "
  | v => v.quoted

mutual

/-- Whether no whole number in a value is beyond the digit limit. -/
def isWritable : Value → Bool
  | .int n => !Numeral.exceedsLimit n
  | .list items => areWritable items
  | .tuple items => areWritable items
  | .dict entries => entriesWritable entries
  | _ => true

/-- Whether all items can be written. -/
def areWritable : List Value → Bool
  | [] => true
  | x :: xs => isWritable x && areWritable xs

/-- Whether all keys and values can be written. -/
def entriesWritable : Entries → Bool
  | [] => true
  | (k, v) :: rest => isWritable k && isWritable v && entriesWritable rest

end

end Value

end Typeahead
