import Typeahead.Text.Blank

/-!
# Files of variables

A file of variables holds one `NAME=value` to a line.  A value may be quoted, and then
may go on over several lines; outside of quotes a comment ends it.  A line that makes
no sense is skipped.  Values may refer to other variables in the form of a dollar sign
and a name in braces, with an optional default: earlier lines of the file come first,
then the environment.
-/

namespace Typeahead

/-- A variable of a file; a name without an equals sign has no value. -/
structure Binding where
  name : String
  value : Option String
  deriving DecidableEq, Repr

namespace DotEnv

/-- A blank that does not end a line. -/
def isInlineBlank (c : Char) : Bool := Text.isBlank c && c != '\n' && c != '\r'

/-- Skips blanks within a line. -/
def skipInline (cs : List Char) : List Char := cs.dropWhile isInlineBlank

/-- The text after the end of the current line. -/
def skipLine : List Char → List Char
  | [] => []
  | c :: cs => if c = '\n' then cs else skipLine cs

/-- Makes a single line feed of every line end. -/
def normalizeLines : List Char → List Char
  | [] => []
  | '\r' :: '\n' :: cs => '\n' :: normalizeLines cs
  | '\r' :: cs => '\n' :: normalizeLines cs
  | c :: cs => c :: normalizeLines cs

/-- Skips the word `export` if blanks follow it. -/
def skipExport (cs : List Char) : List Char :=
  let rest := cs.drop 6
  if "export".toList.isPrefixOf cs && (rest.head?.map isInlineBlank).getD false then
    skipInline rest
  else cs

/-- The characters of a quoted value up to its closing quote.  A backslash takes the
quote after it into the value, unless no other quote is left to close it. -/
def quotedBody (quote : Char) : List Char → Option (List Char × List Char)
  | [] => none
  | '\\' :: c :: cs =>
      if c = quote then
        match quotedBody quote cs with
        | some (body, rest) => some ('\\' :: c :: body, rest)
        | none => some (['\\'], cs)
      else (quotedBody quote (c :: cs)).map fun r => ('\\' :: r.1, r.2)
  | c :: cs =>
      if c = quote then some ([], cs)
      else (quotedBody quote cs).map fun r => (c :: r.1, r.2)

/-- The character that a letter after a backslash stands for between single quotes. -/
def singleEscape? : Char → Option Char
  | '\\' => some '\\'
  | '\'' => some '\''
  | _ => none

/-- The character that a letter after a backslash stands for between double quotes. -/
def doubleEscape? : Char → Option Char
  | '\\' => some '\\'
  | '\'' => some '\''
  | '"' => some '"'
  | 'a' => some '\x07'
  | 'b' => some '\x08'
  | 'f' => some '\x0c'
  | 'n' => some '\n'
  | 'r' => some '\r'
  | 't' => some '\t'
  | 'v' => some '\x0b'
  | _ => none

/-- Replaces the letters after backslashes. -/
def unescape (escape? : Char → Option Char) : List Char → List Char
  | '\\' :: c :: cs =>
      match escape? c with
      | some e => e :: unescape escape? cs
      | none => '\\' :: unescape escape? (c :: cs)
  | c :: cs => c :: unescape escape? cs
  | [] => []

/-- Cuts a comment, which starts with a number sign after a blank. -/
def cutComment : List Char → List Char
  | [] => []
  | c :: cs =>
      if Text.isBlank c && (cs.dropWhile Text.isBlank).head? == some '#' then []
      else c :: cutComment cs

/-- A value without quotes, up to the end of the line. -/
def plainValue (cs : List Char) : List Char × List Char :=
  let line := cs.takeWhile fun c => c != '\n' && c != '\r'
  let value := ((cutComment line).reverse.dropWhile Text.isBlank).reverse
  (value, cs.drop line.length)

/-- A value; none when its quotes are not closed. -/
def readValue (cs : List Char) : Option (List Char × List Char) :=
  match cs with
  | '\'' :: rest => (quotedBody '\'' rest).map fun r => (unescape singleEscape? r.1, r.2)
  | '"' :: rest => (quotedBody '"' rest).map fun r => (unescape doubleEscape? r.1, r.2)
  | cs => some (plainValue cs)

/-- Whether a character can stand in a name without quotes. -/
def isNameChar (c : Char) : Bool := c != '=' && c != '#' && !Text.isBlank c

/-- A name; there is none in front of a comment. -/
def readName (cs : List Char) : Option (Option (List Char) × List Char) :=
  match cs with
  | '#' :: _ => some (none, cs)
  | '\'' :: rest =>
      let name := rest.takeWhile (· != '\'')
      match rest.drop name.length with
      | _ :: after => if name.isEmpty then none else some (some name, after)
      | [] => none
  | cs =>
      let name := cs.takeWhile isNameChar
      if name.isEmpty then none else some (some name, cs.drop name.length)

/-- Skips a comment and the end of the line; none when there is anything else. -/
def endLine (cs : List Char) : Option (List Char) :=
  let rest := match skipInline cs with
    | '#' :: after => after.dropWhile (· != '\n')
    | after => after
  match rest with
  | [] => some []
  | '\n' :: after => some after
  | _ => none

/-- What follows a name: a value behind an equals sign, or nothing. -/
def readAssignment (cs : List Char) : Option (Option (List Char) × List Char) :=
  match cs with
  | '=' :: rest => (readValue (skipInline rest)).map fun r => (some r.1, r.2)
  | cs => some (none, cs)

/-- Reads one line: the variable in it, if there is one, and what follows. -/
def readLine (cs : List Char) : Option Binding × List Char :=
  let start := skipExport cs
  match readName start with
  | none => (none, skipLine start)
  | some (name, rest) =>
      let rest := skipInline rest
      match readAssignment rest with
      | none => (none, skipLine rest)
      | some (value, rest) =>
          match endLine rest with
          | none => (none, skipLine rest)
          | some rest =>
              (name.map fun n => ⟨String.ofList n, value.map String.ofList⟩, rest)

/-- Reads all lines; the fuel is the number of characters, since each line takes at
least one. -/
def readLines : Nat → List Char → List Binding
  | 0, _ => []
  | fuel + 1, cs =>
      match cs.dropWhile Text.isBlank with
      | [] => []
      | cs =>
          let line := readLine cs
          line.1.toList ++ readLines fuel line.2

/-- One piece of a value: text, or a reference with a default. -/
inductive Piece where
  | literal (c : Char)
  | reference (name default : List Char)
  deriving DecidableEq, Repr

/-- A reference behind a dollar sign and an opening brace. -/
def reference? (cs : List Char) : Option (Piece × List Char) :=
  let name := cs.takeWhile fun c => c != '\x7d' && c != ':'
  match cs.drop name.length with
  | '\x7d' :: rest => some (.reference name [], rest)
  | ':' :: '-' :: rest =>
      let default := rest.takeWhile (· != '\x7d')
      match rest.drop default.length with
      | _ :: rest => some (.reference name default, rest)
      | [] => none
  | _ => none

/-- The pieces of a value; the fuel is the number of its characters. -/
def pieces : Nat → List Char → List Piece
  | 0, _ => []
  | _ + 1, [] => []
  | fuel + 1, c :: cs =>
      match c, cs with
      | '$', '\x7b' :: rest =>
          match reference? rest with
          | some (piece, rest) => piece :: pieces fuel rest
          | none => .literal c :: pieces fuel cs
      | c, cs => .literal c :: pieces fuel cs

/-- The value of a name: the last one given to it in the file so far, or else the one
in the environment. -/
def current? (environment : List (String × String)) (bound : List Binding) (name : String) :
    Option (Option String) :=
  match bound.reverse.find? fun b => b.name == name with
  | some b => some b.value
  | none => (environment.find? fun e => e.1 == name).map fun e => some e.2

/-- The text of a piece. -/
def Piece.text (environment : List (String × String)) (bound : List Binding) :
    Piece → List Char
  | .literal c => [c]
  | .reference name default =>
      match current? environment bound (String.ofList name) with
      | some value => (value.getD "").toList
      | none => default

/-- Replaces the references in the values, from the first variable to the last. -/
def interpolate (environment : List (String × String)) (bindings : List Binding) :
    List Binding :=
  bindings.foldl (fun bound b =>
    let value := b.value.map fun v =>
      let cs := v.toList
      String.ofList ((pieces cs.length cs).flatMap (Piece.text environment bound))
    bound ++ [⟨b.name, value⟩]) []

/-- The variables of a file, in the order of its lines. -/
def read (environment : List (String × String)) (file : String) : List Binding :=
  let cs := normalizeLines file.toList
  interpolate environment (readLines (cs.length + 1) cs)

end DotEnv

end Typeahead
