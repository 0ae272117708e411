import Typeahead.Settings.Source
import Typeahead.Check.Field
import Typeahead.Mode
import Typeahead.Text.Fields

/-!
# Groups of settings

The defaults of all autocomplete indexes, and the connection to the search backend.
A list field may be given as text with commas: its pieces are trimmed and empty ones
do not count.
-/

namespace Typeahead

/-- Defaults of every autocomplete index. -/
structure AutocompleteSettings where
  attr : String
  localized : Bool
  mode : Mode
  locales : List String
  searchAttrs : Option (List String)
  indexPrefix : Option String
  commitCallbacks : Bool
  perPage : Int
  geoField : String
  deriving DecidableEq, Repr

/-- The connection to the search backend. -/
structure ConnectionSettings where
  host : String
  useSsl : Bool
  verifyCerts : Bool
  refresh : Bool
  deriving DecidableEq, Repr

namespace Settings

/-- The pieces between commas, trimmed, without the empty ones. -/
def commaList (s : String) : List String :=
  let trimmed := (Text.fields ',' s.toList).map (Text.trimWith Text.isBlank)
  (trimmed.map String.ofList).filter (· != "")

/-- Text with commas as a list; anything else as it is. -/
def splitCommas : Value → Value
  | .text s => .list ((commaList s).map .text)
  | v => v

/-- A list of names. -/
def readNames (field : String) (v : Value) : Check.Outcome (List String) :=
  Check.sequence field .tupleType (Check.item Check.readText) (splitCommas v)

/-- The name of a mode. -/
def readMode : Value → Except Complaint Mode
  | .text s =>
      match Mode.ofName? s with
      | some m => .ok m
      | none => .error .choice
  | _ => .error .choice

/-- A field that keeps its default unless it is given. -/
def fieldOr {α : Type} (options : Options) (name : String) (default : α)
    (read : Value → Check.Outcome α) : Check.Outcome α :=
  match Options.get? options name with
  | some v => read v
  | none => .ok default

end Settings

namespace AutocompleteSettings

/-- The name of the group. -/
def group : String := "autocomplete"

/-- The fields, in order. -/
def fields : List SettingsField :=
  [⟨"attr", .plain⟩, ⟨"localized", .plain⟩, ⟨"mode", .plain⟩, ⟨"locales", .list false⟩,
    ⟨"search_attrs", .list true⟩, ⟨"index_prefix", .plain⟩, ⟨"commit_callbacks", .plain⟩,
    ⟨"per_page", .plain⟩, ⟨"geo_field", .plain⟩]

/-- The defaults that hold without any settings. -/
def standard : AutocompleteSettings where
  attr := "name"
  localized := false
  mode := .word
  locales := ["en"]
  searchAttrs := none
  indexPrefix := none
  commitCallbacks := true
  perPage := 50
  geoField := "lat_lon"

/-- Settings as options of an index. -/
def toOptions (s : AutocompleteSettings) : Options :=
  [("attr", .text s.attr), ("localized", .bool s.localized), ("mode", .text s.mode.name),
    ("locales", .tuple (s.locales.map .text)),
    ("search_attrs", (s.searchAttrs.map fun names => Value.tuple (names.map .text)).getD .null),
    ("index_prefix", (s.indexPrefix.map Value.text).getD .null),
    ("commit_callbacks", .bool s.commitCallbacks), ("per_page", .int s.perPage),
    ("geo_field", .text s.geoField)]

/-- Checks the values of the fields. -/
def check (o : Options) : Check.Outcome AutocompleteSettings :=
  let attr := Settings.fieldOr o "attr" standard.attr (Check.field "attr" Check.readText)
  let localized := Settings.fieldOr o "localized" standard.localized
    (Check.field "localized" Check.readBool)
  let mode := Settings.fieldOr o "mode" standard.mode (Check.field "mode" Settings.readMode)
  let locales := Settings.fieldOr o "locales" standard.locales (Settings.readNames "locales")
  let searchAttrs := Settings.fieldOr o "search_attrs" standard.searchAttrs
    (Check.optional (Settings.readNames "search_attrs"))
  let indexPrefix := Settings.fieldOr o "index_prefix" standard.indexPrefix
    (Check.optional (Check.field "index_prefix" Check.readText))
  let commitCallbacks := Settings.fieldOr o "commit_callbacks" standard.commitCallbacks
    (Check.field "commit_callbacks" Check.readBool)
  let perPage := Settings.fieldOr o "per_page" standard.perPage
    (Check.field "per_page" Check.readInt)
  let geoField := Settings.fieldOr o "geo_field" standard.geoField
    (Check.field "geo_field" Check.readText)
  match attr, localized, mode, locales, searchAttrs, indexPrefix, commitCallbacks, perPage,
      geoField with
  | .ok attr, .ok localized, .ok mode, .ok locales, .ok searchAttrs, .ok indexPrefix,
      .ok commitCallbacks, .ok perPage, .ok geoField =>
      .ok ⟨attr, localized, mode, locales, searchAttrs, indexPrefix, commitCallbacks, perPage,
        geoField⟩
  | attr, localized, mode, locales, searchAttrs, indexPrefix, commitCallbacks, perPage,
      geoField =>
      .error (Check.issues attr ++ Check.issues localized ++ Check.issues mode ++
        Check.issues locales ++ Check.issues searchAttrs ++ Check.issues indexPrefix ++
        Check.issues commitCallbacks ++ Check.issues perPage ++ Check.issues geoField)

/-- Loads the group on its own, with values given by name on top. -/
def load (env : Environment) (given : Options) : Except Failure AutocompleteSettings := do
  let values ← Settings.collect env group fields given
  match check values with
  | .ok s => return s
  | .error es => .error (.invalid es)

end AutocompleteSettings

namespace ConnectionSettings

/-- The name of the group. -/
def group : String := "opensearch"

/-- The fields, in order. -/
def fields : List SettingsField :=
  [⟨"host", .plain⟩, ⟨"use_ssl", .plain⟩, ⟨"verify_certs", .plain⟩, ⟨"refresh", .plain⟩]

/-- The connection without any settings. -/
def standard : ConnectionSettings := ⟨"http://localhost:9200", false, false, false⟩

/-- Settings by name. -/
def toOptions (s : ConnectionSettings) : Options :=
  [("host", .text s.host), ("use_ssl", .bool s.useSsl), ("verify_certs", .bool s.verifyCerts),
    ("refresh", .bool s.refresh)]

/-- Checks the values of the fields. -/
def check (o : Options) : Check.Outcome ConnectionSettings :=
  let host := Settings.fieldOr o "host" standard.host (Check.field "host" Check.readText)
  let useSsl := Settings.fieldOr o "use_ssl" standard.useSsl
    (Check.field "use_ssl" Check.readBool)
  let verifyCerts := Settings.fieldOr o "verify_certs" standard.verifyCerts
    (Check.field "verify_certs" Check.readBool)
  let refresh := Settings.fieldOr o "refresh" standard.refresh
    (Check.field "refresh" Check.readBool)
  match host, useSsl, verifyCerts, refresh with
  | .ok host, .ok useSsl, .ok verifyCerts, .ok refresh => .ok ⟨host, useSsl, verifyCerts, refresh⟩
  | host, useSsl, verifyCerts, refresh =>
      .error (Check.issues host ++ Check.issues useSsl ++ Check.issues verifyCerts ++
        Check.issues refresh)

/-- Loads the group on its own, with values given by name on top. -/
def load (env : Environment) (given : Options) : Except Failure ConnectionSettings := do
  let values ← Settings.collect env group fields given
  match check values with
  | .ok s => return s
  | .error es => .error (.invalid es)

end ConnectionSettings

end Typeahead
