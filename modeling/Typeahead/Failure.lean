import Typeahead.Check.Issue
import Typeahead.Value.Display

/-!
# Failures

Why an operation gives no answer.  Failures of configuration (an unknown mode, a
localized field without locales), of requests and options (issues of checked fields,
values of the wrong kind), of the search backend and of the session.
-/

namespace Typeahead

/-- What the search backend, or the way to it, reports: a fault of a kind of the
backend's own with a status, or another kind of breakdown. -/
inductive BackendFault where
  | reported (kind : String) (status reason : Value)
  | broken (kind : String) (message : String)

/-- Why a session refuses to work. -/
inductive SessionFault where
  | integrity
  | pendingRollback
  | invalidRequest
  | staleRow
  | rowGone
  | transactionClosed
  | detached
  | unmapped
  deriving DecidableEq, Repr

/-- Where a settings field was read from. -/
inductive SettingsOrigin where
  | environment
  | dotEnv
  deriving DecidableEq, Repr

/-- Why an operation gives no answer. -/
inductive Failure where
  | invalid (issues : List Issue)
  | unknownMode (value : Value)
  | missingLocales (field : Value)
  | unknownAction (action : Value)
  | unreadable (digits : Nat)
  | unwritable
  | tooFewParts (count : Nat)
  | tooManyParts
  | unpairedEntry (index length : Nat)
  | unparsedSetting (field : String) (origin : SettingsOrigin)
  | wrongKind
  | noAttribute
  | beyondRange
  | missingKey (key : Value)
  | uninspectable
  | backend (fault : BackendFault)
  | session (fault : SessionFault)

namespace SettingsOrigin

/-- The name of an origin in messages. -/
def name : SettingsOrigin → String
  | .environment => "EnvSettingsSource"
  | .dotEnv => "DotEnvSettingsSource"

end SettingsOrigin

namespace Failure

/-- The end of a message about the digit limit. -/
def raiseLimit : String :=
  "; use sys.set_int_max_str_digits() to increase the limit"

/-- The start of a message about the digit limit. -/
def limitExceeded : String :=
  "Exceeds the limit (4300 digits) for integer string conversion"

/-- The wording of a failure that objects to a value, and of no other. -/
def objection? : Failure → Option String
  | .unknownAction action =>
      some ("Unknown document action " ++ action.quoted ++
        "; expected one of ('index', 'update', 'delete')")
  | .unreadable digits =>
      some (limitExceeded ++ ": value has " ++ toString digits ++ " digits" ++ raiseLimit)
  | .unwritable => some (limitExceeded ++ raiseLimit)
  | .tooFewParts count =>
      some ("not enough values to unpack (expected 2, got " ++ toString count ++ ")")
  | .tooManyParts => some "too many values to unpack (expected 2)"
  | .unpairedEntry index length =>
      some ("dictionary update sequence element #" ++ toString index ++ " has length " ++
        toString length ++ "; 2 is required")
  | .unparsedSetting field origin =>
      some ("error parsing value for field \"" ++ field ++ "\" from source \"" ++
        origin.name ++ "\"")
  | _ => none

/-- The wording of a failure that has one. -/
def message? : Failure → Option String
  | .unknownMode value =>
      some ("Unknown autocomplete mode " ++ value.quoted ++
        "; expected one of ['word', 'phrase', 'full']")
  | .missingLocales field =>
      some ("Field " ++ field.quoted ++ " is localized but no locales are configured")
  | .missingKey key => some key.quoted
  | .backend (.broken _ message) => some message
  | f => f.objection?

/-- Whether a failure is one of configuration. -/
def isConfiguration : Failure → Bool
  | .unknownMode _ => true
  | .missingLocales _ => true
  | _ => false

end Failure

namespace Value

/-- The text of a value in names, terms and coordinates, unless a number in it is too
long. -/
def plain? (v : Value) : Except Failure String :=
  if v.isWritable then .ok v.plain else .error .unwritable

/-- Refuses a value whose quoted text cannot be written. -/
def requireWritable (v : Value) : Except Failure Unit :=
  if v.isWritable then .ok () else .error .unwritable

end Value

end Typeahead
