import Typeahead.Client.Basic

/-!
# Shared clients

Clients are shared: a request for a client is answered with the one that answered the
same request before, as long as fewer than eight other requests came in between.  The
cache lists its entries from the most recently used one.
-/

namespace Typeahead

/-- A request for a shared client: without any settings, or with settings or their
absence given by place or by name.  These count as different requests. -/
inductive ClientRequest where
  | bare
  | placed (settings : Option Settings)
  | named (settings : Option Settings)
  deriving DecidableEq

/-- A client with its number; every new client gets the next number. -/
structure NumberedClient where
  number : Nat
  client : Client

/-- The shared clients, and how many clients there have been. -/
structure ClientCache where
  entries : List (ClientRequest × NumberedClient)
  created : Nat

namespace ClientRequest

/-- The settings of a request, if it brings any. -/
def settings? : ClientRequest → Option Settings
  | .bare => none
  | .placed settings => settings
  | .named settings => settings

end ClientRequest

namespace Client

/-- Whether a client can be made for a host: text is taken as it is, anything else
has to name the parts of the host. -/
def acceptHost : Value → Except Failure Unit
  | .text _ => .ok ()
  | host => do
      let entries ← FieldTypes.entriesOf host
      if entries.all fun e => e.1.text?.isSome then return () else .error .wrongKind

end Client

namespace ClientCache

/-- The number of requests that are remembered. -/
def capacity : Nat := 8

/-- Nothing is shared yet. -/
def empty : ClientCache := ⟨[], 0⟩

/-- The settings to use: those given, or else those of the environment. -/
def settingsFor (env : Environment) (given : Option Settings) : Except Failure Settings :=
  match given with
  | some s => .ok s
  | none => Settings.load env none none

/-- A new client, counted but not shared. -/
def create (host : Value) (settings : Settings) (cache : ClientCache) :
    NumberedClient × ClientCache :=
  (⟨cache.created, ⟨host, settings⟩⟩, { cache with created := cache.created + 1 })

/-- The entry of a request. -/
def find? (cache : ClientCache) (request : ClientRequest) : Option NumberedClient :=
  (cache.entries.find? fun e => e.1 == request).map (·.2)

/-- Puts an entry in front, and drops what exceeds the capacity. -/
def remember (request : ClientRequest) (c : NumberedClient) (cache : ClientCache) :
    ClientCache :=
  { cache with entries :=
      ((request, c) :: cache.entries.filter fun e => e.1 != request).take capacity }

/-- Answers a request with a shared client. -/
def shared (env : Environment) (request : ClientRequest) (cache : ClientCache) :
    Except Failure NumberedClient × ClientCache :=
  match cache.find? request with
  | some c => (.ok c, cache.remember request c)
  | none =>
      match settingsFor env request.settings? with
      | .error e => (.error e, cache)
      | .ok settings =>
          let (c, cache) := cache.create (.text settings.connection.host) settings
          (.ok c, cache.remember request c)

/-- A client of its own, for the given host or else for that of the settings. -/
def fresh (env : Environment) (given : Option Settings) (host : Value) (cache : ClientCache) :
    Except Failure NumberedClient × ClientCache :=
  match settingsFor env given with
  | .error e => (.error e, cache)
  | .ok settings =>
      let host := host.orElse (.text settings.connection.host)
      match Client.acceptHost host with
      | .error e => (.error e, cache)
      | .ok () =>
          let (c, cache) := cache.create host settings
          (.ok c, cache)

end ClientCache

end Typeahead
