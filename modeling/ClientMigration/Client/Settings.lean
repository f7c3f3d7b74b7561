/-
# Client.Settings -- what a preset configures

The settings of a preset are the common ones with a few of them changed. They
say how long a request may take, which headers it carries, and which stages a
client has.
-/
import ClientMigration.Vocabulary
import ClientMigration.Data.Table

namespace ClientMigration

set_option autoImplicit false

/-- A length of time: seconds, and nanoseconds short of another second. -/
structure Span where
  secs : Nat
  nanos : Nat
  deriving DecidableEq, Repr

namespace Span

def ofSeconds (secs : Nat) : Span := ⟨secs, 0⟩

def millis (s : Span) : Nat := s.secs * 1000 + s.nanos / 1000000

/-- As a number of seconds. -/
def seconds (s : Span) : Float := Float.ofNat s.secs + Float.ofNat s.nanos / 1e9

/-- From a count of nanoseconds. -/
def ofNanos (n : Nat) : Span := ⟨n / 1000000000, n % 1000000000⟩

def fields : List (Field Span) :=
  [.of (.unsigned 64) "secs" secs fun v s => { s with secs := v },
   .of (.unsigned 32) "nanos" nanos fun v s => { s with nanos := v }]

/-- Whether a datum has no entries but those of a span. -/
def hasOnlyFields : Datum → Bool
  | .record es => es.all fun e => fields.any (·.name == e.1)
  | _ => true

/-- Nanoseconds that make up whole seconds are carried, as far as the seconds have room. -/
def carried (s : Span) : Option Span :=
  let secs := s.secs + s.nanos / 1000000000
  if secs < 0x10000000000000000 then some ⟨secs, s.nanos % 1000000000⟩ else none

/-- Spans are read strictly: an entry under another name is refused. -/
def codec : Codec Span where
  read d := if hasOnlyFields d then ((Codec.complete fields ⟨0, 0⟩).read d).bind carried else none
  write := (Codec.complete fields ⟨0, 0⟩).write

end Span

/-- How a client sends requests, and which stages it has. -/
structure Settings where
  timeout : Span := .ofSeconds 30
  withCredentials : Bool := true
  headers : Table String := [("Content-Type", "application/json")]
  enableAuth : Bool := true
  enableRetry : Bool := true
  enableLogging : Bool := false
  enableErrorHandling : Bool := true
  maxRetries : Nat := 3
  retryDelay : Span := .ofSeconds 1
  /-- Whether a client may serve more than one call. -/
  cacheable : Bool := true
  deriving DecidableEq, Repr

namespace Settings

def withHeader (s : Settings) (name value : String) : Settings :=
  { s with headers := s.headers.insert name value }

/-- The stages of a client, in the order in which they are declared. -/
def stages (s : Settings) : List Stage :=
  (if s.enableAuth then [.auth] else []) ++ (if s.enableLogging then [.logging] else []) ++
    (if s.enableRetry then [.retry] else []) ++ (if s.enableErrorHandling then [.error] else [])

def fields : List (Field Settings) :=
  [.of Span.codec "timeout" timeout fun v s => { s with timeout := v },
   .of .boolean "with_credentials" withCredentials fun v s => { s with withCredentials := v },
   .of (Table.codec .text) "headers" headers fun v s => { s with headers := v },
   .of .boolean "enable_auth" enableAuth fun v s => { s with enableAuth := v },
   .of .boolean "enable_retry" enableRetry fun v s => { s with enableRetry := v },
   .of .boolean "enable_logging" enableLogging fun v s => { s with enableLogging := v },
   .of .boolean "enable_error_handling" enableErrorHandling
     fun v s => { s with enableErrorHandling := v },
   .of (.unsigned 32) "max_retries" maxRetries fun v s => { s with maxRetries := v },
   .of Span.codec "retry_delay" retryDelay fun v s => { s with retryDelay := v },
   .of .boolean "cacheable" cacheable fun v s => { s with cacheable := v }]

def codec : Codec Settings := .complete fields {}

end Settings

/-- The settings that a preset stands for. -/
def Preset.settings : Preset → Settings
  | .default => {}
  | .auth => { enableAuth := true, enableErrorHandling := true, withCredentials := true }
  | .admin => { Settings.withHeader {} "X-Admin-Request" "true" with enableLogging := true }
  | .public_ =>
    { enableAuth := false, enableRetry := true, withCredentials := false, timeout := .ofSeconds 10 }
  | .upload =>
    Settings.withHeader { cacheable := false, timeout := .ofSeconds 120 }
      "Content-Type" "multipart/form-data"
  | .batch =>
    { cacheable := false, enableRetry := true, timeout := .ofSeconds 300
      maxRetries := 5, retryDelay := .ofSeconds 2 }
  | .realtime => { enableRetry := false, timeout := .ofSeconds 5 }

end ClientMigration
