/-
# Pipeline.Request -- what is known about a request

The method and address of a request, whether a cache answered it, and whether it
succeeded. Requests to the addresses that probes use count as health checks.
-/
import ClientMigration.Vocabulary

namespace ClientMigration

set_option autoImplicit false

structure Request where
  isCached : Bool := false
  isSuccess : Bool := false
  method : Method := .get
  url : String := ""
  deriving DecidableEq, Repr

namespace Request

/-- The paths that probes ask for. -/
def healthPaths : List String := ["/health", "/healthz", "/ping", "/liveness", "/readiness"]

/-- An address from its path on. Behind a scheme the path begins at the next slash, and is a slash
where there is none. -/
def fromPath (url : Text) : Text :=
  match Text.occurrences "://" url with
  | [] => url
  | at_ :: _ =>
    match (at_.drop 3).dropWhile (· != '/') with
    | [] => ['/']
    | path => path

/-- The path of an address, without query and fragment. -/
def path (url : Text) : Text := (fromPath url).takeWhile fun c => c != '?' && c != '#'

/-- Whether a path is a probe's, lies below it, or ends with it. -/
def probes (path : Text) (probe : String) : Bool :=
  (path.after? probe).any (fun rest => rest.isEmpty || rest.startsWith "/") ||
    probe.toList.isSuffixOf path

def isHealthCheck (r : Request) : Bool := healthPaths.any (probes (path r.url.toList))

def fields : List (Field Request) :=
  [.of .boolean "is_cached" isCached fun v r => { r with isCached := v },
   .of .boolean "is_success" isSuccess fun v r => { r with isSuccess := v },
   .of Method.codec "method" method fun v r => { r with method := v },
   .of .text "url" url fun v r => { r with url := v }]

def codec : Codec Request := .complete fields {}

end Request

end ClientMigration
