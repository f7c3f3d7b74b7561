/-
# Client.Address -- the addresses that clients call

A unified client carries the version in its base address; a legacy client has
the bare host, and its callers write the version into their paths.
-/
import ClientMigration.Vocabulary

namespace ClientMigration

set_option autoImplicit false

/-- The host that clients call, and the version of its interface. -/
structure Endpoint where
  baseHost : String := "http://localhost:8080"
  apiVersion : String := "v1"
  deriving DecidableEq, Repr

/-- The path, with a slash in front. -/
def rooted (path : String) : String := if path.startsWith "/" then path else "/" ++ path

namespace Endpoint

/-- The host without slashes at its end. -/
def host (e : Endpoint) : String :=
  String.ofList (e.baseHost.toList.reverse.dropWhile (· == '/')).reverse

def baseUrl (e : Endpoint) : Variant → String
  | .legacy => e.host
  | .unified => e.host ++ "/api/" ++ e.apiVersion

/-- The path as callers of a legacy client write it. -/
def versionedPath (e : Endpoint) (path : String) : String := "/api/" ++ e.apiVersion ++ rooted path

def fields : List (Field Endpoint) :=
  [.of .text "base_host" baseHost fun v e => { e with baseHost := v },
   .of .text "api_version" apiVersion fun v e => { e with apiVersion := v }]

def codec : Codec Endpoint := .settings fields {}

end Endpoint

end ClientMigration
