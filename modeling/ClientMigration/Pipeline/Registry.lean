/-
# Pipeline.Registry -- which stages are installed on which client

No stage is installed twice on one client. The registry holds the installed
stages of each client in the order of the stages.
-/
import ClientMigration.Vocabulary
import ClientMigration.Data.Table

namespace ClientMigration

set_option autoImplicit false

/-- The installed stages by the client's name. -/
abbrev Registry := Table (List Stage)

namespace Registry

/-- The stages installed on a client. -/
def stagesOf (r : Registry) (client : String) : List Stage := (r.find? client).getD []

def isRegistered (r : Registry) (client : String) (s : Stage) : Bool := (r.stagesOf client).contains s

/-- Those of all stages that are among the given ones. -/
def inOrder (stages : List Stage) : List Stage := Stage.all.filter stages.contains

/-- Installs a stage, and says whether it was not there before. -/
def register (r : Registry) (client : String) (s : Stage) : Bool × Registry :=
  (!r.isRegistered client s, r.insert client (inOrder (s :: r.stagesOf client)))

/-- Takes a stage away, and says whether it was there. -/
def remove (r : Registry) (client : String) (s : Stage) : Bool × Registry :=
  if r.isRegistered client s then
    (true, r.insert client ((r.stagesOf client).filter (· != s)))
  else (false, r)

/-- Takes all stages of a client away, and says how many there were. -/
def removeAll (r : Registry) (client : String) : Nat × Registry :=
  ((r.stagesOf client).length, r.erase client)

end Registry

end ClientMigration
