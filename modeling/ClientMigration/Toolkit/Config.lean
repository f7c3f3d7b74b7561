/-
# Toolkit.Config -- the configuration file

One section for each part of the toolkit, all of them optional. The environment is
laid over the section on the rollout after the file is read.
-/
import ClientMigration.Client.Address
import ClientMigration.Codemod.Config
import ClientMigration.Data.Toml
import ClientMigration.Files.Tree
import ClientMigration.Pipeline.Optimizer
import ClientMigration.Rollout.Config

namespace ClientMigration

set_option autoImplicit false

/-- Where the token of the installation is kept. -/
structure StoreSection where
  /-- A file; without one, memory. -/
  path : Option String := none
  deriving DecidableEq, Repr

namespace StoreSection

def fields : List (Field StoreSection) :=
  [.of (.optional .text) "path" path fun v s => { s with path := v }]

def codec : Codec StoreSection := .settings fields {}

end StoreSection

structure ToolkitConfig where
  rollout : RolloutConfig := {}
  codemod : Codemod.Config := {}
  optimizer : OptimizerConfig := {}
  client : Endpoint := {}
  store : StoreSection := {}
  deriving DecidableEq, Repr

namespace ToolkitConfig

def fields : List (Field ToolkitConfig) :=
  [.of RolloutConfig.codec "rollout" rollout fun v c => { c with rollout := v },
   .of Codemod.Config.codec "rewrite" codemod fun v c => { c with codemod := v },
   .of OptimizerConfig.codec "interceptors" optimizer fun v c => { c with optimizer := v },
   .of Endpoint.codec "client" client fun v c => { c with client := v },
   .of StoreSection.codec "store" store fun v c => { c with store := v }]

def codec : Codec ToolkitConfig := .settings fields {}

/-- Why a configuration file does not count. -/
inductive Fault where
  | unreadable (path : Path)
  | invalid (path : Path)
  deriving DecidableEq, Repr

def Fault.message : Fault → String
  | .unreadable p => "failed to read config " ++ p.text
  | .invalid p => "invalid config " ++ p.text

/-- The configuration in a file. -/
def ofFile (files : Tree) (p : Path) : Except Fault ToolkitConfig :=
  match files.read p with
  | .error _ => .error (.unreadable p)
  | .ok t =>
    match (Toml.read t).bind codec.read with
    | some c => .ok c
    | none => .error (.invalid p)

def merge (c : ToolkitConfig) (env : Environment.Variables) : ToolkitConfig :=
  { c with rollout := c.rollout.merge env }

/-- The configuration in a file, or the default one, under the environment. -/
def load (files : Tree) (p : Option Path) (env : Environment.Variables) :
    Except Fault ToolkitConfig :=
  match p with
  | some p => (ofFile files p).map (·.merge env)
  | none => .ok (merge {} env)

end ToolkitConfig

end ClientMigration
