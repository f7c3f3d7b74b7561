/-
# Codemod.Config -- what is looked for, and what takes its place
-/
import ClientMigration.Vocabulary

namespace ClientMigration.Codemod

set_option autoImplicit false

/-- The files in which versioned paths are shortened. -/
inductive PrefixScope where
  /-- Files that import the factory. -/
  | migratedFiles
  | allFiles
  deriving DecidableEq, Repr

namespace PrefixScope

def all : List PrefixScope := [.migratedFiles, .allFiles]

def name : PrefixScope → String
  | .migratedFiles => "migrated_files"
  | .allFiles => "all_files"

def codec : Codec PrefixScope := .member all name

end PrefixScope

structure Config where
  /-- Modules that give out the legacy client. -/
  legacyModules : List String := ["@/lib/api", "@/lib/api/index"]
  /-- What they call the client. -/
  clientExport : String := "apiClient"
  /-- What they call the function that gives the signed-in user's client. -/
  accessorExport : String := "getAuthClient"
  /-- The module that gives out the factory. -/
  unifiedModule : String := "@/lib/api"
  /-- The function that makes a client from a preset. -/
  factoryFunction : String := "createPresetApiClient"
  /-- Modules of error helpers whose imports move to the unified module. -/
  deprecatedErrorModules : List String := ["@/lib/api/error"]
  /-- Methods of the client that send a request. -/
  httpMethods : List String :=
    ["get", "post", "put", "patch", "delete", "head", "options", "request"]
  /-- The preferred name of a client declared in a function. -/
  localClientName : String := "client"
  /-- The preset of files that do not show one. -/
  defaultPreset : Preset := .default
  prefixScope : PrefixScope := .migratedFiles
  deriving DecidableEq, Repr

namespace Config

def fields : List (Field Config) :=
  [.of (.list .text) "legacy_modules" legacyModules fun v c => { c with legacyModules := v },
   .of .text "client_export" clientExport fun v c => { c with clientExport := v },
   .of .text "accessor_export" accessorExport fun v c => { c with accessorExport := v },
   .of .text "unified_module" unifiedModule fun v c => { c with unifiedModule := v },
   .of .text "factory_function" factoryFunction fun v c => { c with factoryFunction := v },
   .of (.list .text) "deprecated_error_modules" deprecatedErrorModules
     fun v c => { c with deprecatedErrorModules := v },
   .of (.list .text) "http_methods" httpMethods fun v c => { c with httpMethods := v },
   .of .text "local_client_name" localClientName fun v c => { c with localClientName := v },
   .of Preset.codec "default_preset" defaultPreset fun v c => { c with defaultPreset := v },
   .of PrefixScope.codec "prefix_scope" prefixScope fun v c => { c with prefixScope := v }]

def codec : Codec Config := .settings fields {}

end Config

end ClientMigration.Codemod
