/-
# Codemod.Setting -- what stays the same while a file is migrated

The configuration, the file's preset and its legacy names are found once, before
any rule runs; every rule reads them.
-/
import ClientMigration.Codemod.Binding

namespace ClientMigration.Codemod

set_option autoImplicit false

structure Setting where
  config : Config
  preset : Preset
  bindings : Bindings

namespace Setting

/-- What the file calls the factory. -/
def factoryName (s : Setting) : String := s.bindings.factory?.getD s.config.factoryFunction

/-- A text between the file's quotes. -/
def quoted (s : Setting) (text : String) : String :=
  let q := s.bindings.quote.toString
  q ++ text ++ q

/-- The call that makes a client from a preset. -/
def factoryCall (s : Setting) (preset : Preset) : String :=
  s.factoryName ++ "(" ++ s.quoted preset.name ++ ")"

end Setting

end ClientMigration.Codemod
