/-
# Main -- the command line

Reads the working directory, carries out the command on what was read, prints what
it says and writes the texts that it changed. Exits with 0 if all is well, with 1 if
something needs attention, and with 2 if the command was not carried out.
-/
import ClientMigration.Toolkit.Run

namespace ClientMigration.Main

set_option autoImplicit false

/-- What a directory entry is, with all below it. Directories named in `skipped` are left out, and so
is what is neither a file nor a directory. -/
partial def treeAt (skipped : List String) (e : IO.FS.DirEntry) : IO (Option (String × Tree)) := do
  match (← e.path.symlinkMetadata).type with
  | .dir =>
    if skipped.contains e.fileName then return none
    let inside ← (← e.path.readDir).toList.filterMapM (treeAt skipped)
    return some (e.fileName, .directory inside)
  | .file => return some (e.fileName, .file (.ofBytes (← IO.FS.readBinFile e.path).toList))
  | _ => return none

/-- The working directory. Directories that are never searched are left out unless a value of the
command line names them. -/
def workingDirectory (args : List String) : IO Tree := do
  let named := args.flatMap fun a => (Path.mk a).names
  let skipped := Codemod.skippedDirectories.filter (!named.contains ·)
  return .directory (← (← (← IO.currentDir).readDir).toList.filterMapM (treeAt skipped))

def environment : IO Environment.Variables := do
  let values ← Environment.names.mapM fun n => return (n, ← IO.getEnv n)
  return fun n => (values.lookup n).join

/-- Writes texts below the working directory. -/
def writeAll (texts : List (Location × Text)) : IO Unit := do
  let here ← IO.currentDir
  for (loc, t) in texts do
    IO.FS.createDirAll (loc.dropLast.foldl (fun dir (name : String) => dir / name) here)
    IO.FS.writeFile (loc.foldl (fun dir (name : String) => dir / name) here) (String.ofList t)

def usage : String := String.join (Command.spec.synopsis.map (· ++ "\n"))

def carryOut (args : List String) (i : Invocation) : IO UInt32 := do
  let files ← workingDirectory args
  let newToken := tokenOf (← IO.getRandomBytes 16).toList
  let outcome := i.run { files, env := ← environment, newToken, probe := fun _ _ => none }
  IO.print (String.ofList outcome.output)
  writeAll (files.changes outcome.files)
  match outcome.result with
  | .ok clean => return if clean then 0 else 1
  | .error e =>
    IO.eprintln e.message
    return 2

end ClientMigration.Main

open ClientMigration in
def main (args : List String) : IO UInt32 := do
  match Invocation.ofArguments args with
  | .ok i => Main.carryOut args i
  | .error .help =>
    IO.print Main.usage
    return 0
  | .error .usage =>
    IO.eprint Main.usage
    return 2
