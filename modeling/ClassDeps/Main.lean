import ClassDeps.Cli.Program
import ClassDeps.Files.Changes

/-!
# Command line

Takes what a run may read from the disk, runs the program, prints, and does to the disk what the run did to
its files.

## Main definitions

* `main` — the entry point
-/

namespace ClassDeps.Disk

/-- Takes up the file or directory at a path; if there is nothing, what there is on the way to it. -/
def observe (steps : Nat) (t : Files) (path : String) : IO Files := do
  let place := (← IO.currentDir) / path
  if ← place.isDir then
    return (t.createDirectories path).2
  else if ← place.pathExists then
    let bytes := (← IO.FS.readBinFile place).toList
    return (t.adopt path bytes).toOption.getD t
  else match steps, Path.parent? path with
    | steps + 1, some parent => observe steps t parent
    | _, _ => return t

/-- Takes up all that stands directly in a directory. -/
def observeEntries (t : Files) (path : String) : IO Files := do
  let place := (← IO.currentDir) / path
  let t ← observe path.length t path
  if ← place.isDir then
    (← place.readDir).foldlM (fun t entry => observe 0 t (Path.join path entry.fileName)) t
  else
    return t

/-- Takes up the file of a store, which need not stand where its path seems to say. -/
def observeStore (t : Files) (path : String) : IO Files := do
  match Address.ofPath? path with
  | some (.file path _) => observe path.length t path
  | _ => return t

/-- Does a change to the disk. -/
def perform : Change → IO Unit
  | .makeDirectory path => do IO.FS.createDirAll ((← IO.currentDir) / path)
  | .write path bytes => do
    IO.FS.writeBinFile ((← IO.currentDir) / path) ⟨bytes.toArray⟩
  | .remove path => do IO.FS.removeFile ((← IO.currentDir) / path)

def userDirectory : IO String := do
  match ← IO.getEnv "XDG_CONFIG_HOME" with
  | some directory => return directory
  | none => return Path.join ((← IO.getEnv "HOME").getD "") ".config"

/-- Runs the program on the disk. -/
def run (arguments : List String) : IO UInt32 := do
  let working := (← IO.currentDir).toString
  let surroundings : Cli.Surroundings := ⟨← userDirectory, working⟩
  let request := Cli.parse arguments
  let start ← observe 0 Files.empty working
  let start := { start with working := (start.locate working).toOption.getD [] }
  let named := Path.join (Path.join surroundings.userDirectory "depcache") Config.fileName ::
    (JsonStore.project working).filePath Config.fileName :: request.documents
  let t ← named.foldlM (fun t path => observe path.length t path) start
  let t ← match request.root? surroundings t with
    | none => pure t
    | some root => do
      let t ← observeEntries (← observeEntries t root) (Path.join root Session.symbolDirectory)
      (OpenCache.storePaths root).foldlM observeStore t
  let (outcome, after) := Cli.run surroundings arguments t
  IO.print outcome.output
  IO.eprint outcome.errors
  (t.changesTo after).forM perform
  return outcome.exit.toUInt32

end ClassDeps.Disk

/-- Runs the program with the arguments of the command line. -/
def main (arguments : List String) : IO UInt32 :=
  ClassDeps.Disk.run arguments
