import ClassDeps.Cli.Arguments
import ClassDeps.Session

/-!
# The program

One run of the program: settings are loaded, a session is opened for one command, and a failure is reported
with its causes. Everything is a function of the arguments, the surroundings and the files.

## Main definitions

* `Cli.Surroundings` — the directories that a run starts with
* `Cli.Outcome` — what a run prints and its exit status
* `Cli.run` — a run on a tree of files
-/

namespace ClassDeps.Cli

/-- The directories that a run starts with. -/
structure Surroundings where
  /-- The directory of the settings of the user. -/
  userDirectory : String
  workingDirectory : String

/-- What a run prints and its exit status. -/
structure Outcome where
  exit : Nat
  output : String
  errors : String
  deriving DecidableEq

def versionText : String := "depcache 0.1.0"

/-- The settings with the tuning of a profile; the directory of the cache stays. -/
def Profile.apply (profile : Profile) (config : Config) : Config :=
  let tuned :=
    match profile with
    | .minimal => Config.minimal
    | .performance => Config.performance
  { tuned with storeDirectory := config.storeDirectory }

/-- Where the cache of a project usually is. -/
def usualRoot : String :=
  Path.join JsonStore.projectDirectory "cache"

/-- The directory of the cache: as an option says, as the settings say, or the usual one. -/
def cacheRoot (options : Options) (config : Config) : String :=
  (options.root <|> config.storeDirectory).getD usualRoot

/-- The settings of a run, and a warning if they cannot be loaded. -/
def settings (surroundings : Surroundings) (options : Options) (t : Files) : Config × String :=
  let (config, warning) :=
    match Config.load surroundings.userDirectory surroundings.workingDirectory t with
    | .ok config => (config, "")
    | .error error =>
      (Config.standard, Listing.line s!"Warning: Failed to load config: {error.message}")
  match options.profile with
  | none => (config, warning)
  | some profile => (profile.apply config, warning)

/-- A command as a command of the session; wiping is none, because it ends the session. -/
def Command.ofSession? : Command → Option (Session.Command Unit)
  | .classes => some Session.listClasses
  | .showClass name => some (Session.showClass name)
  | .dependencies name => some (Session.showDependencies name)
  | .importFiles paths => some (Session.importFiles paths)
  | .remove name => some (Session.removeClass name)
  | .stats => some Session.showStats
  | .wipe => none

/-- Runs a command in a session of its own, which is closed also after a failure. -/
def runCommand (command : Command) (root : String) (config : Config) (t : Files) :
    Except Failure Unit × String × Files :=
  match Session.open root config t with
  | (.error failure, t) => (.error failure, "", t)
  | (.ok session, t) =>
    match command.ofSession? with
    | none =>
      match session.wipe t with
      | (.ok printed, t) => (.ok (), printed, t)
      | (.error failure, t) => (.error failure, "", t)
    | some op =>
      let (result, run) := op.run ⟨session, t, ""⟩
      let (closed, t) := run.session.close run.files
      -- A failure of the command is reported before one of closing.
      match result with
      | .error failure => (.error failure, run.printed, t)
      | .ok () => (closed, run.printed, t)

/-- A text whose lines after the first one are indented. -/
def hanging (indentation text : String) : String :=
  String.intercalate ("\n" ++ indentation) (text.splitOn "\n")

/-- A number in a column of five. -/
def numberColumn (n : Nat) : String :=
  let digits := toString n
  String.ofList (List.replicate (5 - digits.length) ' ') ++ digits ++ ": "

/-- The lines of causes, which are numbered if there is more than one. -/
def causeLines : List String → List String
  | [cause] => ["    " ++ hanging "    " cause]
  | causes => causes.zipIdx.map fun (cause, n) => numberColumn n ++ hanging "       " cause

def report (failure : Failure) : String :=
  let advice :=
    if failure.requiresRebuild then
      Listing.line "The cache is unreadable; run `depcache wipe` and rebuild."
    else ""
  let causes :=
    match failure.chain.drop 1 with
    | [] => ""
    | causes => "\n\nCaused by:\n" ++ String.intercalate "\n" (causeLines causes)
  advice ++ Listing.line ("Error: " ++ String.join (failure.chain.take 1) ++ causes)

/-- The documents that a command line names. -/
def Request.documents : Request → List String
  | .run _ (.importFiles paths) => paths
  | _ => []

/-- The directory of the cache that a command line is about. -/
def Request.root? (surroundings : Surroundings) (t : Files) : Request → Option String
  | .run options _ => some (cacheRoot options (settings surroundings options t).1)
  | _ => none

/-- A run of the program. -/
def run (surroundings : Surroundings) (arguments : List String) (t : Files) : Outcome × Files :=
  match parse arguments with
  | .misuse => (⟨2, "", ""⟩, t)
  | .help => (⟨0, "", ""⟩, t)
  | .version => (⟨0, Listing.line versionText, ""⟩, t)
  | .run options command =>
    let (config, warning) := settings surroundings options t
    match runCommand command (cacheRoot options config) config t with
    | (.ok (), printed, t) => (⟨0, printed, warning⟩, t)
    | (.error failure, printed, t) => (⟨1, printed, warning ++ report failure⟩, t)

end ClassDeps.Cli
