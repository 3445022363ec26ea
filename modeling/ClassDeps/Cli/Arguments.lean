/-!
# Command lines

Options stand before the command, each at most once; a command takes a fixed number of arguments or at least
one. After two dashes behind the command everything is an argument.

## Main definitions

* `Cli.Options`, `Cli.Command`, `Cli.Request` — what a command line asks for
* `Cli.parse` — reading a command line from left to right
-/

namespace ClassDeps.Cli

/-- Tuning that replaces the configured one. -/
inductive Profile where
  | minimal
  | performance
  deriving DecidableEq

/-- What the options say. -/
structure Options where
  root : Option String
  profile : Option Profile
  debug : Bool
  deriving DecidableEq

/-- A command with its arguments. -/
inductive Command where
  | classes
  | showClass (name : String)
  | dependencies (name : String)
  | importFiles (paths : List String)
  | remove (name : String)
  | stats
  | wipe
  deriving DecidableEq

/-- What a command line asks for. -/
inductive Request where
  | run (options : Options) (command : Command)
  | version
  | help
  | misuse
  deriving DecidableEq

/-- Whether an argument is an option rather than a value. -/
def isOption (argument : String) : Bool :=
  argument.startsWith "-" && argument ≠ "-"

/-- Sets the directory, which must not be empty or set already. -/
def Options.setRoot? (o : Options) (value : String) : Option Options :=
  if value = "" || o.root.isSome then none else some { o with root := some value }

/-- Sets the profile, which must be a known one and not be set already. -/
def Options.setProfile? (o : Options) (value : String) : Option Options :=
  let profile? :=
    match value with
    | "minimal" => some Profile.minimal
    | "performance" => some Profile.performance
    | _ => none
  if o.profile.isSome then none else profile?.map fun profile => { o with profile := some profile }

/-- Asks for more output, which must not be asked for already. -/
def Options.setDebug? (o : Options) : Option Options :=
  if o.debug then none else some { o with debug := true }

/-- An option that takes a value. -/
inductive ValueOption where
  | root
  | profile
  deriving DecidableEq

def Options.set? (o : Options) : ValueOption → String → Option Options
  | .root => o.setRoot?
  | .profile => o.setProfile?

/-- What one argument before the command means. -/
inductive Step where
  | go (options : Options)
  | needsValue (option : ValueOption)
  | done (request : Request)
  deriving DecidableEq

/-- Goes on with changed options, if they can be changed so. -/
def Step.ofOptions? : Option Options → Step
  | some options => .go options
  | none => .done .misuse

/-- Reads an option with its full name, without the two dashes. -/
def longOption (o : Options) (name : String) (value : Option String) : Step :=
  match name, value with
  | "root", none => .needsValue .root
  | "root", some value => .ofOptions? (o.setRoot? value)
  | "profile", none => .needsValue .profile
  | "profile", some value => .ofOptions? (o.setProfile? value)
  | "debug", none => .ofOptions? o.setDebug?
  | "version", none => .done .version
  | "help", none => .done .help
  | _, _ => .done .misuse

/-- The value of an option that stands behind its letter, with or without an equals sign. -/
def attached (option : ValueOption) (o : Options) : List Char → Step
  | [] => .needsValue option
  | '=' :: value => .ofOptions? (o.set? option (String.ofList value))
  | value => .ofOptions? (o.set? option (String.ofList value))

/-- Reads options by their letters, without the dash. -/
def shortOptions (o : Options) : List Char → Step
  | [] => .go o
  | 'd' :: rest =>
    match o.setDebug? with
    | some o => shortOptions o rest
    | none => .done .misuse
  | 'V' :: _ => .done .version
  | 'h' :: _ => .done .help
  | 'r' :: value => attached .root o value
  | 'p' :: value => attached .profile o value
  | _ => .done .misuse

/-- Splits a text at its first equals sign. -/
def splitValue (text : List Char) : String × Option String :=
  let name := String.ofList (text.takeWhile (· ≠ '='))
  match text.dropWhile (· ≠ '=') with
  | [] => (name, none)
  | _ :: value => (name, some (String.ofList value))

/-- Reads one option. Two dashes alone end the options, which is of no use before the command. -/
def option (o : Options) (argument : String) : Step :=
  match argument.toList with
  | ['-', '-'] => .done .misuse
  | '-' :: '-' :: text =>
    let (name, value) := splitValue text
    longOption o name value
  | _ :: letters => shortOptions o letters
  | [] => .done .misuse

/-- Reads the arguments of a command, of which each must pass a test and there may be at most `most`. -/
def values? (test : String → Bool) (most : Option Nat) : (found : List String) → List String →
    Except Request (List String)
  | found, [] => .ok found
  | found, argument :: rest =>
    let add (found : List String) (value : String) : Option (List String) :=
      if test value && most.all (found.length < ·) then some (found ++ [value]) else none
    if argument = "--" then
      match rest.foldlM add found with
      | some found => .ok found
      | none => .error .misuse
    else if argument = "--help" then .error .help
    else if isOption argument then
      .error (if argument.startsWith "-h" && !argument.startsWith "--" then .help else .misuse)
    else match add found argument with
      | some found => values? test most found rest
      | none => .error .misuse

/-- Reads a command without arguments. -/
def bare (o : Options) (command : Command) (arguments : List String) : Request :=
  match values? (fun _ => true) (some 0) [] arguments with
  | .ok _ => .run o command
  | .error request => request

def onClass (o : Options) (command : String → Command) (arguments : List String) : Request :=
  match values? (fun _ => true) (some 1) [] arguments with
  | .ok [name] => .run o (command name)
  | .ok _ => .misuse
  | .error request => request

/-- Reads a command on at least one file; a path must not be empty. -/
def onFiles (o : Options) (command : List String → Command) (arguments : List String) : Request :=
  match values? (· ≠ "") none [] arguments with
  | .ok [] => .misuse
  | .ok paths => .run o (command paths)
  | .error request => request

def commandNames : List String :=
  ["classes", "show", "back-deps", "import", "remove", "stats", "wipe", "help"]

/-- Reads what help is asked about: nothing in particular or one command, because no command has commands of its
own. -/
def helpOn : (arguments : List String) → Request
  | [] => .help
  | [name] => if commandNames.contains name then .help else .misuse
  | _ => .misuse

def command (o : Options) (name : String) (arguments : List String) : Request :=
  match name with
  | "classes" => bare o .classes arguments
  | "show" => onClass o .showClass arguments
  | "back-deps" => onClass o .dependencies arguments
  | "import" => onFiles o .importFiles arguments
  | "remove" => onClass o .remove arguments
  | "stats" => bare o .stats arguments
  | "wipe" => bare o .wipe arguments
  | "help" => helpOn arguments
  | _ => .misuse

/-- Reads a command line from left to right, with the option that waits for its value. -/
def parseFrom : (waiting : Option ValueOption) → Options → List String → Request
  | _, _, [] => .misuse
  | some waiting, o, value :: rest =>
    if isOption value then .misuse
    else match o.set? waiting value with
      | some o => parseFrom none o rest
      | none => .misuse
  | none, o, argument :: rest =>
    if isOption argument then
      match option o argument with
      | .go o => parseFrom none o rest
      | .needsValue waiting => parseFrom (some waiting) o rest
      | .done request => request
    else command o argument rest

/-- What a command line asks for. -/
def parse (arguments : List String) : Request :=
  parseFrom none ⟨none, none, false⟩ arguments

end ClassDeps.Cli
