import ClassDeps.Bytes

/-!
# What can go wrong

Failures are kept as causes with the data that they are about. The wording is in the `message` functions of
this module and nowhere else.

## Main definitions

* `SystemFault` — why the file system refuses
* `KeyFault`, `StorageFault`, `EncodingFault`, `ConfigFault`, `InternalFault` — causes by area
* `Error` — a failure of the stores, the symbol table or the configuration
* `CacheError` — a failure of the cache: its files are unreadable, or a class document is malformed
-/

namespace ClassDeps

/-- Why the file system refuses an operation. -/
inductive SystemFault where
  | notFound
  | alreadyExists
  | notADirectory
  | isADirectory
  | nameTooLong
  | zeroByte
  | invalidText
  | other (text : String)
  deriving DecidableEq

def SystemFault.message : SystemFault → String
  | notFound => "No such file or directory (os error 2)"
  | alreadyExists => "File exists (os error 17)"
  | notADirectory => "Not a directory (os error 20)"
  | isADirectory => "Is a directory (os error 21)"
  | nameTooLong => "File name too long (os error 36)"
  | zeroByte => "file name contained an unexpected NUL byte"
  | invalidText => "stream did not contain valid UTF-8"
  | other text => text

/-- Why bytes are no key. -/
inductive KeyFault where
  | noTag
  | truncated (offset length : Nat)
  | trailing (count : Nat)
  | unknownTag (tag : UInt8)
  deriving DecidableEq

def KeyFault.message : KeyFault → String
  | noTag => "Key truncated before tag"
  | truncated offset length => s!"Key truncated at offset {offset} (length {length})"
  | trailing count => s!"Key has {count} trailing bytes"
  | unknownTag tag => s!"Unknown dependency key tag: {tag}"

/-- Why files cannot be used; paths are as they were given. -/
inductive StorageFault where
  | createDirectory (path : String) (fault : SystemFault)
  | createRoot (path : String) (fault : SystemFault)
  | openStore (path : String)
  | notAStore
  | inUse
  | noJournal
  | noSchema
  | kindMismatch (path stored expected : String)
  | newerSchema (path : String) (version : Int32)
  | read (path : String) (fault : SystemFault)
  | write (path : String) (fault : SystemFault)
  | replace (path : String) (fault : SystemFault)
  | other (text : String)
  deriving DecidableEq

/-- The schema version of store files. -/
def supportedSchema : Int32 := 1

def StorageFault.message : StorageFault → String
  | createDirectory path fault => s!"Failed to create directory {path}: {fault.message}"
  | createRoot path fault => s!"Failed to create {path}: {fault.message}"
  | openStore path => s!"Failed to open {path}: unable to open database file: {path}"
  | notAStore => "Failed to set pragmas: file is not a database"
  | inUse => "Failed to set pragmas: database is locked"
  | noJournal => "Failed to set pragmas: unable to open database file"
  | noSchema => "Failed to initialize schema: unable to open database file"
  | kindMismatch path stored expected => s!"{path} holds a {stored} store, expected {expected}"
  | newerSchema path version =>
    s!"{path} has schema version {version} (supported: {supportedSchema})"
  | read path fault => s!"Failed to read {path}: {fault.message}"
  | write path fault => s!"Failed to write {path}: {fault.message}"
  | replace path fault => s!"Failed to replace {path}: {fault.message}"
  | other text => text

/-- Why bytes do not mean anything. -/
inductive EncodingFault where
  | key (fault : KeyFault)
  | value (path : String)
  | document (path : String)
  | symbolVersion (version : UInt32)
  | duplicateSymbol (symbol : String)
  | other (text : String)
  deriving DecidableEq

def EncodingFault.message : EncodingFault → String
  | key fault => fault.message
  | value path => s!"Failed to decode value in {path}: not a value of this store"
  | document path => s!"Failed to parse {path}: not a document of this kind"
  | symbolVersion version => s!"Unsupported symbol table version {version}"
  | duplicateSymbol symbol => s!"Duplicate symbol in table: {symbol}"
  | other text => text

/-- Why settings cannot be used. -/
inductive ConfigFault where
  | notAnObject (path : String)
  | invalid
  | newerVersion (version : UInt32)
  | other (text : String)
  deriving DecidableEq

/-- The newest version of settings. -/
def supportedConfig : UInt32 := 1

def ConfigFault.message : ConfigFault → String
  | notAnObject path => s!"{path} must contain a JSON object"
  | invalid => "Invalid cache config: a member has no valid value"
  | newerVersion version =>
    s!"Unsupported config version {version} (newest supported is {supportedConfig})"
  | other text => text

/-- Limits of the program itself. -/
inductive InternalFault where
  | symbolTableFull
  | other (text : String)
  deriving DecidableEq

def InternalFault.message : InternalFault → String
  | symbolTableFull => "Symbol table is full"
  | other text => text

/-- A failure of the stores, the symbol table or the settings. -/
inductive Error where
  | config (fault : ConfigFault)
  | storage (fault : StorageFault)
  | encoding (fault : EncodingFault)
  | io (fault : SystemFault)
  | internal (fault : InternalFault)
  deriving DecidableEq

namespace Error

def area : Error → String
  | config _ => "Config"
  | storage _ => "Storage"
  | encoding _ => "Encoding"
  | io _ => "Io"
  | internal _ => "Internal"

def message : Error → String
  | config fault => s!"Configuration error: {fault.message}"
  | storage fault => s!"Storage error: {fault.message}"
  | encoding fault => s!"Encoding error: {fault.message}"
  | io fault => s!"IO error: {fault.message}"
  | internal fault => s!"Internal error: {fault.message}"

/-- A storage failure described by what was tried and why it failed. -/
def storageIn (context reason : String) : Error :=
  .storage (.other s!"{context}: {reason}")

end Error

/-- Why a class document is not accepted. -/
inductive FormatFault where
  | notADocument
  | empty (what : String)
  | descriptor (method descriptor : String)
  | other (text : String)
  deriving DecidableEq

/-- A failure of the cache. -/
inductive CacheError where
  /-- The stores fail: the cache has to be wiped and built again. -/
  | corrupted (error : Error)
  | format (fault : FormatFault)
  deriving DecidableEq

/-- Whether the cache files can no longer be trusted. -/
def CacheError.requiresRebuild : CacheError → Bool
  | corrupted _ => true
  | format _ => false

end ClassDeps
