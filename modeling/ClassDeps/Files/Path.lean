/-!
# Paths

Paths are texts; names are separated by slashes, and a path that starts with a slash starts at the root. An
empty name and a single dot lead nowhere else.

## Main definitions

* `Path.join` — a path below another one
* `Path.steps` — the names of a path from left to right
* `Path.parent?` — the path of the directory that holds a file
* `Place` — where the names of a path lead
-/

namespace ClassDeps

namespace Path

def isAbsolute (path : String) : Bool :=
  path.toList.head? == some '/'

/-- The path `name` below the directory `base`; an absolute `name` stands for itself. -/
def join (base name : String) : String :=
  if isAbsolute name then name
  else if base = "" || base.toList.getLast? == some '/' then base ++ name
  else base ++ "/" ++ name

/-- Splits a list of characters at slashes. -/
def splitSlashes : List Char → List (List Char)
  | [] => [[]]
  | c :: rest =>
    if c = '/' then [] :: splitSlashes rest
    else match splitSlashes rest with
      | [] => [[c]]
      | part :: parts => (c :: part) :: parts

/-- The names between the slashes of a list of characters. -/
def names (path : List Char) : List String :=
  (splitSlashes path).map String.ofList

/-- The names of a path. Two slashes in a row, or one at an end, have an empty name beside them. -/
def steps (path : String) : List String :=
  names path.toList

/-- The path without the slashes at its end. -/
def withoutTrailingSlashes (path : String) : String :=
  String.ofList (path.toList.reverse.dropWhile (· = '/')).reverse

/-- Whether a name leads nowhere else. -/
def isIdle (name : String) : Bool :=
  name = "" || name = "."

/-- The names up to the last one that leads somewhere. -/
def withoutTrailingIdle (names : List String) : List String :=
  (names.reverse.dropWhile isIdle).reverse

/-- What a path starts with, which no parent lacks, and the rest: the root, or the dot of a path that starts
with one. -/
def front : List Char → String × List Char
  | '/' :: rest => ("/", rest)
  | ['.'] => (".", [])
  | '.' :: '/' :: rest => (".", '/' :: rest)
  | path => ("", path)

/-- The path of the directory that holds the file `path`, which is the last name that leads somewhere. The names
before it stay as they are. The root has no parent, and neither has the empty path. -/
def parent? (path : String) : Option String :=
  let (front, rest) := front path.toList
  match withoutTrailingIdle (names rest) with
  | [] => if front = "." then some "" else none
  | names => some (front ++ String.intercalate "/" (withoutTrailingIdle names.dropLast))

end Path

/-- The names on the way from the root to a file or directory. -/
abbrev Place := List String

def Place.path (place : Place) : String :=
  String.join (place.map ("/" ++ ·))

/-- The place beside another one with an ending behind the last name. -/
def Place.beside (place : Place) (ending : String) : Place :=
  place.dropLast ++ [place.getLastD "" ++ ending]

end ClassDeps
