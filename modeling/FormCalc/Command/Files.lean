import FormCalc.Text.Span

/-!
# Files

The files that a run can see: folders and files under a root, and the folder in which
the run takes place.  A place is the list of names on the way down from the root.  A
name takes 255 bytes at most, and a path 4095.

* `Files.place`: the place that a path leads to.
* `Files.absence`: why there is nothing at a place.
* `Files.read`, `Files.write`: the bytes of a file, and the files after one is written.
-/

namespace FormCalc

/-- Why a file cannot be read or written. -/
inductive FileError where
  /-- There is nothing at the path, or on the way to it. -/
  | missing
  /-- There is a folder. -/
  | isFolder
  /-- There is a file on the way. -/
  | notFolder
  /-- The path, or a name on it, takes more bytes than there may be. -/
  | nameTooLong
  /-- Whatever else may hinder it, in words. -/
  | other (reason : String)
  deriving DecidableEq, Repr

/-- What is said about a file that cannot be read or written. -/
def FileError.message : FileError → String
  | .missing => "No such file or directory (os error 2)"
  | .isFolder => "Is a directory (os error 21)"
  | .notFolder => "Not a directory (os error 20)"
  | .nameTooLong => "File name too long (os error 36)"
  | .other reason => reason

/-- The most bytes that a name can take. -/
def nameLimit : Nat := 255

/-- The most bytes that a path can take. -/
def pathLimit : Nat := 4095

/-- Splits a path at its slashes, of which several in a row leave empty names. -/
def splitPath : List Char → List (List Char)
  | [] => [[]]
  | c :: cs =>
    if c = '/' then [] :: splitPath cs
    else match splitPath cs with
      | [] => [[c]]
      | first :: rest => (c :: first) :: rest

/-- The names along a path. -/
def pathNames (path : String) : List String :=
  ((splitPath path.toList).filter (· != [])).map String.ofList

/-- The folders and the files, each by its place, and the folder of the run. -/
structure Files where
  folders : List (List String)
  files : List (List String × List UInt8)
  here : List String

namespace Files

/-- The bytes of the file at a place. -/
def at? (fs : Files) (place : List String) : Option (List UInt8) := fs.files.lookup place

/-- Whether there is a folder at a place.  The root is one. -/
def isFolder (fs : Files) (place : List String) : Bool :=
  place.isEmpty || fs.folders.contains place

/-- Whether the last name of a place is too long for anything to have it. -/
def isOverlong (place : List String) : Bool :=
  place.getLast?.any fun name => nameLimit < utf8Length name.toList

/-- Why there is nothing at a place. -/
def absence (place : List String) : FileError :=
  if isOverlong place then .nameTooLong else .missing

/-- Goes on only in a folder. -/
def checkFolder (fs : Files) (place : List String) : Except FileError Unit :=
  if fs.isFolder place then .ok ()
  else if (fs.at? place).isSome then .error .notFolder
  else .error (absence place)

/-- Goes one name further.  One point stays, and two points go up; above the root there is
nothing. -/
def step (place : List String) (name : String) : List String :=
  if name = "." then place
  else if name = ".." then place.dropLast
  else place ++ [name]

/-- Follows names from a place.  Every step starts in a folder, and what the last one
leads to is not looked at. -/
def follow (fs : Files) (place : List String) : List String → Except FileError (List String)
  | [] => .ok place
  | name :: rest => do
    fs.checkFolder place
    fs.follow (step place name) rest

/-- The place that a path leads to.  What is there is not looked at.  A path that is too
long leads nowhere, whatever its names are. -/
def place (fs : Files) (path : String) : Except FileError (List String) :=
  if pathLimit < utf8Length path.toList then .error .nameTooLong
  else fs.follow (if path.toList.head? = some '/' then [] else fs.here) (pathNames path)

/-- Whether a path asks for a folder by a slash at its end. -/
def asksFolder (path : String) : Bool := path.toList.getLast? == some '/'

/-- The bytes of a file. -/
def read (fs : Files) (path : String) : Except FileError (List UInt8) := do
  let place ← fs.place path
  if fs.isFolder place then .error .isFolder
  else match fs.at? place with
    | none => .error (absence place)
    | some bytes => if asksFolder path then .error .notFolder else .ok bytes

/-- The files with other bytes at a place. -/
def put (fs : Files) (place : List String) (bytes : List UInt8) : Files :=
  { fs with files := (place, bytes) :: fs.files.filter (·.1 != place) }

/-- The files after a file is written, whether it was there or not.  A slash at the end of
the path is refused before the name in front of it is looked at. -/
def write (fs : Files) (path : String) (bytes : List UInt8) : Except FileError Files := do
  let place ← fs.place path
  if fs.isFolder place || asksFolder path then .error .isFolder
  else if isOverlong place then .error .nameTooLong
  else .ok (fs.put place bytes)

end Files

end FormCalc
