import RubyOutline.Files.Entry
import RubyOutline.Files.FileError
import RubyOutline.Files.Path

namespace RubyOutline

/-- A tree of entries and the current directory in it. -/
structure FileSystem where
  root : Entry
  current : List String

namespace FileSystem

def entry? (fs : FileSystem) (place : List String) : Option Entry := fs.root.get? place

/-- Bytes that the name of one entry may have. -/
def maxNameLength : Nat := 255

/-- Bytes that a whole path may have. -/
def maxPathLength : Nat := 4095

def isTooLong (path : String) : Bool := maxPathLength < path.utf8ByteSize

/-- What is wrong with a path whatever the entries are. -/
def pathFault? (path : String) : Option FileFault :=
  if Path.hasNull path then some .nullCharacter
  else if path.isEmpty then some .notFound
  else if isTooLong path then some .nameTooLong
  else none

/-- Follow one name from a place. -/
def step (fs : FileSystem) (place : List String) (name : String) :
    Except FileFault (List String) :=
  match fs.entry? place with
  | some (.directory entries) =>
    if name = "" ∨ name = "." then .ok place
    else if name = ".." then .ok place.dropLast
    else if maxNameLength < name.utf8ByteSize then .error .nameTooLong
    else if (Entry.find? name entries).isSome then .ok (place ++ [name])
    else .error .notFound
  | _ => .error .notDirectory

def follow (fs : FileSystem) : List String → List String → Except FileFault (List String)
  | place, [] => .ok place
  | place, name :: names =>
    match fs.step place name with
    | .error fault => .error fault
    | .ok next => fs.follow next names

def origin (fs : FileSystem) (path : String) : List String :=
  if Path.isAbsolute path then [] else fs.current

/-- The place of the entry that a path names. -/
def resolve (fs : FileSystem) (path : String) : Except FileFault (List String) :=
  match pathFault? path with
  | some fault => .error fault
  | none => fs.follow (fs.origin path) (Path.pieces path)

def lookup (fs : FileSystem) (path : String) : Except FileFault Entry := do
  match fs.entry? (← fs.resolve path) with
  | some entry => .ok entry
  | none => .error .notFound

def exists? (fs : FileSystem) (path : String) : Bool := (fs.resolve path).isOk

def isDirectory (fs : FileSystem) (path : String) : Bool :=
  match fs.lookup path with
  | .ok entry => entry.isDirectory
  | .error _ => false

/-- The bytes of a file. A device has none. -/
def read (fs : FileSystem) (path : String) : Except FileError (List UInt8) :=
  match fs.lookup path with
  | .error fault => .error ⟨fault, path⟩
  | .ok (.directory _) => .error ⟨.isDirectory, path⟩
  | .ok .device => .ok []
  | .ok (.file bytes) => .ok bytes

/-- The place that a path names, whether or not there is an entry yet. -/
def placeFor (fs : FileSystem) (path : String) : Except FileFault (List String) :=
  match pathFault? path with
  | some fault => .error fault
  | none => do
    let (names, last) := match ((Path.pieces path).reverse.dropWhile (· == "")) with
      | [] => ([], "")
      | last :: before => (before.reverse, last)
    let place ← fs.follow (fs.origin path) names
    match fs.step place last with
    | .error .notFound => .ok (place ++ [last])
    | .error fault => .error fault
    | .ok place => .ok place

/-- Write a file anew or in place of an old one. -/
def write (fs : FileSystem) (path : String) (bytes : List UInt8) :
    Except FileError FileSystem :=
  match fs.placeFor path with
  | .error fault => .error ⟨fault, path⟩
  | .ok place =>
    match fs.entry? place with
    | some (.directory _) => .error ⟨.isDirectory, path⟩
    | some .device => .ok fs
    | _ => .ok { fs with root := fs.root.put place (.file bytes) }

def makeDirectory (fs : FileSystem) (path : String) : Except FileError FileSystem :=
  match fs.placeFor path with
  | .error fault => .error ⟨fault, path⟩
  | .ok place =>
    if (fs.entry? place).isSome then .error ⟨.exists, path⟩
    else .ok { fs with root := fs.root.put place (.directory []) }

/-- Make a directory unless it is there already. What fails leaves the file system as it is. -/
def ensureDirectory (fs : FileSystem) (path : String) : FileSystem × Option FileError :=
  match fs.makeDirectory path with
  | .ok fs => (fs, none)
  | .error e => (fs, if fs.isDirectory path then none else some e)

/-- Make a directory and those above it, outermost first, up to a number of levels. Directories
made before a failure stay. What exists above and is no directory is noticed on the next level. -/
def ensureLevels : (levels : Nat) → FileSystem → String → FileSystem × Option FileError
  | 0, fs, path => (fs, some ⟨.tooManyLevels, path⟩)
  | levels + 1, fs, path =>
    let (head, tail) := Path.parent path
    if head.isEmpty || tail.isEmpty || fs.exists? head then fs.ensureDirectory path
    else
      match ensureLevels levels fs head with
      | (fs, none) | (fs, some ⟨.exists, _⟩) =>
        if tail = "." then (fs, none) else fs.ensureDirectory path
      | (fs, some e) => (fs, some e)

/-- Levels of directories that are made in one go. -/
def maxLevels : Nat := 990

/-- Make a directory and those above it, unless they are there already. -/
def ensureDirectories (fs : FileSystem) (path : String) : FileSystem × Option FileError :=
  ensureLevels maxLevels fs path

/-- Put a file in place, with the directories that lead to it. -/
def place (fs : FileSystem) (path : String) (bytes : List UInt8) :
    FileSystem × Option FileError :=
  let (head, _) := Path.splitLast path
  match if head.isEmpty then (fs, none) else fs.ensureDirectories head with
  | (fs, some e) => (fs, some e)
  | (fs, none) =>
    match fs.write path bytes with
    | .ok fs => (fs, none)
    | .error e => (fs, some e)

/-- Remove a file, if there is one. A directory is not removed. -/
def remove (fs : FileSystem) (path : String) : FileSystem × Option FileError :=
  match fs.resolve path with
  | .error .notFound => (fs, none)
  | .error fault => (fs, some ⟨fault, path⟩)
  | .ok place =>
    match fs.entry? place with
    | some (.directory _) => (fs, some ⟨.isDirectory, path⟩)
    | some (.file _) => ({ fs with root := fs.root.erase place }, none)
    | _ => (fs, none)

/-- The files below the current directory, with their paths from there. -/
def files (fs : FileSystem) : List (String × List UInt8) :=
  match fs.entry? fs.current with
  | some entry => (entry.files []).map fun (names, bytes) => (Path.ofNames "" names, bytes)
  | none => []

/-- An empty current directory, alone in its parent, and the null device. -/
def initial (current : List String) : FileSystem where
  root := (Entry.directory [("dev", .directory [("null", .device)])]).put current (.directory [])
  current := current

end FileSystem

end RubyOutline
