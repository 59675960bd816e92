import RubyOutline.Files.FileSystem

namespace RubyOutline.Collection

/-- Directories of dependencies. -/
def dependencies : List String := ["vendor", "node_modules"]

/-- Directories of build output. -/
def buildOutput : List String := ["tmp", "log"]

def isSourceName (name : String) : Bool := name.endsWith ".rb"

/-- Whether what lies in a directory is left out, by the names from the start down to it: hidden
directories and dependencies at any depth, build output only right below the start. -/
def isSkipped (directories : List String) : Bool :=
  (directories.head?.map buildOutput.contains).getD false ||
    directories.any fun name => name.startsWith "." || dependencies.contains name

mutual

/-- The chosen entries of a directory and of all below it, by the names from the start. An entry is
chosen by its name alone, directories included. -/
def below (directories : List String) : List (String × Entry) → List (List String)
  | [] => []
  | (name, entry) :: rest =>
    (if isSourceName name && !isSkipped directories then [directories ++ [name]] else []) ++
      belowEntry (directories ++ [name]) entry ++ below directories rest

def belowEntry (directories : List String) : Entry → List (List String)
  | .directory entries => below directories entries
  | .file _ | .device => []

end

mutual

/-- The directories below a directory, outer ones first, by the names from the start. -/
def directories (outer : List String) : List (String × Entry) → List (List String)
  | [] => []
  | (name, entry) :: rest => directoriesFrom (outer ++ [name]) entry ++ directories outer rest

def directoriesFrom (here : List String) : Entry → List (List String)
  | .directory entries => here :: directories here entries
  | .file _ | .device => []

end

def sorted (paths : List String) : List String := paths.mergeSort fun a b => !(decide (b < a))

/-- The source files under a path, in the order of their characters. A file is its own
collection, and a path that names nothing has none. All directories are looked through, skipped
ones too, so none may have too long a path. -/
def collect (fs : FileSystem) (path : String) : Except FileError (List String) :=
  let start := Path.tidy path
  match fs.lookup start with
  | .error .nameTooLong => .error ⟨.nameTooLong, start⟩
  | .error _ => .ok []
  | .ok (.file _) => .ok [start]
  | .ok .device => .ok []
  | .ok (.directory entries) =>
    match ((directories [] entries).map (Path.below start)).find? FileSystem.isTooLong with
    | some path => .error ⟨.nameTooLong, path⟩
    | none => .ok (sorted ((below [] entries).map (Path.below start)))

end RubyOutline.Collection
