namespace RubyOutline.Path

def splitSlashes : List Char → List (List Char)
  | [] => [[]]
  | '/' :: rest => [] :: splitSlashes rest
  | c :: rest =>
    match splitSlashes rest with
    | [] => [[c]]
    | name :: names => (c :: name) :: names

/-- The texts between the slashes of a path, empty ones included. -/
def pieces (path : String) : List String := (splitSlashes path.toList).map String.ofList

/-- A leading slash makes a path absolute, and exactly two of them are kept as two. -/
def rootSlashes (path : String) : String :=
  match path.toList with
  | '/' :: '/' :: '/' :: _ => "/"
  | '/' :: '/' :: _ => "//"
  | '/' :: _ => "/"
  | _ => ""

/-- A null character is in no name. -/
def hasNull (path : String) : Bool := path.contains '\x00'

def isAbsolute (path : String) : Bool := path.startsWith "/"

/-- The names of a path, without empty ones and without single dots. -/
def names (path : String) : List String :=
  (pieces path).filter fun name => name != "" && name != "."

def ofNames (root : String) (names : List String) : String :=
  if root.isEmpty && names.isEmpty then "." else root ++ "/".intercalate names

/-- The same path without empty names and single dots; double dots stay. -/
def tidy (path : String) : String := ofNames (rootSlashes path) (names path)

/-- The path of an entry below a directory, where the current directory is left unsaid. -/
def below (directory : String) (relative : List String) : String :=
  ofNames (rootSlashes directory) (names directory ++ relative)

/-- Take each double dot together with the name before it. Above the root there is nothing, and
above a relative path the double dots remain. `seen` has the names read, last first. -/
def cancelDots (absolute : Bool) (seen : List String) : List String → List String
  | [] => seen.reverse
  | name :: rest =>
    if name = ".." then
      match seen with
      | [] => cancelDots absolute (if absolute then [] else [name]) rest
      | last :: before =>
        if last = ".." then cancelDots absolute (name :: seen) rest
        else cancelDots absolute before rest
    else cancelDots absolute (name :: seen) rest

/-- The last name of a path once its double dots are taken away; a single dot for the current
directory, and nothing for the root. -/
def lastName (path : String) : String :=
  let absolute := isAbsolute path
  (cancelDots absolute [] (names path)).getLastD (if absolute then "" else ".")

/-- The part of a path before its last slash, without slashes at its end unless it has nothing
else, and the part after it. -/
def splitLast (path : String) : String × String :=
  let reversed := path.toList.reverse
  let tail := (reversed.takeWhile (· != '/')).reverse
  let head := reversed.dropWhile (· != '/')
  let trimmed := head.dropWhile (· == '/')
  (String.ofList (if trimmed.isEmpty then head else trimmed).reverse, String.ofList tail)

/-- The directory of a path and its last part, where slashes at the end of the path do not count. -/
def parent (path : String) : String × String :=
  let (head, tail) := splitLast path
  if tail.isEmpty then splitLast head else (head, tail)

/-- The path of a file in a directory. -/
def join (directory name : String) : String :=
  if directory.isEmpty || directory.endsWith "/" then directory ++ name
  else directory ++ "/" ++ name

end RubyOutline.Path
