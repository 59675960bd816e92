import RubyOutline.Run.Log

namespace RubyOutline

structure Settings where
  debug : Bool := false
  colours : Bool := true

/-- A variable counts as set when it holds any text but the empty one. -/
def Settings.ofVariables (debug noColours : Option String) : Settings where
  debug := !(debug.getD "").isEmpty
  colours := (noColours.getD "").isEmpty

namespace Environment

/-- The packages of the parser: the name that each is loaded by, and the one it is installed by. -/
def packages : List (String × String) :=
  [("tree_sitter", "tree-sitter"), ("tree_sitter_ruby", "tree-sitter-ruby")]

def missingPackages (missing : List String) : List String :=
  (packages.filter fun package => missing.contains package.1).map (·.2)

/-- The complaint about missing packages, one numbered entry each; empty when all are there. -/
def validate (missing : List String) : List Log.Entry :=
  match missingPackages missing with
  | [] => []
  | absent =>
    Log.error "Environment validation failed:\n" ::
      absent.mapIdx fun i package =>
        Log.error ("\n" ++ toString (i + 1) ++ ". " ++ package ++
          " not installed. Run: pip install " ++ package ++ "\n")

/-- The complaint of a parser that cannot be loaded; empty when it can. -/
def loadParser (missing : List String) : List Log.Entry :=
  if (missingPackages missing).isEmpty then []
  else [Log.error "tree-sitter not installed. Run: pip install tree-sitter tree-sitter-ruby"]

end Environment

end RubyOutline
