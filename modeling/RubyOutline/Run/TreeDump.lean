import RubyOutline.Dump.Node
import RubyOutline.Dump.ParseTree
import RubyOutline.Files.Source
import RubyOutline.Run.Log

namespace RubyOutline

/-- What is shown of some files. One that cannot be read or parsed is passed over; one that has a
parse tree and no program tree ends the run. -/
structure TreeDump where
  lines : List String := []
  log : List Log.Entry := []
  ended : Bool := false

namespace TreeDump

def andThen (a b : TreeDump) : TreeDump :=
  if a.ended then a else ⟨a.lines ++ b.lines, a.log ++ b.log, b.ended⟩

def parseTreeLines (path text : String) (t : ParseTree) : List String :=
  ["", "=== AST for " ++ path ++ " ==="] ++
    ParseTree.dump (Utf8.encode text) ParseTree.dumpLimit 0 t ++
    ["", "=== Syntax tree for " ++ path ++ " ==="]

def nodeLines (n : Node) : List String := Node.dump Node.dumpLimit 0 n ++ ["=== End AST ===", ""]

def ofFile (fs : FileSystem) (parser : Parser) (path : String) : TreeDump :=
  match fs.readText path with
  | .error e => { log := [Log.error ("Failed to read " ++ path ++ ": " ++ e.message)] }
  | .ok text =>
    match Source.tree parser text with
    | .error e => { log := [Log.error ("parsing " ++ path ++ ": " ++ e.message)] }
    | .ok t =>
      match t.toNode? text with
      | some n => { lines := parseTreeLines path text t ++ nodeLines n }
      | none => { lines := parseTreeLines path text t, ended := true }

def ofFiles (fs : FileSystem) (parser : Parser) : List String → TreeDump
  | [] => {}
  | path :: rest => (ofFile fs parser path).andThen (ofFiles fs parser rest)

end TreeDump

end RubyOutline
