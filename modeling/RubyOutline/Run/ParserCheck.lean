import RubyOutline.Files.Source
import RubyOutline.ParseTree.ErrorNode
import RubyOutline.Report.Basic
import RubyOutline.Run.Log
import RubyOutline.Text.Quoted

namespace RubyOutline.ParserCheck

def errorLine (e : ErrorNode) : String :=
  indent e.depth.toNat ++ "ERROR line " ++ toString e.tree.line ++ " [" ++ toString e.tree.start ++
    ":" ++ toString e.tree.stop ++ "] " ++ quoted e.text

/-- What is said about the error nodes of a file; nothing when there are none. -/
def errorLog (path : String) (errors : List ErrorNode) : List Log.Entry :=
  match errors with
  | [] => []
  | errors =>
    Log.error ("PARSER ERRORS FOUND in " ++ path ++ ": " ++ toString errors.length ++
      " ERROR node(s)") :: errors.map fun e => Log.error (errorLine e)

/-- What is said about a file; nothing when it passes. -/
def checkFile (fs : FileSystem) (parser : Parser) (path : String) : List Log.Entry :=
  match fs.readText path with
  | .error e => [Log.error ("Failed to read " ++ path ++ ": " ++ e.message)]
  | .ok text =>
    match Source.tree parser text with
    | .error e => [Log.error ("Failed to parse " ++ path ++ ": " ++ e.message)]
    | .ok t => errorLog path (ErrorNode.ofFile text t)

structure Verdict where
  passed : Bool
  lines : List String
  log : List Log.Entry

/-- All files are checked, whatever the verdict on those before. -/
def check (fs : FileSystem) (parser : Parser) (paths : List String) : Verdict :=
  let opening := "Parser check mode: Validating parse trees..."
  match paths.flatMap (checkFile fs parser) with
  | [] => ⟨true, [opening, "✓ Parser validation PASSED: No ERROR nodes found"], []⟩
  | log =>
    ⟨false, [opening], log ++ [Log.error "Parser validation FAILED: ERROR nodes found in AST"]⟩

end RubyOutline.ParserCheck
