import RubyOutline.Files.ParseTable
import RubyOutline.Project.Basic

namespace RubyOutline

/-- One project that lives through changes of the files and of the known parse trees. -/
structure Session where
  files : FileSystem
  trees : ParseTable
  project : Project

namespace Session

inductive Step where
  | write (path : String) (bytes : List UInt8)
  | makeDirectory (path : String)
  | remove (path : String)
  | register (text : String) (tree : ParseTree)
  | forget (text : String)
  | setSource (path : String) (source : Option String)
  | runFile (path : String)
  | run
  | report (mode : Report.Mode) (publicOnly : Bool)

/-- Why a step fails. -/
inductive Fault where
  | unknownPath (path : String)
  | files (error : FileError)
  deriving DecidableEq, Repr

/-- The file of the project with the given path. -/
def sourceFile (s : Session) (path : String) : Except Fault SourceFile :=
  match s.project.files.find? (·.path == path) with
  | some f => .ok f
  | none => .error (.unknownPath path)

/-- Why a step fails that is taken from a session. -/
def fault? (s : Session) : Step → Option Fault
  | .write path bytes => (s.files.place path bytes).2.map .files
  | .makeDirectory path => (s.files.ensureDirectories path).2.map .files
  | .remove path => (s.files.remove path).2.map .files
  | .setSource path _ =>
    match s.sourceFile path with
    | .ok _ => none
    | .error fault => some fault
  | .runFile path =>
    match s.sourceFile path with
    | .ok f => f.refusal?.map .files
    | .error fault => some fault
  | .run => s.project.refusal?.map .files
  | .register _ _ | .forget _ | .report _ _ => none

/-- The session after a step. What a step has done before it fails stays done. -/
def next (s : Session) : Step → Session
  | .write path bytes => { s with files := (s.files.place path bytes).1 }
  | .makeDirectory path => { s with files := (s.files.ensureDirectories path).1 }
  | .remove path => { s with files := (s.files.remove path).1 }
  | .register text tree => { s with trees := s.trees.register text tree }
  | .forget text => { s with trees := s.trees.forget text }
  | .setSource path source =>
    { s with project := s.project.modify path fun f => { f with source } }
  | .runFile path => { s with project := s.project.runFile s.files s.trees.parser path }
  | .run => { s with project := s.project.run s.files s.trees.parser }
  | .report _ _ => s

/-- What is logged by a step taken from a session. -/
def log (s : Session) : Step → List Log.Entry
  | .runFile path => s.project.runFileLog s.files s.trees.parser path
  | .run => s.project.runLog s.files s.trees.parser
  | _ => []

end Session

end RubyOutline
