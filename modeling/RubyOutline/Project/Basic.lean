import RubyOutline.Project.SourceFile
import RubyOutline.Report.Basic

namespace RubyOutline

/-- Files in the order in which they were collected, each path once. -/
structure Project where
  files : List SourceFile

namespace Project

/-- A path that is given again does not change its place. -/
def ofPaths (paths : List String) : Project := ⟨paths.eraseDups.map fun path => { path }⟩

def paths (p : Project) : List String := p.files.map SourceFile.path

def features (p : Project) : List Feature := p.files.flatMap SourceFile.features

def diagnostics (p : Project) : List Diagnostic := p.files.flatMap SourceFile.diagnostics

def failedFiles (p : Project) : List String :=
  (p.files.filter SourceFile.failed).map SourceFile.path

/-- Change the file with the given path and leave all others as they are. -/
def modify (p : Project) (path : String) (change : SourceFile → SourceFile) : Project :=
  ⟨p.files.map fun f => if f.path = path then change f else f⟩

def runFile (fs : FileSystem) (parser : Parser) (path : String) (p : Project) : Project :=
  p.modify path fun f => (f.run fs parser).1

/-- What the run of one file says. -/
def runFileLog (fs : FileSystem) (parser : Parser) (path : String) (p : Project) :
    List Log.Entry :=
  (p.files.filter (·.path == path)).flatMap fun f => (f.run fs parser).2

def summary (p : Project) : Log.Entry :=
  Log.debug ("[FeatureRunner] " ++ toString p.files.length ++ " file(s), " ++
    toString p.features.length ++ " top-level feature(s), " ++ toString p.diagnostics.length ++
    " diagnostic(s)")

/-- Why the first file that is refused is refused. -/
def refusal? (p : Project) : Option FileError := p.files.findSome? SourceFile.refusal?

/-- The files before the first that is refused. -/
def accepted (p : Project) : List SourceFile := p.files.takeWhile fun f => f.refusal?.isNone

/-- The first file that is refused, if any, and all files after it. -/
def pending (p : Project) : List SourceFile := p.files.dropWhile fun f => f.refusal?.isNone

theorem accepted_append_pending (p : Project) : p.accepted ++ p.pending = p.files :=
  List.takeWhile_append_dropWhile

/-- Run all files in order, up to the first that is refused. -/
def run (fs : FileSystem) (parser : Parser) (p : Project) : Project :=
  ⟨p.accepted.map (fun f => (f.run fs parser).1) ++ p.pending⟩

/-- What the run of all files says. The summary is for a run in which no file is refused. -/
def runLog (fs : FileSystem) (parser : Parser) (p : Project) : List Log.Entry :=
  (p.accepted.flatMap fun f => (f.run fs parser).2) ++
    if p.refusal?.isNone then [(p.run fs parser).summary] else []

def report (palette : Palette) (mode : Report.Mode) (publicOnly : Bool) (p : Project) : Report :=
  Report.make palette mode publicOnly (p.files.map fun f => (f.path, f.features))

end Project

end RubyOutline
