import RubyOutline.Extraction.Basic
import RubyOutline.Files.Source
import RubyOutline.Run.Log

namespace RubyOutline

/-- What is known of a file. Its text is read once and then kept, what an earlier run has found
stays when a later one fails, and a failure is never forgotten. -/
structure SourceFile where
  path : String
  source : Option String := none
  node : Option Node := none
  features : List Feature := []
  diagnostics : List Diagnostic := []
  failed : Bool := false

namespace SourceFile

/-- The text kept for a file, or else the text of the file itself. -/
def text (fs : FileSystem) (f : SourceFile) : Except SourceError String :=
  match f.source with
  | some text => .ok text
  | none => fs.readText f.path

/-- Why a file is refused: its text is not known, and its path can be no path. -/
def refusal? (f : SourceFile) : Option FileError :=
  if f.source.isNone && Path.hasNull f.path then some ⟨.nullCharacter, f.path⟩ else none

/-- What extraction itself says, for debugging: each diagnostic when it is recorded. -/
def recordLog (e : Extraction) : List Log.Entry :=
  e.diagnostics.map fun d => Log.debug ("[FeatureTreeBuilder] " ++ d.render)

/-- What is said about a file whose features are extracted: in the end each diagnostic as a
warning, and the number of features. -/
def extractionLog (path : String) (e : Extraction) : List Log.Entry :=
  recordLog e ++ e.diagnostics.map (fun d => Log.warning d.render) ++
    [Log.debug ("[FeatureRunner] " ++ path ++ ": " ++ toString e.features.length ++
      " top-level feature(s)")]

/-- Read a file if its text is not known, parse it and extract its features. -/
def run (fs : FileSystem) (parser : Parser) (f : SourceFile) : SourceFile × List Log.Entry :=
  if f.refusal?.isSome then (f, [])
  else
    match f.text fs with
    | .error e =>
      ({ f with failed := true }, [Log.error ("Failed to read " ++ f.path ++ ": " ++ e.message)])
    | .ok text =>
      let f := { f with source := some text }
      match Source.parse parser text with
      | .error e =>
        ({ f with failed := true },
          [Log.error ("Failed to parse " ++ f.path ++ ": " ++ e.message)])
      | .ok node =>
        let e := extract f.path (.node node)
        ({ f with node := some node, features := e.features, diagnostics := e.diagnostics },
          extractionLog f.path e)

end SourceFile

end RubyOutline
