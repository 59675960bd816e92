import RubyOutline.Project.Basic

namespace RubyOutline

/-- What has been printed on the standard output, and what has been written to the open file. -/
structure Printout where
  stdout : String := ""
  file : Option String := none
  deriving DecidableEq, Repr

namespace Printout

/-- A line goes to the standard output and, where a file is open, to that file as well. -/
def print (out : Printout) (line : String) : Printout :=
  ⟨out.stdout ++ line ++ "\n", out.file.map (· ++ line ++ "\n")⟩

end Printout

/-- The features of a file that a report shows. -/
def SourceFile.shown (publicOnly : Bool) (f : SourceFile) : List Feature :=
  if publicOnly then Feature.publicOnly f.features else f.features

namespace Project

/-- Print the section of one file and add its features to the count; a file that has none is passed
over. -/
def printSection (palette : Palette) (publicOnly : Bool) (printed : Nat × Printout)
    (f : SourceFile) : Nat × Printout :=
  let (count, out) := printed
  match f.shown publicOnly with
  | [] => (count, out)
  | shown =>
    (count + shown.length, (Outline.lines palette 1 shown).foldl Printout.print
      (out.print (palette.bold ++ f.path ++ palette.reset)))

def printShort (palette : Palette) (publicOnly : Bool) (p : Project) (out : Printout) :
    Nat × Printout :=
  let (count, out) := p.files.foldl (printSection palette publicOnly) (0, out)
  (count, if count = 0 then out.print "No features found" else out)

/-- The features of all files are put together before any is left out. -/
def printJson (publicOnly : Bool) (p : Project) (out : Printout) : Nat × Printout :=
  let shown := if publicOnly then Feature.publicOnly p.features else p.features
  (shown.length, out.print (Json.array (Feature.toJsons shown)).render)

/-- Print the report on a project. It answers with the number of features at the top. -/
def printReport (palette : Palette) (mode : Report.Mode) (publicOnly : Bool) (p : Project)
    (out : Printout) : Nat × Printout :=
  match mode with
  | .short => p.printShort palette publicOnly out
  | .json => p.printJson publicOnly out

end Project

end RubyOutline
