import RubyOutline.Json.Writer
import RubyOutline.Report.Outline

namespace RubyOutline

/-- Each line is ended by a line feed. -/
def joinLines (lines : List String) : String := String.join (lines.map (· ++ "\n"))

structure Report where
  count : Nat
  text : String

namespace Report

inductive Mode where
  | short
  | json
  deriving DecidableEq, Repr

def Mode.label : Mode → String
  | .short => "short"
  | .json => "json"

def Mode.all : List Mode := [.short, .json]

def Mode.ofLabel? (text : String) : Option Mode := Mode.all.find? (·.label == text)

theorem Mode.ofLabel?_label (mode : Mode) : Mode.ofLabel? mode.label = some mode := by
  cases mode <;> decide

/-- The path of a file and its outline; nothing for a file without features. -/
def sectionLines (p : Palette) (path : String) (features : List Feature) : List String :=
  match features with
  | [] => []
  | fs => (p.bold ++ path ++ p.reset) :: Outline.lines p 1 fs

def short (p : Palette) (files : List (String × List Feature)) : Report :=
  let count := (files.flatMap (·.2)).length
  let lines := files.flatMap fun (path, features) => sectionLines p path features
  ⟨count, joinLines (if count = 0 then ["No features found"] else lines)⟩

def json (features : List Feature) : Report :=
  ⟨features.length, joinLines [(Json.array (Feature.toJsons features)).render]⟩

/-- The report on files in their order. -/
def make (p : Palette) (mode : Mode) (publicOnly : Bool) (files : List (String × List Feature)) :
    Report :=
  let shown := files.map fun (path, features) =>
    (path, if publicOnly then Feature.publicOnly features else features)
  match mode with
  | .short => short p shown
  | .json => json (shown.flatMap (·.2))

end Report

end RubyOutline
