import RubyOutline.Feature.Basic
import RubyOutline.Name.Location
import RubyOutline.Name.Qualified
import RubyOutline.Report.Palette
import RubyOutline.Text.Excerpt

namespace RubyOutline.Outline

/-- An instance method is set off from its class by a hash sign, a static one by a point. -/
def label (m : Method) : String :=
  let owner := if m.className.isEmpty then "" else Qualified.simpleName m.className
  if owner.isEmpty then m.name else owner ++ (if m.static then "." else "#") ++ m.name

def tags (p : Palette) (m : Method) : List String :=
  (if m.static then ["static"] else []) ++
    if m.visibility = .pub then []
    else [p.visibility m.visibility ++ m.visibility.label ++ p.reset]

def tagText (p : Palette) (m : Method) : String :=
  match tags p m with
  | [] => ""
  | ts => " [" ++ ", ".intercalate ts ++ "]"

def lineText (p : Palette) (location : String) : String :=
  " " ++ p.dim ++ ":" ++ Location.lineOf location ++ p.reset

def classLine (p : Palette) (levels : Int) (name location : String) : String :=
  indent levels.toNat ++ p.bold ++ name ++ p.reset ++ lineText p location

def methodLine (p : Palette) (levels : Int) (m : Method) : String :=
  indent levels.toNat ++ p.cyan ++ label m ++ p.reset ++ tagText p m ++ lineText p m.location

mutual

def ofFeature (p : Palette) (levels : Int) : Feature → List String
  | .classLike name location children =>
    classLine p levels name location :: lines p (levels + 1) children
  | .method m => [methodLine p levels m]

/-- The lines of features that stand at the given level; below level one there is no indent. -/
def lines (p : Palette) (levels : Int) : List Feature → List String
  | [] => []
  | f :: fs => ofFeature p levels f ++ lines p levels fs

end

end RubyOutline.Outline
