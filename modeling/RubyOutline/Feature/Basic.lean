import RubyOutline.Feature.Visibility
import RubyOutline.Json.Value

namespace RubyOutline

structure Method where
  name : String
  location : String
  className : String := ""
  static : Bool := false
  visibility : Visibility := .pub
  deriving DecidableEq, Repr

/-- A class or module holds the features that are declared inside it, in the order of their
declarations. -/
inductive Feature where
  | classLike (name location : String) (children : List Feature)
  | method (method : Method)

namespace Feature

def name : Feature → String
  | .classLike name _ _ => name
  | .method m => m.name

def location : Feature → String
  | .classLike _ location _ => location
  | .method m => m.location

/-- Classes and modules are always public. -/
def visibility : Feature → Visibility
  | .classLike _ _ _ => .pub
  | .method m => m.visibility

mutual

def publicPart : Feature → List Feature
  | .classLike name location children => [.classLike name location (publicOnly children)]
  | .method m => if m.visibility = .pub then [.method m] else []

/-- Features without the protected and private methods; a class stays when it loses them all. -/
def publicOnly : List Feature → List Feature
  | [] => []
  | f :: fs => publicPart f ++ publicOnly fs

end

theorem publicOnly_append (fs gs : List Feature) :
    publicOnly (fs ++ gs) = publicOnly fs ++ publicOnly gs := by
  induction fs with
  | nil => rfl
  | cons f fs ih => simp [publicOnly, ih]

mutual

def ownMethods : Feature → List Method
  | .classLike _ _ children => methods children
  | .method m => [m]

/-- All methods at any depth, in order. -/
def methods : List Feature → List Method
  | [] => []
  | f :: fs => ownMethods f ++ methods fs

end

theorem methods_append (fs gs : List Feature) :
    methods (fs ++ gs) = methods fs ++ methods gs := by
  induction fs with
  | nil => rfl
  | cons f fs ih => simp [methods, ih]

end Feature

/-- A visibility is written only when it is not public. -/
def Method.toJson (m : Method) : Json :=
  .object ([("name", .string m.name), ("location", .string m.location),
    ("type", .string "function"), ("class_name", .string m.className),
    ("static", .bool m.static)] ++
    if m.visibility = .pub then [] else [("visibility", .string m.visibility.label)])

mutual

def Feature.toJson : Feature → Json
  | .classLike name location children =>
    .object [("name", .string name), ("location", .string location),
      ("children", .array (Feature.toJsons children)), ("type", .string "class")]
  | .method m => m.toJson

def Feature.toJsons : List Feature → List Json
  | [] => []
  | f :: fs => Feature.toJson f :: Feature.toJsons fs

end

end RubyOutline
