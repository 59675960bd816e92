import RubyOutline.Json.Value
import RubyOutline.Name.Qualified

namespace RubyOutline

inductive Kind where
  | classDef
  | moduleDef
  | singletonClass
  | methodDef
  | singletonDef
  | call
  | constant
  | selfRef
  | group
  | beginBlock
  | other
  deriving DecidableEq, Repr

namespace Kind

def label : Kind → String
  | .classDef => "class"
  | .moduleDef => "module"
  | .singletonClass => "sclass"
  | .methodDef => "def"
  | .singletonDef => "defs"
  | .call => "send"
  | .constant => "const"
  | .selfRef => "self"
  | .group => "begin"
  | .beginBlock => "kwbegin"
  | .other => "other"

def all : List Kind :=
  [.classDef, .moduleDef, .singletonClass, .methodDef, .singletonDef, .call, .constant, .selfRef,
    .group, .beginBlock, .other]

def ofLabel? (text : String) : Option Kind := all.find? (·.label == text)

theorem ofLabel?_label (kind : Kind) : ofLabel? kind.label = some kind := by
  cases kind <;> decide

/-- Classes and modules, whose names qualify what stands inside them. -/
def isType : Kind → Bool
  | .classDef | .moduleDef => true
  | _ => false

end Kind

/-- Two nodes are the same node when their identities agree, however alike they look otherwise. -/
abbrev Identity := List Nat

/-- A plain value in a place where a node or a name is expected. -/
inductive Literal where
  | integer (value : Int)
  | boolean (value : Bool)
  | decimal (mantissa : Int) (places : Nat)
  | list (items : List Json)

mutual

/-- Children stand in fixed places: a class has its name, its superclass and its body, a method its
name, its parameters and its body. Lines count from one and columns from zero. -/
structure Node where
  identity : Identity
  kind : Kind
  children : List Child := []
  line : Int := 1
  column : Int := 0

/-- A place may be empty or hold a name instead of a node. -/
inductive Child where
  | absent
  | name (text : String)
  | node (node : Node)
  | literal (value : Literal)

end

namespace Child

def node? : Child → Option Node
  | .node n => some n
  | _ => none

def name? : Child → Option String
  | .name text => some text
  | _ => none

/-- An optional node, as it stands in a place. -/
def ofNode? : Option Node → Child
  | none => .absent
  | some n => .node n

def ofName? : Option String → Child
  | none => .absent
  | some text => .name text

end Child

namespace Node

def childNodes (n : Node) : List Node := n.children.filterMap Child.node?

def names (n : Node) : List String := n.children.filterMap Child.name?

def describe (n : Node) : String := "Node(" ++ n.kind.label ++ ", line=" ++ toString n.line ++ ")"

def constantNode (identity : Identity) (name : String) (scope : Child) (line : Int) : Node :=
  ⟨identity, .constant, [scope, .name name], line, 0⟩

/-- The constants of a path from the outside in, each the scope of the next. -/
def extendConstant (base : Identity) (line : Int) : Nat → Node → List String → Node
  | _, scope, [] => scope
  | index, scope, name :: names =>
    extendConstant base line (index + 1)
      (constantNode (index :: base) name (.node scope) line) names

/-- The constant that a qualified name stands for. -/
def constantPath (base : Identity) (name : String) (line : Int) : Node :=
  match Qualified.split name with
  | [] => constantNode (0 :: base) name .absent line
  | outer :: inner =>
    extendConstant base line 1 (constantNode (0 :: base) outer .absent line) inner

end Node

end RubyOutline
