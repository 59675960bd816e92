import RubyOutline.Declaration.Fault

namespace RubyOutline

/-- The nodes around a place, innermost first. -/
abbrev Scope := List Node

namespace Node

def childAt (n : Node) (position : Nat) : Except Fault Child :=
  match n.children[position]? with
  | none => .error (.missingChild n position)
  | some child => .ok child

/-- A name is a nonempty text. -/
def nameAt (n : Node) (position : Nat) : Except Fault String := do
  match ← n.childAt position with
  | .name text => if text.isEmpty then .error (.missingName n position) else .ok text
  | _ => .error (.missingName n position)

/-- The constant in front of the double colon, where there is one. -/
def constantScope? (n : Node) : Option Node :=
  match n.children.head? with
  | some (.node scope) => if scope.kind = .constant then some scope else none
  | _ => none

/-- Segments of a constant, outermost first, along a chain of at most `links` constants. The name
of each constant is looked at before the constant in front of it. -/
def segmentsWithin : (links : Nat) → Node → Except Fault (List String)
  | 0, _ => .error .chainTooLong
  | links + 1, n =>
    if n.kind = .constant then do
      let name ← n.nameAt 1
      match n.constantScope? with
      | some scope => return (← scope.segmentsWithin links) ++ [name]
      | none => return [name]
    else .error (.notConstant (some n))

end Node

/-- Longest chain of constants that is followed. -/
def maxLinks : Nat := 900

def Node.constantSegments (n : Node) : Except Fault (List String) := n.segmentsWithin maxLinks

def Child.constantSegments : Child → Except Fault (List String)
  | .node n => n.constantSegments
  | _ => .error (.notConstant none)

namespace Node

/-- Segments that a class or module adds to the path of what it encloses. -/
def typeSegments (n : Node) : Except Fault (List String) := do
  match ← n.childAt 0 with
  | .node name => name.constantSegments
  | _ => .error (.missingConstant n)

def lastSegment (segments : List String) : String := segments.getLastD ""

/-- The declared name of a class or module, without the path in front of it. -/
def typeName (n : Node) : Except Fault String := n.typeSegments.map lastSegment

def methodName (n : Node) : Except Fault String :=
  if n.kind = .singletonDef then n.nameAt 1 else n.nameAt 0

end Node

namespace Scope

/-- Segments of the classes and modules around a place, outermost first. -/
def segments : Scope → Except Fault (List String)
  | [] => .ok []
  | n :: outer => do
    let names ← segments outer
    if n.kind.isType then return names ++ (← n.typeSegments) else return names

end Scope

/-- Path of the class that a method belongs to. A method declared on a constant replaces the
innermost segment by the name of that constant. -/
def Node.methodClass (n : Node) (scope : Scope) : Except Fault String := do
  if n.kind = .singletonDef then
    match ← n.childAt 0 with
    | .node receiver =>
      if receiver.kind = .selfRef then return Qualified.join (← Scope.segments scope)
      else if receiver.kind = .constant then
        let names ← Scope.segments scope
        let segments ← receiver.constantSegments
        return Qualified.join (names.dropLast ++ [Node.lastSegment segments])
      else .error (.unsupportedReceiver n (.node receiver))
    | receiver => .error (.unsupportedReceiver n receiver)
  else return Qualified.join (← Scope.segments scope)

end RubyOutline
