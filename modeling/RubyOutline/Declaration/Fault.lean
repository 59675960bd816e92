import RubyOutline.Tree.Node

namespace RubyOutline

inductive Fault where
  | missingChild (node : Node) (position : Nat)
  | missingName (node : Node) (position : Nat)
  | missingConstant (node : Node)
  | notConstant (found : Option Node)
  | unsupportedReceiver (node : Node) (receiver : Child)
  | rootNotNode (root : Child)
  | nestedTooDeep (node : Node)
  | untraversable (root : Node)
  | chainTooLong

/-- The part of a file that is lost to a fault. -/
inductive Reach where
  | declaration
  | subtree
  | file
  deriving DecidableEq, Repr

def Literal.typeName : Literal → String
  | .integer _ => "int"
  | .boolean _ => "bool"
  | .decimal _ _ => "float"
  | .list _ => "list"

def Child.typeName : Child → String
  | .absent => "NoneType"
  | .name _ => "str"
  | .node _ => "Node"
  | .literal value => value.typeName

/-- A node shows as its kind, and anything else as the type of the value. -/
def Child.shape : Child → String
  | .node n => n.kind.label
  | child => child.typeName

namespace Fault

/-- Deepest nesting of nodes that is searched for declarations. -/
def maxDepth : Nat := 200

def node? : Fault → Option Node
  | .missingChild n _ | .missingName n _ | .missingConstant n | .unsupportedReceiver n _
  | .nestedTooDeep n | .untraversable n => some n
  | .notConstant found => found
  | .rootNotNode _ | .chainTooLong => none

def reach : Fault → Reach
  | .unsupportedReceiver _ _ => .declaration
  | .chainTooLong => .file
  | _ => .subtree

def message : Fault → String
  | .missingChild n position =>
    n.kind.label ++ " node has no child at position " ++ toString position
  | .missingName n position => n.kind.label ++ " node has no name at position " ++ toString position
  | .missingConstant n => n.kind.label ++ " node has no name constant"
  | .notConstant _ => "expected a constant"
  | .unsupportedReceiver _ receiver => "unrecognized method receiver: " ++ receiver.shape
  | .rootNotNode root => "root is not a syntax node: " ++ root.typeName
  | .nestedTooDeep _ => "syntax tree nested deeper than " ++ toString maxDepth ++ " levels"
  | .untraversable _ => "syntax tree nested too deeply to traverse"
  | .chainTooLong => "maximum recursion depth exceeded"

end Fault

end RubyOutline
