import RubyOutline.Text.Excerpt
import RubyOutline.Text.Quoted
import RubyOutline.Tree.Node

namespace RubyOutline.Node

/-- Depth below which nodes are not shown. -/
def dumpLimit : Int := 20

/-- The kind, the names and the line of a node. -/
def dumpLine (depth : Nat) (n : Node) : String :=
  indent depth ++ "(" ++ " ".intercalate (n.kind.label :: n.names.map quoted) ++ ") :" ++
    toString n.line

mutual

def dump (limit : Int) (depth : Nat) : Node → List String
  | n@⟨_, _, children, _, _⟩ =>
    if limit < depth then [] else dumpLine depth n :: dumpAll limit (depth + 1) children

def dumpAll (limit : Int) (depth : Nat) : List Child → List String
  | [] => []
  | .node n :: rest => dump limit depth n ++ dumpAll limit depth rest
  | _ :: rest => dumpAll limit depth rest

end

/-- Why a tree is not shown. -/
inductive DumpFault where
  | nodeTooDeep
  | nameTooDeep
  deriving DecidableEq, Repr

def DumpFault.message : DumpFault → String
  | .nodeTooDeep => "maximum recursion depth exceeded"
  | .nameTooDeep => "maximum recursion depth exceeded while getting the repr of an object"

/-- Depth from which on nodes cannot be shown; names cannot from one level above it. -/
def maxShownDepth : Nat := 990

/-- What is wrong with a node at a depth. -/
def faultAt? (depth : Nat) (n : Node) : Option DumpFault :=
  if maxShownDepth ≤ depth then some .nodeTooDeep
  else if maxShownDepth ≤ depth + 1 ∧ n.names ≠ [] then some .nameTooDeep
  else none

mutual

/-- The first fault of the nodes that are to be shown, in the order of their lines. -/
def dumpFault? (limit : Int) (depth : Nat) : Node → Option DumpFault
  | n@⟨_, _, children, _, _⟩ =>
    if limit < depth then none
    else (faultAt? depth n).or (dumpFaultOf? limit (depth + 1) children)

def dumpFaultOf? (limit : Int) (depth : Nat) : List Child → Option DumpFault
  | [] => none
  | .node n :: rest => (dumpFault? limit depth n).or (dumpFaultOf? limit depth rest)
  | _ :: rest => dumpFaultOf? limit depth rest

end

/-- The lines of a tree, down to a depth; with a fault among them none is shown. -/
def shownLines (limit : Int) (n : Node) : Except DumpFault (List String) :=
  match dumpFault? limit 0 n with
  | some fault => .error fault
  | none => .ok (dump limit 0 n)

end RubyOutline.Node
