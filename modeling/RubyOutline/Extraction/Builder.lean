import RubyOutline.Extraction.Basic

namespace RubyOutline

/-- A visit finds features and records diagnostics; one that is broken off finds nothing, and what
it has recorded stays. -/
abbrev Visit := OptionT (StateM (List Diagnostic))

namespace Visit

def record (path : String) (fault : Fault) : Visit (List Feature) := do
  modify (· ++ [Diagnostic.ofFault path fault])
  return []

/-- Record a fault, given the visit of the children of the node that has it. -/
def ofFault (path : String) (fault : Fault) (children : Visit (List Feature)) :
    Visit (List Feature) :=
  match fault.reach with
  | .declaration => do
    let _ ← record path fault
    children
  | .subtree => record path fault
  | .file => failure

end Visit

mutual

def Node.visit (path : String) (scope : Scope) : Node → Visit (List Feature)
  | n@⟨_, kind, children, line, _⟩ =>
    if Fault.maxDepth ≤ scope.length then Visit.record path (.nestedTooDeep n)
    else
      match kind.role with
      | .transparent => Node.visitAll path (n :: scope) children
      | .classLike =>
        match n.typeName with
        | .error fault => Visit.ofFault path fault (pure [])
        | .ok name => do
          let found ← Node.visitAll path (n :: scope) children
          return [.classLike name (Location.render path line) found]
      | .instanceMethod | .staticMethod =>
        match n.method path scope with
        | .error fault => Visit.ofFault path fault (Node.visitAll path (n :: scope) children)
        | .ok method => do
          let found ← Node.visitAll path (n :: scope) children
          return .method method :: found

def Node.visitAll (path : String) (scope : Scope) : List Child → Visit (List Feature)
  | [] => return []
  | .node n :: rest => do
    let found ← n.visit path scope
    return found ++ (← Node.visitAll path scope rest)
  | _ :: rest => Node.visitAll path scope rest

end

/-- A builder for one file, with what it has recorded since its latest build began. -/
structure Builder where
  path : String
  recorded : List Diagnostic := []

namespace Builder

def record (b : Builder) (fault : Fault) : Builder :=
  { b with recorded := b.recorded ++ [Diagnostic.ofFault b.path fault] }

/-- The extraction that a builder answers with: the features found and all that is recorded. -/
def answer (b : Builder) (features : List Feature) : Extraction × Builder :=
  (⟨features, b.recorded⟩, b)

/-- A build begins with nothing recorded. -/
def build (b : Builder) : Child → Extraction × Builder
  | .node root =>
    let b := { b with recorded := [] }
    match (root.visit b.path []).run.run b.recorded with
    | (some features, recorded) => answer { b with recorded } features
    | (none, recorded) => answer (record { b with recorded } (.untraversable root)) []
  | root =>
    let b := { b with recorded := [] }
    answer (b.record (.rootNotNode root)) []

/-- The extractions of several trees, one after the other by the same builder. -/
def buildAll (b : Builder) : List Child → List Extraction
  | [] => []
  | root :: rest =>
    let (extraction, b) := b.build root
    extraction :: buildAll b rest

end Builder

end RubyOutline
