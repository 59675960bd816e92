import RubyOutline.Declaration.Diagnostic
import RubyOutline.Declaration.Siblings
import RubyOutline.Extraction.Role
import RubyOutline.Feature.Basic

namespace RubyOutline

/-- A method of a class or module is named first, then placed, then given its visibility. -/
def Node.method (path : String) (scope : Scope) (n : Node) : Except Fault Method := do
  let name ← n.methodName
  let className ← n.methodClass scope
  return {
    name
    location := Location.render path n.line
    className
    static := n.kind.role == .staticMethod || scope.isSingleton
    visibility := n.visibilityIn scope }

/-- What a walk has found. An abandoned walk keeps the diagnostics recorded up to that point. -/
inductive Walk where
  | finished (features : List Feature) (diagnostics : List Diagnostic)
  | abandoned (diagnostics : List Diagnostic)

namespace Walk

def empty : Walk := .finished [] []

/-- Continue a walk; an abandoned one is not continued. -/
def andThen : Walk → Walk → Walk
  | .finished fs ds, .finished gs es => .finished (fs ++ gs) (ds ++ es)
  | .finished _ ds, .abandoned es => .abandoned (ds ++ es)
  | .abandoned ds, _ => .abandoned ds

theorem andThen_empty (w : Walk) : w.andThen .empty = w := by
  cases w <;> simp [andThen, empty]

theorem empty_andThen (w : Walk) : Walk.empty.andThen w = w := by
  cases w <;> simp [andThen, empty]

theorem andThen_assoc (u v w : Walk) : (u.andThen v).andThen w = u.andThen (v.andThen w) := by
  cases u <;> cases v <;> cases w <;> simp [andThen]

/-- Gather what was found inside a class or module into one feature. -/
def within (name location : String) : Walk → Walk
  | .finished fs ds => .finished [.classLike name location fs] ds
  | .abandoned ds => .abandoned ds

/-- Record a fault, given the walk over the children of the node that has it. -/
def ofFault (path : String) (fault : Fault) (children : Walk) : Walk :=
  match fault.reach with
  | .declaration => andThen (.finished [] [Diagnostic.ofFault path fault]) children
  | .subtree => .finished [] [Diagnostic.ofFault path fault]
  | .file => .abandoned []

end Walk

mutual

/-- Depth first, with the nodes around at hand. A method stands beside what is declared in its body,
never around it. -/
def Node.walk (path : String) (scope : Scope) : Node → Walk
  | n@⟨_, kind, children, line, _⟩ =>
    if Fault.maxDepth ≤ scope.length then Walk.ofFault path (.nestedTooDeep n) .empty
    else
      match kind.role with
      | .transparent => Node.walkAll path (n :: scope) children
      | .classLike =>
        match n.typeName with
        | .error fault => Walk.ofFault path fault .empty
        | .ok name =>
          (Node.walkAll path (n :: scope) children).within name (Location.render path line)
      | .instanceMethod | .staticMethod =>
        match n.method path scope with
        | .error fault => Walk.ofFault path fault (Node.walkAll path (n :: scope) children)
        | .ok method =>
          (Walk.finished [.method method] []).andThen (Node.walkAll path (n :: scope) children)

def Node.walkAll (path : String) (scope : Scope) : List Child → Walk
  | [] => .empty
  | .node n :: rest => (n.walk path scope).andThen (Node.walkAll path scope rest)
  | _ :: rest => Node.walkAll path scope rest

end

structure Extraction where
  features : List Feature := []
  diagnostics : List Diagnostic := []

/-- The features of a file. When the walk is abandoned the file has none, and one more diagnostic
says so at the root. -/
def extract (path : String) : Child → Extraction
  | .node root =>
    match root.walk path [] with
    | .finished features diagnostics => ⟨features, diagnostics⟩
    | .abandoned diagnostics =>
      ⟨[], diagnostics ++ [Diagnostic.ofFault path (.untraversable root)]⟩
  | root => ⟨[], [Diagnostic.ofFault path (.rootNotNode root)]⟩

end RubyOutline
