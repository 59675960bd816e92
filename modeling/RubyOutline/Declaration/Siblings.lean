import RubyOutline.Declaration.Name
import RubyOutline.Feature.Visibility

namespace RubyOutline

/-- Nodes among the children before the first occurrence of `n`; none when `n` does not occur. -/
def nodesBefore (n : Node) : List Child → Option (List Node)
  | [] => none
  | .node m :: rest =>
    if m.identity = n.identity then some [] else (nodesBefore n rest).map (m :: ·)
  | _ :: rest => nodesBefore n rest

def precedingSiblings (n : Node) : Scope → List Node
  | [] => []
  | parent :: _ => (nodesBefore n parent.children).getD []

/-- The visibility that a statement switches to, if it consists of that word alone. -/
def Node.bareVisibility? (n : Node) : Option Visibility :=
  match n.kind, n.children with
  | .call, [.absent, .name selector] => Visibility.ofLabel? selector
  | _, _ => none

/-- The nearest visibility statement before a method decides; without one it is public. -/
def Node.visibilityIn (n : Node) (scope : Scope) : Visibility :=
  ((precedingSiblings n scope).reverse.findSome? Node.bareVisibility?).getD .pub

/-- The parent is a singleton class, or a grouping whose parent is one. -/
def Scope.isSingleton : Scope → Bool
  | [] => false
  | [parent] => parent.kind == .singletonClass
  | parent :: grandparent :: _ =>
    parent.kind == .singletonClass ||
      (parent.kind == .group && grandparent.kind == .singletonClass)

end RubyOutline
