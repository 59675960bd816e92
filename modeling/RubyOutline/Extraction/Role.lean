import RubyOutline.Tree.Node

namespace RubyOutline

/-- The part that a kind of node plays in the search for declarations. -/
inductive Role where
  | classLike
  | instanceMethod
  | staticMethod
  | transparent
  deriving DecidableEq, Repr

def Role.label : Role → String
  | .classLike => "class_like"
  | .instanceMethod => "instance_method"
  | .staticMethod => "static_method"
  | .transparent => "ignore"

/-- A singleton class is transparent: it shapes the methods inside it and is no feature itself. -/
def Kind.role : Kind → Role
  | .classDef | .moduleDef => .classLike
  | .methodDef => .instanceMethod
  | .singletonDef => .staticMethod
  | .singletonClass | .call | .constant | .selfRef | .group | .beginBlock | .other => .transparent

theorem Kind.role_eq_classLike_iff (kind : Kind) :
    kind.role = .classLike ↔ kind.isType = true := by
  cases kind <;> decide

end RubyOutline
