import RubyOutline.Tree.Node

namespace RubyOutline

/-- The constructs of the grammar that have a form of their own in a program tree, and the plain
ones, which are groups, begin blocks or other nodes with their named children inside. -/
inductive Form where
  | comment
  | classDef
  | moduleDef
  | singletonClass
  | methodDef
  | singletonDef
  | constant
  | scopedConstant
  | selfRef
  | call
  | identifier
  | plain
  deriving DecidableEq, Repr

namespace Form

def ofType (type : String) : Form :=
  if type = "comment" then .comment
  else if type = "class" then .classDef
  else if type = "module" then .moduleDef
  else if type = "singleton_class" then .singletonClass
  else if type = "method" then .methodDef
  else if type = "singleton_method" then .singletonDef
  else if type = "constant" then .constant
  else if type = "scope_resolution" then .scopedConstant
  else if type = "self" then .selfRef
  else if type = "call" then .call
  else if type = "identifier" then .identifier
  else .plain

/-- The kind of node that a construct without a form of its own becomes. -/
def plainKind (type : String) : Kind :=
  if ["program", "body_statement", "parenthesized_statements"].contains type then .group
  else if type = "begin" then .beginBlock
  else .other

/-- Whether the named children of a construct are statements. -/
def holdsStatements (type : String) : Bool :=
  ["program", "body_statement", "parenthesized_statements", "begin", "then", "else", "ensure", "do",
    "block_body"].contains type

end Form

end RubyOutline
