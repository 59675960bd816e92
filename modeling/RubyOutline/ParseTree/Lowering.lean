import RubyOutline.ParseTree.Basic
import RubyOutline.ParseTree.Form

namespace RubyOutline.ParseTree

/-- A group of statements that has no parse tree of its own stands after all children. -/
def bodyIdentity (identity : Identity) (children : List ParseTree) : Identity :=
  children.length :: identity

mutual

/-- The node of a parse tree, or nothing for a comment. `statement` says that it stands where a
statement does, and `identity` is its path from the root, innermost step first. Nesting has no limit
here: that a conversion gives up some hundred levels down is left out. -/
def lower (source : List UInt8) (statement : Bool) (identity : Identity) :
    ParseTree → Option Node
  | t@⟨type, _, _, _, column, _, _, _, children⟩ =>
    let field (name : String) : Child :=
      Child.ofNode? (lowerField source name false identity 0 children)
    let fieldText (name : String) : Child :=
      Child.ofName? ((children.find? (·.fills name)).map (·.text source))
    let body (name : String) : Child := Child.ofNode? <|
      if children.any (·.fills name) then lowerField source name true identity 0 children
      else
        (children.find? (·.isStatement)).map fun first =>
          ⟨bodyIdentity identity children, .group,
            lowerWhere source isStatement true identity 0 children, first.line, first.column⟩
    let node (kind : Kind) (places : List Child) : Option Node :=
      some ⟨identity, kind, places, t.line, column⟩
    match Form.ofType type with
    | .comment => none
    | .classDef => node .classDef [field "name", field "superclass", body "body"]
    | .moduleDef => node .moduleDef [field "name", body "body"]
    | .singletonClass => node .singletonClass [field "value", body "body"]
    | .methodDef => node .methodDef [fieldText "name", field "parameters", body "body"]
    | .singletonDef =>
      node .singletonDef [field "object", fieldText "name", field "parameters", body "body"]
    | .constant => node .constant [.absent, .name (t.text source)]
    | .scopedConstant => node .constant [field "scope", fieldText "name"]
    | .selfRef => node .selfRef []
    | .call =>
      let selector := ((children.find? (·.fills "method")).map (·.text source)).getD "call"
      let block := (lowerField source "block" false identity 0 children).toList.map Child.node
      node .call (field "receiver" :: .name selector ::
        (lowerArguments source identity 0 children ++ block))
    | .identifier =>
      if statement then node .call [.absent, .name (t.text source)]
      else node .other (lowerWhere source (·.named) false identity 0 children)
    | .plain =>
      node (Form.plainKind type)
        (lowerWhere source (·.named) (Form.holdsStatements type) identity 0 children)

/-- The first of the children that fills a field; `index` is the place of the first child. -/
def lowerField (source : List UInt8) (name : String) (statement : Bool) (identity : Identity) :
    (index : Nat) → List ParseTree → Option Node
  | _, [] => none
  | index, t :: rest =>
    if t.fills name then lower source statement (index :: identity) t
    else lowerField source name statement identity (index + 1) rest

def lowerWhere (source : List UInt8) (keep : ParseTree → Bool) (statement : Bool)
    (identity : Identity) : (index : Nat) → List ParseTree → List Child
  | _, [] => []
  | index, t :: rest =>
    let nodes := if keep t then (lower source statement (index :: identity) t).toList else []
    nodes.map Child.node ++ lowerWhere source keep statement identity (index + 1) rest

/-- The named children of the child that holds the arguments. -/
def lowerArguments (source : List UInt8) (identity : Identity) :
    (index : Nat) → List ParseTree → List Child
  | _, [] => []
  | index, t@⟨_, _, _, _, _, _, _, _, children⟩ :: rest =>
    if t.fills "arguments" then lowerWhere source (·.named) false (index :: identity) 0 children
    else lowerArguments source identity (index + 1) rest

end

/-- The program tree of a whole file. Only a file that is nothing but a comment has none, since no
nesting is too deep for `lower`. -/
def toNode? (source : String) (t : ParseTree) : Option Node := lower (Utf8.encode source) true [] t

end RubyOutline.ParseTree
