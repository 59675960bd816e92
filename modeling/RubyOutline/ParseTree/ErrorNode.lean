import RubyOutline.ParseTree.Basic
import RubyOutline.Text.Excerpt

namespace RubyOutline

/-- A place of a parse tree that the grammar could not read. -/
structure ErrorNode where
  tree : ParseTree
  depth : Int
  text : String

namespace ErrorNode

/-- Depth below which the tree is not searched. -/
def defaultLimit : Int := 50

/-- Characters of an unreadable place that are shown. -/
def excerptLength : Nat := 100

mutual

def find (source : List UInt8) (limit depth : Int) : ParseTree → List ErrorNode
  | t@⟨_, _, _, _, _, _, _, _, children⟩ =>
    if limit < depth then []
    else
      (if t.isError then [⟨t, depth, excerpt excerptLength (t.text source)⟩] else []) ++
        findAll source limit (depth + 1) children

def findAll (source : List UInt8) (limit depth : Int) : List ParseTree → List ErrorNode
  | [] => []
  | t :: rest => find source limit depth t ++ findAll source limit depth rest

end

/-- All error nodes of a file that the search reaches. -/
def ofFile (source : String) (t : ParseTree) : List ErrorNode :=
  find (Utf8.encode source) defaultLimit 0 t

end ErrorNode

end RubyOutline
