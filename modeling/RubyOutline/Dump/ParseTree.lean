import RubyOutline.ParseTree.Basic
import RubyOutline.Text.Excerpt
import RubyOutline.Text.Quoted

namespace RubyOutline.ParseTree

/-- Depth below which nodes are not shown. -/
def dumpLimit : Int := 10

/-- Characters of a node's text that are shown. -/
def dumpExcerpt : Nat := 60

/-- A line feed shows as a backslash and an n. -/
def flattenLines (text : String) : String :=
  String.ofList (text.toList.flatMap fun c => if c = '\n' then ['\\', 'n'] else [c])

/-- The type, the span of bytes and the head of the text of a node. -/
def dumpLine (source : List UInt8) (depth : Nat) (t : ParseTree) : String :=
  indent depth ++ t.type ++ " [" ++ toString t.start ++ ":" ++ toString t.stop ++ "] " ++
    quoted (flattenLines (excerpt dumpExcerpt (t.text source)))

mutual

def dump (source : List UInt8) (limit : Int) (depth : Nat) : ParseTree → List String
  | t@⟨_, _, _, _, _, _, _, _, children⟩ =>
    if limit < depth then []
    else dumpLine source depth t :: dumpAll source limit (depth + 1) children

def dumpAll (source : List UInt8) (limit : Int) (depth : Nat) : List ParseTree → List String
  | [] => []
  | t :: rest => dump source limit depth t ++ dumpAll source limit depth rest

end

end RubyOutline.ParseTree
