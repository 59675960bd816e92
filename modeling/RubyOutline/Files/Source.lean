import RubyOutline.Files.FileSystem
import RubyOutline.ParseTree.Lowering
import RubyOutline.Text.Newline

namespace RubyOutline

/-- A parser, as the tree of each text or the reason why there is none. -/
abbrev Parser := String → Except String ParseTree

inductive SourceError where
  | unreadable (error : FileError)
  | undecodable (error : Utf8.DecodeError)
  | unparsable (reason : String)
  | onlyComment

def SourceError.message : SourceError → String
  | .unreadable e => e.message
  | .undecodable e => e.message
  | .unparsable reason => reason
  | .onlyComment => ""

/-- The text of a file, with its line ends unified. -/
def FileSystem.readText (fs : FileSystem) (path : String) : Except SourceError String := do
  let bytes ← (fs.read path).mapError .unreadable
  let text ← (Utf8.decode bytes).mapError .undecodable
  return unifyNewlines text

namespace Source

def tree (parser : Parser) (text : String) : Except SourceError ParseTree :=
  (parser text).mapError .unparsable

def node (text : String) (t : ParseTree) : Except SourceError Node :=
  match t.toNode? text with
  | some n => .ok n
  | none => .error .onlyComment

/-- The program tree of a text. -/
def parse (parser : Parser) (text : String) : Except SourceError Node := do
  node text (← tree parser text)

/-- The text of a file and its program tree. -/
def load (fs : FileSystem) (parser : Parser) (path : String) :
    Except SourceError (String × Node) := do
  let text ← fs.readText path
  return (text, ← parse parser text)

end Source

end RubyOutline
