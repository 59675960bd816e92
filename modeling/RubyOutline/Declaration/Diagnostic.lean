import RubyOutline.Declaration.Fault
import RubyOutline.Name.Location

namespace RubyOutline

inductive DiagnosticKind where
  | extraction
  | malformed
  | unsupportedReceiver
  deriving DecidableEq, Repr

def DiagnosticKind.label : DiagnosticKind → String
  | .extraction => "ExtractionError"
  | .malformed => "MalformedNode"
  | .unsupportedReceiver => "UnsupportedReceiverKind"

def Fault.kind : Fault → DiagnosticKind
  | .unsupportedReceiver _ _ => .unsupportedReceiver
  | _ => .malformed

/-- A fault as it is reported, at a line of a file. -/
structure Diagnostic where
  kind : DiagnosticKind
  message : String
  location : String
  deriving DecidableEq, Repr

namespace Diagnostic

/-- What concerns no node stands at line zero. -/
def located (kind : DiagnosticKind) (message path : String) (node : Option Node) : Diagnostic :=
  ⟨kind, message, Location.render path ((node.map Node.line).getD 0)⟩

def ofFault (path : String) (fault : Fault) : Diagnostic :=
  located fault.kind fault.message path fault.node?

def render (d : Diagnostic) : String := d.location ++ ": " ++ d.kind.label ++ ": " ++ d.message

end Diagnostic

end RubyOutline
