import RubyOutline.CommandLine.Switch
import RubyOutline.Report.Basic
import RubyOutline.Text.Quoted

namespace RubyOutline

inductive UsageError where
  | ambiguous (argument : String) (spellings : List String)
  | expectedValue (name : Switch)
  | ignoredValue (name : Switch) (value : String)
  | invalidChoice (name : Switch) (value : String)
  | missingInput
  | unrecognized (arguments : List String)
  deriving DecidableEq, Repr

namespace UsageError

private def about (s : Switch) (text : String) : String :=
  "argument " ++ s.display ++ ": " ++ text

def message : UsageError → String
  | .ambiguous argument spellings =>
    "ambiguous option: " ++ argument ++ " could match " ++ ", ".intercalate spellings
  | .expectedValue s => about s "expected one argument"
  | .ignoredValue s value => about s ("ignored explicit argument " ++ quoted value)
  | .invalidChoice s value =>
    about s ("invalid choice: " ++ quoted value ++ " (choose from " ++
      ", ".intercalate (Report.Mode.all.map fun mode => quoted mode.label) ++ ")")
  | .missingInput => "the following arguments are required: input_path"
  | .unrecognized arguments => "unrecognized arguments: " ++ " ".intercalate arguments

end UsageError

end RubyOutline
