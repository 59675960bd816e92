import RubyOutline.CommandLine.Token

namespace RubyOutline

/-- Switches that take no value, and at most one behind them that takes one. That one has its value
in the same argument, or else it wants the next. -/
structure Bundle where
  flags : List Switch
  valued : Option (Switch × Option String)
  deriving DecidableEq, Repr

namespace Bundle

/-- A switch to which nothing is attached. -/
def single (s : Switch) : Bundle :=
  if s.takesValue then ⟨[], some (s, none)⟩ else ⟨[s], none⟩

def withFlag (s : Switch) (b : Bundle) : Bundle := { b with flags := s :: b.flags }

/-- A short switch and the text attached to it, which is its value or has letters of switches.
Where no letter of a switch comes next, all the text that is left is too much. -/
def ofLetters (s : Switch) : List Char → Except UsageError Bundle
  | [] => if s.takesValue then .ok ⟨[], some (s, some "")⟩ else .error (.ignoredValue s "")
  | letter :: rest =>
    if s.takesValue then .ok ⟨[], some (s, some (String.ofList (letter :: rest)))⟩
    else
      match Switch.ofSpelling? (String.ofList ['-', letter]) with
      | none => .error (.ignoredValue s (String.ofList (letter :: rest)))
      | some next =>
        if rest.isEmpty then .ok ((single next).withFlag s)
        else (ofLetters next rest).map (withFlag s)

/-- What a switch brings with the text attached to it. Behind a long switch there are no letters. -/
def ofSwitch (s : Switch) (long : Bool) : Option String → Except UsageError Bundle
  | none => .ok (single s)
  | some text =>
    if long && !s.takesValue then .error (.ignoredValue s text) else ofLetters s text.toList

end Bundle

end RubyOutline
