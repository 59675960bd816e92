import RubyOutline.CommandLine.UsageError
import RubyOutline.Text.Digit

namespace RubyOutline

/-- A switch is long or not by the dashes that it is written with; what is attached to it stands
right behind it or behind an equals sign. -/
inductive Token where
  | plain (text : String)
  | separator
  | switch (name : Switch) (long : Bool) (attached : Option String)
  | unknown (text : String)
  deriving DecidableEq, Repr

namespace Token

/-- The text before the first equals sign, and the text after it if there is one. -/
def splitEquals (text : List Char) : List Char × Option (List Char) :=
  (text.takeWhile (· != '='),
    match text.dropWhile (· != '=') with
    | [] => none
    | _ :: value => some value)

/-- A dash and digits, with a point before at least one of them or none; a line feed may end it. -/
def isNegativeNumber (text : List Char) : Bool :=
  match text with
  | '-' :: rest =>
    let body := if rest.getLast? = some '\n' then rest.dropLast else rest
    match body.dropWhile isDecimalDigit with
    | [] => !body.isEmpty
    | '.' :: places => !places.isEmpty && places.all isDecimalDigit
    | _ => false
  | _ => false

/-- The switches that a long argument can stand for, where a value may follow an equals sign. -/
def longCandidates (text : List Char) : List (String × Switch × Option String) :=
  let (start, value) := splitEquals text
  (Switch.table.filter fun entry => start.isPrefixOf entry.1.toList).map fun (spelling, s) =>
    (spelling, s, value.map String.ofList)

/-- The switches that a short argument can stand for: one of a single letter with more right
behind it, or one that is spelt out no further. -/
def shortCandidates (text : List Char) : List (String × Switch × Option String) :=
  Switch.table.filterMap fun (spelling, s) =>
    if spelling.toList = text.take 2 then some (spelling, s, some (String.ofList (text.drop 2)))
    else if text.isPrefixOf spelling.toList then some (spelling, s, none)
    else none

def ofCandidates (argument : String) (long : Bool) :
    List (String × Switch × Option String) → Except UsageError Token
  | [] =>
    if isNegativeNumber argument.toList || argument.contains ' ' then .ok (.plain argument)
    else .ok (.unknown argument)
  | [(_, s, attached)] => .ok (.switch s long attached)
  | several => .error (.ambiguous argument (several.map (·.1)))

/-- Read one argument that does not come after a double dash. One that starts with a dash is a
switch, which may be shortened as long as it stays the only one that fits; a negative number or an
argument with a space in it is plain. -/
def read (argument : String) : Except UsageError Token :=
  match argument.toList with
  | '-' :: second :: rest =>
    let text := '-' :: second :: rest
    let long := second == '-'
    match Switch.ofSpelling? argument with
    | some s => .ok (.switch s long none)
    | none =>
      let (start, value) := splitEquals text
      match Switch.ofSpelling? (String.ofList start), value with
      | some s, some value => .ok (.switch s long (some (String.ofList value)))
      | _, _ =>
        ofCandidates argument long (if long then longCandidates text else shortCandidates text)
  | _ => .ok (.plain argument)

/-- Read all arguments; after a double dash every argument is plain. -/
def readAll : List String → Except UsageError (List Token)
  | [] => .ok []
  | argument :: rest =>
    if argument = "--" then .ok (.separator :: rest.map .plain)
    else do
      let token ← read argument
      return token :: (← readAll rest)

end Token

end RubyOutline
