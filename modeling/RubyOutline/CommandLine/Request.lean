import RubyOutline.CommandLine.Bundle

namespace RubyOutline

structure Options where
  inputPath : String
  dumpAst : Bool := false
  checkParser : Bool := false
  mode : Report.Mode := .short
  outputDir : Option String := none
  publicOnly : Bool := false
  strict : Bool := false

/-- A run is without a mode when the last value given for it was a double dash. -/
inductive Request where
  | help
  | run (options : Options)
  | withoutMode

namespace Request

/-- What is known before the last argument is read. -/
structure Draft where
  input : Option String := none
  options : Options := { inputPath := "" }
  mode : Option Report.Mode := some .short
  extras : List String := []

namespace Draft

def withExtras (d : Draft) (arguments : List String) : Draft :=
  { d with extras := d.extras ++ arguments }

/-- The first plain argument is the input path, and any other is too much. -/
def withPlain (d : Draft) (text : String) : Draft :=
  match d.input with
  | none => { d with input := some text }
  | some _ => d.withExtras [text]

def withFlag (d : Draft) : Switch → Draft
  | .dumpAst => { d with options := { d.options with dumpAst := true } }
  | .checkParser => { d with options := { d.options with checkParser := true } }
  | .publicOnly => { d with options := { d.options with publicOnly := true } }
  | .strict => { d with options := { d.options with strict := true } }
  | .help | .output | .outputDir => d

/-- A double dash for a value takes away the value that the switch had. -/
def withValue (d : Draft) (s : Switch) (value : String) : Except UsageError Draft :=
  let given := if value = "--" then none else some value
  match s, given with
  | .output, none => .ok { d with mode := none }
  | .output, some label =>
    match Report.Mode.ofLabel? label with
    | some mode => .ok { d with mode := some mode }
    | none => .error (.invalidChoice s label)
  | .outputDir, outputDir => .ok { d with options := { d.options with outputDir } }
  | _, _ => .ok d

/-- The switches of one argument take effect in their order; `none` where help is asked for. -/
def withBundle (d : Draft) (flags : List Switch) (valued : Option (Switch × String)) :
    Except UsageError (Option Draft) :=
  let flagged := flags.foldl withFlag d
  match flags.contains .help, valued with
  | true, _ => .ok none
  | false, none => .ok (some flagged)
  | false, some (s, value) => (flagged.withValue s value).map some

/-- A missing input path is reported before what fits nowhere. -/
def finish (d : Draft) : Except UsageError Request :=
  match d.input, d.extras with
  | none, _ => .error .missingInput
  | some _, extra :: extras => .error (.unrecognized (extra :: extras))
  | some inputPath, [] =>
    match d.mode with
    | some mode => .ok (.run { d.options with inputPath, mode })
    | none => .ok .withoutMode

end Draft

/-- A double dash next to the input path belongs to it; anywhere else it is too much. -/
def ofTokens (d : Draft) : List Token → Except UsageError Request
  | [] => d.finish
  | .plain text :: .separator :: rest =>
    match d.input with
    | none => ofTokens (d.withPlain text) rest
    | some _ => ofTokens (d.withExtras [text, "--"]) rest
  | .plain text :: rest => ofTokens (d.withPlain text) rest
  | .separator :: .plain text :: rest =>
    match d.input with
    | none => ofTokens (d.withPlain text) rest
    | some _ => ofTokens (d.withExtras ["--", text]) rest
  | .separator :: rest => ofTokens (d.withExtras ["--"]) rest
  | .unknown text :: rest => ofTokens (d.withExtras [text]) rest
  | .switch s long attached :: rest =>
    match Bundle.ofSwitch s long attached with
    | .error e => .error e
    | .ok ⟨flags, some (s, none)⟩ =>
      match rest with
      | .plain value :: rest =>
        match d.withBundle flags (some (s, value)) with
        | .error e => .error e
        | .ok none => .ok .help
        | .ok (some d) => ofTokens d rest
      | _ => .error (.expectedValue s)
    | .ok ⟨flags, some (s, some value)⟩ =>
      match d.withBundle flags (some (s, value)) with
      | .error e => .error e
      | .ok none => .ok .help
      | .ok (some d) => ofTokens d rest
    | .ok ⟨flags, none⟩ =>
      match d.withBundle flags none with
      | .error e => .error e
      | .ok none => .ok .help
      | .ok (some d) => ofTokens d rest

/-- The request of a command line. Arguments take effect from left to right, and the last value of a
switch holds; an argument that could mean two switches is refused before any takes effect. -/
def ofArguments (arguments : List String) : Except UsageError Request := do
  ofTokens {} (← Token.readAll arguments)

end Request

end RubyOutline
