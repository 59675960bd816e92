import RubyOutline.CommandLine.Request
import RubyOutline.CommandLine.Usage
import RubyOutline.Files.Collection
import RubyOutline.Project.Basic
import RubyOutline.Run.Environment
import RubyOutline.Run.ParserCheck
import RubyOutline.Run.TreeDump

namespace RubyOutline.Run

/-- What ends a run before it comes to a status. -/
inductive Crash where
  | files (error : FileError)
  | onlyComment
  | withoutMode

def Crash.message : Crash → String
  | .files e => e.message
  | .onlyComment => ""
  | .withoutMode => "[] is not a valid OutputMode"

inductive Ending where
  | exit (status : Nat)
  | crash (cause : Crash)

structure Outcome where
  stdout : String
  stderr : String
  ending : Ending
  files : FileSystem

/-- The surroundings of a run. -/
structure World where
  files : FileSystem
  parser : Parser
  settings : Settings := {}

namespace World

def palette (w : World) : Palette := if w.settings.colours then .ansi else .plain

/-- How a run ends that has printed the given lines and log. -/
def ending (w : World) (ending : Ending) (lines : List String) (log : List Log.Entry) : Outcome :=
  ⟨joinLines lines, Log.render w.settings.debug log, ending, w.files⟩

end World

/-- The file that a report is saved to. -/
def reportPath (o : Options) (directory : String) : String :=
  let extension := match o.mode with
    | .short => ".txt"
    | .json => ".json"
  Path.join directory ("FEATURES-" ++ Path.lastName o.inputPath ++ extension)

/-- The directory that a report is saved in; an empty name stands for none. -/
def reportDirectory? (o : Options) : Option String := o.outputDir.filter fun name => !name.isEmpty

/-- The files with the report saved, and the log of it. -/
def save (fs : FileSystem) (o : Options) (text : String) :
    FileSystem × Except FileError (List Log.Entry) :=
  match reportDirectory? o with
  | none => (fs, .ok [])
  | some directory =>
    match fs.ensureDirectories directory with
    | (fs, some e) => (fs, .error e)
    | (fs, none) =>
      let path := reportPath o directory
      match fs.write path (Utf8.encode text) with
      | .error e => (fs, .error e)
      | .ok fs => (fs, .ok [Log.info ("Writing results to: " ++ path)])

/-- The status of a run and the complaint that goes with it. -/
def verdict (o : Options) (p : Project) : Nat × List Log.Entry :=
  if !p.failedFiles.isEmpty then
    (1, [Log.error (toString p.failedFiles.length ++ " file(s) could not be processed")])
  else if o.strict && !p.diagnostics.isEmpty then
    (1, [Log.error (toString p.diagnostics.length ++ " declaration(s) could not be extracted")])
  else (0, [])

def openingLog (paths : List String) : List Log.Entry :=
  (if 1 < paths.length then
    [Log.info ("Extracting features from " ++ toString paths.length ++ " files")]
  else []) ++ [Log.debug "Extracting feature trees..."]

/-- Extract and report the features of the collected files, after what the dump has shown. -/
def extractFiles (w : World) (o : Options) (paths : List String) (dump : TreeDump) : Outcome :=
  let project := Project.ofPaths paths
  let log := dump.log ++ openingLog paths ++ project.runLog w.files w.parser
  match project.refusal? with
  | some e => w.ending (.crash (.files e)) dump.lines log
  | none =>
    let project := project.run w.files w.parser
    let report := project.report w.palette o.mode o.publicOnly
    match save w.files o report.text with
    | (files, .error e) => { w with files }.ending (.crash (.files e)) dump.lines log
    | (files, .ok saved) =>
      let (status, complaint) := verdict o project
      ⟨joinLines dump.lines ++ report.text,
        Log.render w.settings.debug (log ++ saved ++ complaint), .exit status, files⟩

def withOptions (w : World) (o : Options) : Outcome :=
  match Collection.collect w.files o.inputPath with
  | .error e => w.ending (.crash (.files e)) [] []
  | .ok [] =>
    w.ending (.exit 1) [] [Log.error ("No source files found at: " ++ o.inputPath)]
  | .ok paths =>
    if o.checkParser then
      let verdict := ParserCheck.check w.files w.parser paths
      w.ending (.exit (if verdict.passed then 0 else 1)) verdict.lines verdict.log
    else
      let dump := if o.dumpAst then TreeDump.ofFiles w.files w.parser paths else {}
      if dump.ended then w.ending (.crash .onlyComment) dump.lines dump.log
      else extractFiles w o paths dump

/-- Run the command with the given arguments. -/
def command (w : World) (arguments : List String) : Outcome :=
  match Request.ofArguments arguments with
  | .error e =>
    ⟨"", joinLines (Usage.usage ++ [Usage.command ++ ": error: " ++ e.message]), .exit 2, w.files⟩
  | .ok .help => w.ending (.exit 0) Usage.help []
  | .ok .withoutMode => w.ending (.crash .withoutMode) [] []
  | .ok (.run options) => withOptions w options

end RubyOutline.Run
