namespace RubyOutline

inductive Switch where
  | help
  | dumpAst
  | checkParser
  | output
  | outputDir
  | publicOnly
  | strict
  deriving DecidableEq, Repr

namespace Switch

def all : List Switch :=
  [.help, .dumpAst, .checkParser, .output, .outputDir, .publicOnly, .strict]

/-- The spellings of a switch, in order of length. -/
def spellings : Switch → List String
  | .help => ["-h", "--help"]
  | .dumpAst => ["-da", "--dump-ast"]
  | .checkParser => ["-cp", "--check-parser"]
  | .output => ["-o", "--output"]
  | .outputDir => ["-O", "--output-dir"]
  | .publicOnly => ["--public-only"]
  | .strict => ["--strict"]

def takesValue : Switch → Bool
  | .output | .outputDir => true
  | _ => false

/-- How a switch is called in a message. -/
def display (s : Switch) : String := "/".intercalate s.spellings

/-- Every spelling, with its switch. -/
def table : List (String × Switch) := all.flatMap fun s => s.spellings.map (·, s)

def ofSpelling? (text : String) : Option Switch := (table.find? (·.1 == text)).map (·.2)

end Switch

end RubyOutline
