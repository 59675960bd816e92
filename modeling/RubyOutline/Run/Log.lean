namespace RubyOutline

namespace Log

inductive Level where
  | debug
  | info
  | warning
  | error
  deriving DecidableEq, Repr

/-- The mark in front of an entry is coloured whatever the settings. -/
def Level.mark : Level → String
  | .debug => "\x1b[1m[DEBUG]\x1b[0m"
  | .info => "\x1b[1;34m[INFO]\x1b[0m"
  | .warning => "\x1b[1;33m[WARNING]\x1b[0m"
  | .error => "\x1b[1;31m[ERROR]\x1b[0m"

structure Entry where
  level : Level
  words : List String
  deriving DecidableEq, Repr

def Entry.render (e : Entry) : String := " ".intercalate (e.level.mark :: e.words) ++ "\n"

def debug (text : String) : Entry := ⟨.debug, [text]⟩

def info (text : String) : Entry := ⟨.info, [text]⟩

def warning (text : String) : Entry := ⟨.warning, [text]⟩

def error (text : String) : Entry := ⟨.error, [text]⟩

/-- The text of a log, with or without its debug entries. -/
def render (showDebug : Bool) (log : List Entry) : String :=
  String.join ((log.filter fun e => showDebug || e.level != .debug).map Entry.render)

end Log

end RubyOutline
