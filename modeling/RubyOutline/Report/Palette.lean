import RubyOutline.Feature.Visibility

namespace RubyOutline

structure Palette where
  reset : String := ""
  bold : String := ""
  dim : String := ""
  red : String := ""
  yellow : String := ""
  cyan : String := ""

namespace Palette

def plain : Palette := { }

def ansi : Palette where
  reset := "\x1b[0m"
  bold := "\x1b[1m"
  dim := "\x1b[2m"
  red := "\x1b[31m"
  yellow := "\x1b[33m"
  cyan := "\x1b[36m"

def visibility (p : Palette) : Visibility → String
  | .pub => ""
  | .prot => p.yellow
  | .priv => p.red

end Palette

end RubyOutline
