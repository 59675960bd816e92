import RubyOutline.Text.Span

namespace RubyOutline

/-- A construct as a grammar delivers it, with the bytes that it was read from and the field that it
fills in its parent. Rows and columns count from zero. A node that the parser had to invent is
`missing`. -/
structure ParseTree where
  type : String
  start : Int := 0
  stop : Int := 0
  row : Int := 0
  column : Int := 0
  named : Bool := true
  missing : Bool := false
  field : Option String := none
  children : List ParseTree := []

namespace ParseTree

def line (t : ParseTree) : Int := t.row + 1

def text (source : List UInt8) (t : ParseTree) : String := textAt source t.start t.stop

def fills (field : String) (t : ParseTree) : Bool := t.field == some field

/-- The node marks a place that the grammar could not read. -/
def isError (t : ParseTree) : Bool := t.type == "ERROR" || t.missing

/-- A statement written straight under a declaration: a named child that fills no field. -/
def isStatement (t : ParseTree) : Bool := t.named && t.field.isNone

end ParseTree

end RubyOutline
