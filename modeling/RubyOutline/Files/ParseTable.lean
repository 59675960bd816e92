import RubyOutline.Files.Source

namespace RubyOutline

/-- The parse trees of the texts that are known beforehand. -/
abbrev ParseTable := List (String × ParseTree)

namespace ParseTable

def forget (table : ParseTable) (text : String) : ParseTable := table.filter (·.1 != text)

/-- The tree of a text; a later tree takes the place of an earlier one. -/
def register (table : ParseTable) (text : String) (t : ParseTree) : ParseTable :=
  (text, t) :: table.forget text

def parser (table : ParseTable) : Parser := fun text =>
  match table.find? (·.1 == text) with
  | some (_, t) => .ok t
  | none => .error "no parse tree"

end ParseTable

end RubyOutline
