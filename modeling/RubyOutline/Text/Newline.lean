namespace RubyOutline

/-- A carriage return, alone or before a line feed, is read as one line feed. -/
def unifyNewlinesOf : List Char → List Char
  | '\r' :: '\n' :: rest => '\n' :: unifyNewlinesOf rest
  | '\r' :: rest => '\n' :: unifyNewlinesOf rest
  | c :: rest => c :: unifyNewlinesOf rest
  | [] => []

def unifyNewlines (text : String) : String := String.ofList (unifyNewlinesOf text.toList)

end RubyOutline
