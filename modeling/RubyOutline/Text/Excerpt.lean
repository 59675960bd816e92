namespace RubyOutline

/-- The first `limit` characters, with an ellipsis when there are more. -/
def excerpt (limit : Nat) (text : String) : String :=
  if text.length ≤ limit then text else String.ofList (text.toList.take limit) ++ "..."

/-- Two spaces for each level. -/
def indent (levels : Nat) : String := String.ofList (List.replicate (2 * levels) ' ')

end RubyOutline
