namespace RubyOutline.Qualified

def join (segments : List String) : String := "::".intercalate segments

/-- Each double colon is taken from the left, so three colons in a row end a segment after the
second of them. -/
def splitChars : List Char → List (List Char)
  | [] => [[]]
  | ':' :: ':' :: rest => [] :: splitChars rest
  | c :: rest =>
    match splitChars rest with
    | [] => [[c]]
    | segment :: segments => (c :: segment) :: segments

theorem splitChars_ne_nil (text : List Char) : splitChars text ≠ [] := by
  fun_cases splitChars text <;> simp [*]

def split (name : String) : List String := (splitChars name.toList).map String.ofList

/-- The last segment of a qualified name. -/
def simpleName (name : String) : String := (split name).getLastD name

end RubyOutline.Qualified
