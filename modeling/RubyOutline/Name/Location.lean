namespace RubyOutline.Location

def render (path : String) (line : Int) : String := path ++ ":" ++ toString line

def afterLastColon (text : List Char) : List Char :=
  (text.reverse.takeWhile (· != ':')).reverse

/-- The text after the last colon, which is the line of a rendered location. -/
def lineOf (location : String) : String := String.ofList (afterLastColon location.toList)

end RubyOutline.Location
