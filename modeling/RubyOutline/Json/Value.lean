namespace RubyOutline

/-- An object is a list of members in the order in which they are written, and a number is a whole
number of units of some decimal place. -/
inductive Json where
  | null
  | bool (value : Bool)
  | number (mantissa : Int) (places : Nat)
  | string (text : String)
  | array (items : List Json)
  | object (members : List (String × Json))
  deriving Inhabited

namespace Json

/-- The value of the first member of an object that has the given name. -/
def get? (name : String) : Json → Option Json
  | .object members => (members.find? (·.1 == name)).map (·.2)
  | _ => none

def string? : Json → Option String
  | .string text => some text
  | _ => none

def array? : Json → Option (List Json)
  | .array items => some items
  | _ => none

end Json

end RubyOutline
