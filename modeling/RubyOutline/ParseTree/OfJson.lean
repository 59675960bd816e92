import RubyOutline.Json.Value
import RubyOutline.ParseTree.Basic

namespace RubyOutline.ParseTree

mutual

/-- An object with the fields of a node, of which only the type must be there. -/
def ofJson? : Json → Option ParseTree
  | .object members => withMembers? { type := "" } members
  | _ => none

/-- A member that is unknown or of the wrong type is refused. -/
def withMembers? (t : ParseTree) : List (String × Json) → Option ParseTree
  | [] => if t.type.isEmpty then none else some t
  | ("type", .string type) :: rest => withMembers? { t with type } rest
  | ("start", .number start 0) :: rest => withMembers? { t with start } rest
  | ("stop", .number stop 0) :: rest => withMembers? { t with stop } rest
  | ("row", .number row 0) :: rest => withMembers? { t with row } rest
  | ("column", .number column 0) :: rest => withMembers? { t with column } rest
  | ("named", .bool named) :: rest => withMembers? { t with named } rest
  | ("missing", .bool missing) :: rest => withMembers? { t with missing } rest
  | ("field", .string field) :: rest => withMembers? { t with field := some field } rest
  | ("children", .array items) :: rest =>
    (ofJsons? items).bind fun children => withMembers? { t with children } rest
  | _ => none

def ofJsons? : List Json → Option (List ParseTree)
  | [] => some []
  | item :: items => do
    let t ← ofJson? item
    let ts ← ofJsons? items
    return t :: ts

end

end RubyOutline.ParseTree
