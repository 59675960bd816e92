import RubyOutline.Json.Value
import RubyOutline.Text.Hex

namespace RubyOutline.Json

def writeUnit (n : Nat) : List Char := '\\' :: 'u' :: hexDigits 4 n

/-- All is written in ASCII, and a character above U+FFFF as a surrogate pair. -/
def writeChar (c : Char) : List Char :=
  let n := c.toNat
  if c = '\x22' then ['\\', '\x22']
  else if c = '\\' then ['\\', '\\']
  else if c = '\n' then ['\\', 'n']
  else if c = '\r' then ['\\', 'r']
  else if c = '\t' then ['\\', 't']
  else if n = 8 then ['\\', 'b']
  else if n = 12 then ['\\', 'f']
  else if 0x20 ≤ n ∧ n < 0x7F then [c]
  else if n < 0x10000 then writeUnit n
  else writeUnit (0xD800 + (n - 0x10000) / 0x400) ++ writeUnit (0xDC00 + (n - 0x10000) % 0x400)

def writeString (text : String) : List Char :=
  '\x22' :: text.toList.flatMap writeChar ++ ['\x22']

/-- A point stands before the last `places` digits, after at least one other. -/
def writeNumber (mantissa : Int) (places : Nat) : List Char :=
  let sign := if mantissa < 0 then ['-'] else []
  let digits := Nat.toDigits 10 mantissa.natAbs
  let padded := List.replicate (places + 1 - digits.length) '0' ++ digits
  let whole := padded.take (padded.length - places)
  sign ++ whole ++ if places = 0 then [] else '.' :: padded.drop (padded.length - places)

def newline (depth : Nat) : List Char := '\n' :: List.replicate (2 * depth) ' '

mutual

def write (depth : Nat) : Json → List Char
  | .null => "null".toList
  | .bool true => "true".toList
  | .bool false => "false".toList
  | .number mantissa places => writeNumber mantissa places
  | .string text => writeString text
  | .array [] => ['[', ']']
  | .array (item :: items) =>
    '[' :: newline (depth + 1) ++ write (depth + 1) item ++ writeItems (depth + 1) items ++
      newline depth ++ [']']
  | .object [] => ['\x7b', '\x7d']
  | .object ((name, value) :: members) =>
    '\x7b' :: newline (depth + 1) ++ writeString name ++ [':', ' '] ++ write (depth + 1) value ++
      writeMembers (depth + 1) members ++ newline depth ++ ['\x7d']

/-- The items after the first, each after a comma and on a line of its own. -/
def writeItems (depth : Nat) : List Json → List Char
  | [] => []
  | item :: items => ',' :: newline depth ++ write depth item ++ writeItems depth items

def writeMembers (depth : Nat) : List (String × Json) → List Char
  | [] => []
  | (name, value) :: members =>
    ',' :: newline depth ++ writeString name ++ [':', ' '] ++ write depth value ++
      writeMembers depth members

end

def render (value : Json) : String := String.ofList (write 0 value)

end RubyOutline.Json
