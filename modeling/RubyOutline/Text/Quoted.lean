import RubyOutline.Text.Hex
import RubyOutline.Text.Printable

namespace RubyOutline.Quoted

def single : Char := '\x27'

def double : Char := '\x22'

/-- Single quotes stand around a text, or double quotes when it holds a single quote and no double
one. -/
def mark (text : List Char) : Char :=
  if text.contains single && !text.contains double then double else single

/-- An escape has the fewest of 2, 4 or 8 digits that hold the code point. -/
def escapeCode (n : Nat) : List Char :=
  if n < 0x100 then '\\' :: 'x' :: hexDigits 2 n
  else if n < 0x10000 then '\\' :: 'u' :: hexDigits 4 n
  else '\\' :: 'U' :: hexDigits 8 n

def escape (mark c : Char) : List Char :=
  if c = mark then ['\\', c]
  else if c = '\\' then ['\\', '\\']
  else if c = '\n' then ['\\', 'n']
  else if c = '\r' then ['\\', 'r']
  else if c = '\t' then ['\\', 't']
  else if isPrintable c then [c]
  else escapeCode c.toNat

end RubyOutline.Quoted

namespace RubyOutline

def quoted (text : String) : String :=
  let mark := Quoted.mark text.toList
  String.ofList (mark :: text.toList.flatMap (Quoted.escape mark) ++ [mark])

end RubyOutline
