import RubyOutline.Json.Value
import RubyOutline.Text.Hex

namespace RubyOutline.Json

def isBlank (c : Char) : Bool := c == ' ' || c == '\n' || c == '\r' || c == '\t'

def skipBlanks (text : List Char) : List Char := text.dropWhile isBlank

/-- The four digits of a code unit, and the text after them. -/
def readUnit? : List Char → Option (Nat × List Char)
  | a :: b :: c :: d :: rest => (hexValue? 0 [a, b, c, d]).map (·, rest)
  | _ => none

def simpleEscape? : Char → Option Char
  | '\x22' => some '\x22'
  | '\\' => some '\\'
  | '/' => some '/'
  | 'b' => some '\x08'
  | 'f' => some '\x0c'
  | 'n' => some '\n'
  | 'r' => some '\r'
  | 't' => some '\t'
  | _ => none

/-- The character of a code unit, or of a pair of surrogates of which the first is read. A surrogate
without a partner is refused, since it is no character. -/
def readCode? (text : List Char) : Option (Char × List Char) := do
  let (n, rest) ← readUnit? text
  if n < 0xD800 ∨ 0xE000 ≤ n then return (Char.ofNat n, rest)
  match rest with
  | '\\' :: 'u' :: more =>
    let (m, rest) ← readUnit? more
    if n < 0xDC00 ∧ 0xDC00 ≤ m ∧ m < 0xE000 then
      return (Char.ofNat (0x10000 + (n - 0xD800) * 0x400 + (m - 0xDC00)), rest)
    else none
  | _ => none

/-- The characters up to the closing quote; every step reads at least one character. -/
def readChars? : (fuel : Nat) → List Char → Option (List Char × List Char)
  | 0, _ => none
  | _ + 1, [] => none
  | fuel + 1, c :: rest =>
    if c = '\x22' then some ([], rest)
    else if c = '\\' then
      match rest with
      | 'u' :: code => do
        let (d, rest) ← readCode? code
        let (ds, rest) ← readChars? fuel rest
        return (d :: ds, rest)
      | e :: rest => do
        let d ← simpleEscape? e
        let (ds, rest) ← readChars? fuel rest
        return (d :: ds, rest)
      | [] => none
    else if c.toNat < 0x20 then none
    else do
      let (ds, rest) ← readChars? fuel rest
      return (c :: ds, rest)

def readString? (text : List Char) : Option (String × List Char) :=
  match text with
  | '\x22' :: rest =>
    (readChars? (rest.length + 1) rest).map fun (cs, rest) => (String.ofList cs, rest)
  | _ => none

def digitsValue (digits : List Char) : Nat :=
  digits.foldl (fun n c => 10 * n + (c.toNat - '0'.toNat)) 0

/-- At least one digit, and the text after the last of them. -/
def readDigits? (text : List Char) : Option (List Char × List Char) :=
  match text.takeWhile Char.isDigit with
  | [] => none
  | digits => some (digits, text.dropWhile Char.isDigit)

def readFraction? : List Char → Option (List Char × List Char)
  | '.' :: rest => readDigits? rest
  | rest => some ([], rest)

def readExponent? : List Char → Option (Int × List Char)
  | c :: rest =>
    if c = 'e' ∨ c = 'E' then
      match rest with
      | '-' :: rest => (readDigits? rest).map fun (ds, rest) => (-(digitsValue ds : Int), rest)
      | '+' :: rest => (readDigits? rest).map fun (ds, rest) => ((digitsValue ds : Int), rest)
      | rest => (readDigits? rest).map fun (ds, rest) => ((digitsValue ds : Int), rest)
    else some (0, c :: rest)
  | [] => some (0, [])

/-- A number is refused when a zero stands before another digit. -/
def readNumber? (text : List Char) : Option (Json × List Char) := do
  let (negative, text) := match text with
    | '-' :: rest => (true, rest)
    | text => (false, text)
  let (whole, rest) ← readDigits? text
  if whole.length > 1 ∧ whole.head? = some '0' then none
  let (fraction, rest) ← readFraction? rest
  let (exponent, rest) ← readExponent? rest
  let digits := digitsValue (whole ++ fraction)
  let places := (fraction.length : Int) - exponent
  let magnitude := digits * Nat.pow 10 (-places).toNat
  return (.number (if negative then -(magnitude : Int) else magnitude) places.toNat, rest)

def expect? (word : List Char) (value : Json) (text : List Char) : Option (Json × List Char) :=
  if word.isPrefixOf text then some (value, text.drop word.length) else none

mutual

def read? : (fuel : Nat) → List Char → Option (Json × List Char)
  | 0, _ => none
  | fuel + 1, text =>
    match skipBlanks text with
    | [] => none
    | 'n' :: rest => expect? "ull".toList .null rest
    | 't' :: rest => expect? "rue".toList (.bool true) rest
    | 'f' :: rest => expect? "alse".toList (.bool false) rest
    | '\x22' :: rest => (readString? ('\x22' :: rest)).map fun (text, rest) => (.string text, rest)
    | '[' :: rest =>
      match skipBlanks rest with
      | ']' :: rest => some (.array [], rest)
      | rest => do
        let (item, rest) ← read? fuel rest
        let (items, rest) ← readItems? fuel rest
        return (.array (item :: items), rest)
    | '\x7b' :: rest =>
      match skipBlanks rest with
      | '\x7d' :: rest => some (.object [], rest)
      | rest => do
        let (member, rest) ← readMember? fuel rest
        let (members, rest) ← readMembers? fuel rest
        return (.object (member :: members), rest)
    | text => readNumber? text

/-- What follows an item: the closing bracket, or a comma and more items. -/
def readItems? : (fuel : Nat) → List Char → Option (List Json × List Char)
  | 0, _ => none
  | fuel + 1, text =>
    match skipBlanks text with
    | ']' :: rest => some ([], rest)
    | ',' :: rest => do
      let (item, rest) ← read? fuel rest
      let (items, rest) ← readItems? fuel rest
      return (item :: items, rest)
    | _ => none

def readMember? : (fuel : Nat) → List Char → Option ((String × Json) × List Char)
  | 0, _ => none
  | fuel + 1, text => do
    let (name, rest) ← readString? (skipBlanks text)
    match skipBlanks rest with
    | ':' :: rest =>
      let (value, rest) ← read? fuel rest
      return ((name, value), rest)
    | _ => none

def readMembers? : (fuel : Nat) → List Char → Option (List (String × Json) × List Char)
  | 0, _ => none
  | fuel + 1, text =>
    match skipBlanks text with
    | '\x7d' :: rest => some ([], rest)
    | ',' :: rest => do
      let (member, rest) ← readMember? fuel rest
      let (members, rest) ← readMembers? fuel rest
      return (member :: members, rest)
    | _ => none

end

/-- The value that a whole text writes. Two steps are taken for each character at most. -/
def parse? (text : String) : Option Json := do
  let (value, rest) ← read? (2 * text.length + 2) text.toList
  if (skipBlanks rest).isEmpty then some value else none

end RubyOutline.Json
