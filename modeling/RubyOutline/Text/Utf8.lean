import RubyOutline.Text.Hex

namespace RubyOutline.Utf8

/-- Why a part of a byte sequence is not UTF-8. -/
inductive Fault where
  | startByte
  | continuationByte
  | truncated
  deriving DecidableEq, Repr

def Fault.message : Fault → String
  | .startByte => "invalid start byte"
  | .continuationByte => "invalid continuation byte"
  | .truncated => "unexpected end of data"

/-- A character, or a longest part that no character can begin with. -/
inductive Piece where
  | char (c : Char)
  | illFormed (bytes : List UInt8) (fault : Fault)
  deriving DecidableEq, Repr

def Piece.bytes : Piece → List UInt8
  | .char c => String.utf8EncodeChar c
  | .illFormed bytes _ => bytes

/-- The character that stands for any ill-formed part. -/
def replacement : Char := Char.ofNat 0xFFFD

def Piece.replaced : Piece → Char
  | .char c => c
  | .illFormed _ _ => replacement

/-- A character whose first bytes are known; the next byte lies between `low` and `high`. -/
structure Pending where
  bytes : List UInt8
  value : Nat
  missing : Nat
  low : UInt8
  high : UInt8
  deriving DecidableEq, Repr

/-- The second byte is narrower after E0, ED, F0 and F4: no overlong form, no surrogate, nothing
above U+10FFFF. -/
def start (b : UInt8) : Piece ⊕ Pending :=
  let n := b.toNat
  if n < 0x80 then .inl (.char (Char.ofNat n))
  else if n < 0xC2 then .inl (.illFormed [b] .startByte)
  else if n < 0xE0 then .inr ⟨[b], n - 0xC0, 1, 0x80, 0xBF⟩
  else if n = 0xE0 then .inr ⟨[b], 0, 2, 0xA0, 0xBF⟩
  else if n = 0xED then .inr ⟨[b], 0xD, 2, 0x80, 0x9F⟩
  else if n < 0xF0 then .inr ⟨[b], n - 0xE0, 2, 0x80, 0xBF⟩
  else if n = 0xF0 then .inr ⟨[b], 0, 3, 0x90, 0xBF⟩
  else if n < 0xF4 then .inr ⟨[b], n - 0xF0, 3, 0x80, 0xBF⟩
  else if n = 0xF4 then .inr ⟨[b], 4, 3, 0x80, 0x8F⟩
  else .inl (.illFormed [b] .startByte)

/-- The character extended by a byte that continues it. -/
def Pending.extend (p : Pending) (b : UInt8) : Piece ⊕ Pending :=
  let value := p.value * 64 + b.toNat % 64
  if p.missing = 1 then .inl (.char (Char.ofNat value))
  else .inr ⟨p.bytes ++ [b], value, p.missing - 1, 0x80, 0xBF⟩

/-- What a byte brings when no character is open. -/
def first (b : UInt8) : List Piece × Option Pending :=
  match start b with
  | .inl piece => ([piece], none)
  | .inr p => ([], some p)

/-- The pieces that one byte completes, and the character left open after it. -/
def step : Option Pending → UInt8 → List Piece × Option Pending
  | none, b => first b
  | some p, b =>
    if p.low ≤ b ∧ b ≤ p.high then
      match p.extend b with
      | .inl piece => ([piece], none)
      | .inr q => ([], some q)
    else
      let (pieces, next) := first b
      (.illFormed p.bytes .continuationByte :: pieces, next)

def scan (state : Option Pending) : List UInt8 → List Piece
  | [] =>
    match state with
    | none => []
    | some p => [.illFormed p.bytes .truncated]
  | b :: bs =>
    let (pieces, next) := step state b
    pieces ++ scan next bs

def pieces (bytes : List UInt8) : List Piece := scan none bytes

def encode (text : String) : List UInt8 := text.toList.flatMap String.utf8EncodeChar

/-- One replacement character for each longest ill-formed part. -/
def decodeLossy (bytes : List UInt8) : String :=
  String.ofList ((pieces bytes).map Piece.replaced)

/-- The first ill-formed part of a byte sequence, and where it starts. -/
structure DecodeError where
  position : Nat
  bytes : List UInt8
  fault : Fault
  deriving DecidableEq, Repr

def DecodeError.message (e : DecodeError) : String :=
  let place :=
    match e.bytes with
    | [b] => s!"byte 0x{String.ofList (hexDigits 2 b.toNat)} in position {e.position}"
    | bs => s!"bytes in position {e.position}-{e.position + bs.length - 1}"
  s!"'utf-8' codec can't decode {place}: {e.fault.message}"

/-- The characters of the pieces, or the first of them that is ill-formed. -/
def collect (position : Nat) : List Piece → Except DecodeError (List Char)
  | [] => .ok []
  | .illFormed bytes fault :: _ => .error ⟨position, bytes, fault⟩
  | .char c :: rest => (collect (position + c.utf8Size) rest).map (c :: ·)

def decode (bytes : List UInt8) : Except DecodeError String :=
  (collect 0 (pieces bytes)).map String.ofList

end RubyOutline.Utf8
