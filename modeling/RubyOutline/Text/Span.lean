import RubyOutline.Text.Utf8

namespace RubyOutline

/-- The place in a sequence of `length` items that an index names. One below zero counts from the
end, and one outside the sequence stands for the nearer end. -/
def indexPlace (length : Nat) (index : Int) : Nat :=
  if index < 0 then (length + index).toNat else min index.toNat length

def span {α : Type} (items : List α) (start stop : Int) : List α :=
  let first := indexPlace items.length start
  let last := indexPlace items.length stop
  (items.drop first).take (last - first)

/-- The text of a span, where a character cut at either end shows as replacement characters. -/
def textAt (source : List UInt8) (start stop : Int) : String :=
  Utf8.decodeLossy (span source start stop)

end RubyOutline
