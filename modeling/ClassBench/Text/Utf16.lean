/-! Text as UTF-16 units.  A character below U+10000 is one unit, any other is a high and a low
surrogate; reading units back fails on a surrogate that is not part of such a pair. -/

namespace ClassBench.Utf16

/-- The units of one character. -/
def units (c : Char) : List UInt16 :=
  if c.toNat < 0x10000 then [c.toNat.toUInt16]
  else
    let above := c.toNat - 0x10000
    [(0xD800 + above / 0x400).toUInt16, (0xDC00 + above % 0x400).toUInt16]

/-- The units of a text. -/
def encode (text : List Char) : List UInt16 := text.flatMap units

/-- A unit that begins a pair. -/
def isHigh (u : UInt16) : Bool := 0xD800 ≤ u && u ≤ 0xDBFF

/-- A unit that ends a pair. -/
def isLow (u : UInt16) : Bool := 0xDC00 ≤ u && u ≤ 0xDFFF

/-- The character of a pair of surrogates. -/
def ofPair (high low : UInt16) : Char :=
  Char.ofNat (0x10000 + (high.toNat - 0xD800) * 0x400 + (low.toNat - 0xDC00))

/-- Reads units after the characters already read, which are in reverse. -/
def decodeInto (read : List Char) : List UInt16 → Option (List Char)
  | [] => some read.reverse
  | u :: rest =>
    if isHigh u then
      match rest with
      | v :: rest' => if isLow v then decodeInto (ofPair u v :: read) rest' else none
      | [] => none
    else if isLow u then none
    else decodeInto (Char.ofNat u.toNat :: read) rest

/-- The text with these units, if every surrogate is in a pair. -/
def decode? (us : List UInt16) : Option (List Char) := decodeInto [] us

end ClassBench.Utf16
