import QueryBounds.Text.Quoted

/-!
# Identifiers

An identifier is made of sixteen random bytes, written in hexadecimal in five groups. Six of its
bits are fixed, which marks it as a random one.
-/
namespace QueryBounds.Text

/-- Bytes with the bits set that mark a random identifier. -/
def markRandom (bytes : List UInt8) : List UInt8 :=
  (bytes.modify 6 fun b => b &&& 0x0F ||| 0x40).modify 8 fun b => b &&& 0x3F ||| 0x80

/-- The digits of bytes, two for each. -/
def hexDigits (bytes : List UInt8) : List Char := bytes.flatMap fun b => paddedHex 2 b.toNat

/-- The identifier of sixteen bytes. -/
def identifier (bytes : List UInt8) : String :=
  let ds := hexDigits (markRandom bytes)
  let group (start length : Nat) : String := String.ofList ((ds.drop start).take length)
  "-".intercalate [group 0 8, group 8 4, group 12 4, group 16 4, group 20 12]

end QueryBounds.Text
