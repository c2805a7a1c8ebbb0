import ClassBench.Bytes

/-! The 32-bit cyclic redundancy check with the reversed polynomial `0xEDB88320`, which begins
and ends with all bits inverted. -/

namespace ClassBench.Crc32

/-- Divides one bit out of the register. -/
def shift (register : UInt32) : UInt32 :=
  if register &&& 1 = 1 then register >>> 1 ^^^ 0xEDB88320 else register >>> 1

/-- Takes one byte into the register. -/
def update (register : UInt32) (b : UInt8) : UInt32 :=
  shift (shift (shift (shift (shift (shift (shift (shift (register ^^^ b.toUInt32))))))))

/-- The check of a byte string. -/
def checksum (bytes : Bytes) : UInt32 := bytes.foldl update 0xFFFFFFFF ^^^ 0xFFFFFFFF

end ClassBench.Crc32
