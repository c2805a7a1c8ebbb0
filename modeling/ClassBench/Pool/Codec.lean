import ClassBench.Pool
import ClassBench.Constant.Codec

/-! The bytes of a constant pool: its count, then its entries in order.  Reading goes on while the
count of the pool read so far, taken as a 16-bit word, is below the declared one. -/

namespace ClassBench.Pool

/-- The bytes of a pool. -/
def encode (pool : Pool) : Bytes :=
  Bytes.ofUInt16 pool.count ++ pool.entries.flatMap Constant.encode

/-- Reads entries until the count reaches `declared`.  Every entry takes at least one byte, so
`entries` may start as any number above that of the bytes left. -/
def readEntries (declared : UInt16) : Nat → Pool → Reader Pool
  | 0, pool => return pool
  | entries + 1, pool => do
    if pool.count < declared then
      let c ← Constant.read pool.count
      readEntries declared entries (push c pool).2
    else return pool

/-- Reads a pool. -/
def read : Reader Pool := do
  let declared ← Reader.u16
  let cursor ← get
  readEntries declared (cursor.rest.length + 1) empty

end ClassBench.Pool
