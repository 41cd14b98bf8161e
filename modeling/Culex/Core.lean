import Culex.Packets

/-!
# The core library

What the broker calls in the `core` submodule, as a parameter: the byte readers and writers, each
with what the broker relies on about it.  The readers take big-endian values at the cursor and
advance it; they are given no bound.  The writers append big-endian words, and the bytes of a string
without its length.
-/

namespace Culex

open ByteReader

/-- The packing functions of the core library. -/
structure Core where
  unpackU8 : Decoder UInt8
  unpackU16 : Decoder UInt16
  unpackString16 : Decoder Bytes
  packU16 : Bytes → UInt16 → Bytes
  packString16 : Bytes → Bytes → Bytes
  unpackU8_eq : unpackU8 = u8 .wildPointer
  unpackU16_eq : unpackU16 = u16 .wildPointer
  unpackString16_eq : unpackString16 = string16 .wildPointer
  packU16_eq : ∀ buff v, packU16 buff v = buff ++ be16 v
  packString16_eq : ∀ buff s, packString16 buff s = buff ++ s

/-- The packing functions that do exactly what is relied on. -/
def Core.bigEndian : Core where
  unpackU8 := u8 .wildPointer
  unpackU16 := u16 .wildPointer
  unpackString16 := string16 .wildPointer
  packU16 buff v := buff ++ be16 v
  packString16 buff s := buff ++ s
  unpackU8_eq := rfl
  unpackU16_eq := rfl
  unpackString16_eq := rfl
  packU16_eq _ _ := rfl
  packString16_eq _ _ := rfl

theorem Core.spells_u8 (core : Core) : Spells core.unpackU8 fun b l => l = [b] :=
  core.unpackU8_eq ▸ ByteReader.spells_u8 _

theorem Core.spells_u16 (core : Core) : Spells core.unpackU16 fun v l => l = be16 v :=
  core.unpackU16_eq ▸ ByteReader.spells_u16 _

theorem Core.spells_string16 (core : Core) :
    Spells core.unpackString16 fun s l => s.length < 65536 ∧ l = str16 s :=
  core.unpackString16_eq ▸ ByteReader.spells_string16 _

theorem Core.total_u8 (core : Core) : Total core.unpackU8 1 :=
  core.unpackU8_eq ▸ ByteReader.total_u8 _

theorem Core.total_u16 (core : Core) : Total core.unpackU16 2 :=
  core.unpackU16_eq ▸ ByteReader.total_u16 _

theorem Core.total_string16 (core : Core) : Total core.unpackString16 65537 :=
  core.unpackString16_eq ▸ ByteReader.total_string16 _

end Culex
