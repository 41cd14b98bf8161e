import Culex.Lib.ByteReader

/-!
# Control packets

The data model of `packets.h`: fixed header, CONNECT flags, the packet bodies and the `Packet`
that holds one of them, together with the Remaining Length codec of `packets.cpp`.

Strings and byte vectors are both `Bytes`.  `size_t` and `int` values that cannot leave their range
are `ℕ` and `ℤ`; where a conversion between the two matters it is written out with `toInt`.
Multi-byte values are those of a little-endian host.
-/

namespace Culex

open ByteReader

/-- A `std::string` or `std::vector<uint8_t>`. -/
abbrev Bytes := List UInt8

/-- What ends a function other than by returning: an exception that is thrown, an access the
language leaves undefined, or a loop that never ends. -/
inductive Fault
  | runtimeError (what : String)
  | lengthError
  | badVariant
  | tableIndex
  | wildPointer
  | nullSession
  | endless
  deriving DecidableEq

/-- A function that reads through `const uint8_t** buff`. -/
abbrev Decoder := Reader Fault

/-- Narrowing to a 32-bit `int`. -/
def toInt (x : ℤ) : ℤ := Int.bmod x (2 ^ 32)

theorem toInt_of_range {x : ℤ} (h₀ : -2147483648 ≤ x) (h₁ : x < 2147483648) : toInt x = x :=
  Int.bmod_eq_of_le (by norm_num; omega) (by norm_num; omega)

/-- Internal return codes. -/
def mqttOk : ℤ := 0
def mqttErr : ℤ := 1
def mqttPartialPacket : ℤ := 2
def mqttConnectionAccepted : ℤ := 0x06
def mqttUnacceptableProtocolVersion : ℤ := 0x07

/-! ### The fixed header -/

/-- Control packet types: the sixteen values of the type nibble, two of which have no name in the
protocol. -/
inductive PacketType
  | reserved0
  | connect
  | connack
  | publish
  | puback
  | pubrec
  | pubrel
  | pubcomp
  | subscribe
  | suback
  | unsubscribe
  | unsuback
  | pingreq
  | pingresp
  | disconnect
  | reserved15
  deriving DecidableEq

/-- The numeric value of a type. -/
def PacketType.code : PacketType → ℕ
  | .reserved0 => 0
  | .connect => 1
  | .connack => 2
  | .publish => 3
  | .puback => 4
  | .pubrec => 5
  | .pubrel => 6
  | .pubcomp => 7
  | .subscribe => 8
  | .suback => 9
  | .unsubscribe => 10
  | .unsuback => 11
  | .pingreq => 12
  | .pingresp => 13
  | .disconnect => 14
  | .reserved15 => 15

/-- `static_cast<PacketType>` of a nibble. -/
def PacketType.ofCode : ℕ → PacketType
  | 0 => .reserved0
  | 1 => .connect
  | 2 => .connack
  | 3 => .publish
  | 4 => .puback
  | 5 => .pubrec
  | 6 => .pubrel
  | 7 => .pubcomp
  | 8 => .subscribe
  | 9 => .suback
  | 10 => .unsubscribe
  | 11 => .unsuback
  | 12 => .pingreq
  | 13 => .pingresp
  | 14 => .disconnect
  | _ => .reserved15

@[simp] theorem PacketType.ofCode_code (t : PacketType) : PacketType.ofCode t.code = t := by
  cases t <;> rfl

theorem PacketType.code_lt (t : PacketType) : t.code < 16 := by
  cases t <;> decide

/-- The fixed header byte: packet type and flags. -/
structure Header where
  type : PacketType := .connect
  dup : Bool := false
  qos : UInt8 := 0
  retain : Bool := false
  deriving DecidableEq

/-- Pack the header fields into a single byte. -/
def Header.pack (h : Header) : UInt8 :=
  UInt8.ofNat h.type.code <<< 4 ||| h.dup.toUInt8 <<< 3 ||| h.qos <<< 1 ||| h.retain.toUInt8

/-- Unpack a byte into header fields. -/
def Header.unpack (byte : UInt8) : Header where
  type := .ofCode (byte >>> 4 &&& 0x0F).toNat
  dup := byte &&& 0x08 != 0
  qos := byte >>> 1 &&& 0x03
  retain := byte &&& 0x01 != 0

theorem forall_byte {p : UInt8 → Prop} (h : ∀ n < 256, p (UInt8.ofNat n)) (b : UInt8) : p b := by
  have := h b.toNat b.toNat_lt
  rwa [UInt8.ofNat_toNat] at this

/-- Unpacking a header byte and packing it again changes nothing. -/
theorem Header.pack_unpack (byte : UInt8) : (Header.unpack byte).pack = byte :=
  forall_byte (p := fun b => (Header.unpack b).pack = b) (by decide +kernel) byte

theorem Header.unpack_pack {h : Header} (hq : h.qos < 4) : Header.unpack h.pack = h := by
  obtain ⟨type, dup, qos, retain⟩ := h
  have hall : ∀ c < 16, ∀ n < 4, ∀ dup retain : Bool,
      Header.unpack (Header.pack ⟨.ofCode c, dup, UInt8.ofNat n, retain⟩)
        = ⟨.ofCode c, dup, UInt8.ofNat n, retain⟩ := by decide +kernel
  have := hall type.code type.code_lt qos.toNat (UInt8.lt_iff_toNat_lt.1 hq) dup retain
  rwa [UInt8.ofNat_toNat, PacketType.ofCode_code] at this

/-! ### Packet bodies -/

/-- The flags byte in the variable header of CONNECT. -/
structure ConnectFlags where
  username : Bool := false
  passwd : Bool := false
  willRetain : Bool := false
  willQos : UInt8 := 0
  will : Bool := false
  cleansession : Bool := false
  deriving DecidableEq

/-- Pack the flags into a single byte. -/
def ConnectFlags.pack (cf : ConnectFlags) : UInt8 :=
  cf.username.toUInt8 <<< 7 ||| cf.passwd.toUInt8 <<< 6 ||| cf.willRetain.toUInt8 <<< 5 |||
    cf.willQos <<< 3 ||| cf.will.toUInt8 <<< 2 ||| cf.cleansession.toUInt8 <<< 1

/-- Unpack a byte into the flags; bit 0 is not looked at. -/
def ConnectFlags.unpack (byte : UInt8) : ConnectFlags where
  username := byte &&& 0x80 != 0
  passwd := byte &&& 0x40 != 0
  willRetain := byte &&& 0x20 != 0
  willQos := byte >>> 3 &&& 0x03
  will := byte &&& 0x04 != 0
  cleansession := byte &&& 0x02 != 0

theorem ConnectFlags.unpack_pack {cf : ConnectFlags} (hq : cf.willQos < 4) :
    ConnectFlags.unpack cf.pack = cf := by
  obtain ⟨username, passwd, willRetain, willQos, will, cleansession⟩ := cf
  have hall : ∀ n < 4, ∀ username passwd willRetain will cleansession : Bool,
      ConnectFlags.unpack
          (ConnectFlags.pack ⟨username, passwd, willRetain, UInt8.ofNat n, will, cleansession⟩)
        = ⟨username, passwd, willRetain, UInt8.ofNat n, will, cleansession⟩ := by
    decide +kernel
  have := hall willQos.toNat (UInt8.lt_iff_toNat_lt.1 hq) username passwd willRetain will
    cleansession
  rwa [UInt8.ofNat_toNat] at this

/-- A CONNECT packet. -/
structure Connect where
  level : UInt8 := 4
  cf : ConnectFlags := {}
  keepAlive : UInt16 := 0
  clientId : Bytes := []
  willTopic : Bytes := []
  willMsg : Bytes := []
  username : Bytes := []
  passwd : Bytes := []
  deriving DecidableEq

/-- Swap the bytes of a word: host to network order. -/
def htons (v : UInt16) : UInt16 := v <<< 8 ||| v >>> 8

/-- A CONNACK packet. -/
structure Connack where
  ackFlags : UInt8 := 0
  returnCode : UInt8 := 0
  deriving DecidableEq

/-- Both bytes in network byte order. -/
def Connack.pack (c : Connack) : UInt16 :=
  htons (c.ackFlags.toUInt16 <<< 8 ||| c.returnCode.toUInt16)

/-- A PUBLISH packet. -/
structure Publish where
  topic : Bytes := []
  packetId : UInt16 := 0
  payload : Bytes := []
  deriving DecidableEq

/-- An acknowledgment: PUBACK, PUBREC, PUBREL, PUBCOMP and UNSUBACK. -/
structure Ack where
  packetId : UInt16 := 0
  deriving DecidableEq

/-- The packet identifier in network byte order. -/
def Ack.pack (a : Ack) : UInt16 := htons a.packetId

/-- An entry of a SUBSCRIBE payload. -/
structure Tuple where
  topic : Bytes
  qos : UInt8
  deriving DecidableEq

/-- A SUBSCRIBE packet. -/
structure Subscribe where
  packetId : UInt16 := 0
  payload : List Tuple := []
  deriving DecidableEq

/-- A SUBACK packet. -/
structure Suback where
  packetId : UInt16 := 0
  returnCodes : Bytes := []
  deriving DecidableEq

/-- An UNSUBSCRIBE packet. -/
structure Unsubscribe where
  packetId : UInt16 := 0
  topics : List Bytes := []
  deriving DecidableEq

/-- The alternatives of `Packet::packet`. -/
inductive Packet.Variant
  | connack (p : Connack)
  | ack (p : Ack)
  | connect (p : Connect)
  | publish (p : Publish)
  | subscribe (p : Subscribe)
  | unsubscribe (p : Unsubscribe)
  deriving DecidableEq

/-- Any control packet; `pktLen` is its total length in bytes. -/
structure Packet where
  header : Header := {}
  pktLen : ℕ := 0
  pkt : Packet.Variant := .connack {}
  deriving DecidableEq

/-! ### The Remaining Length field -/

theorem nonneg_of_tdiv_pos {a b : ℤ} (hb : 0 < b) (h : 0 < a.tdiv b) : 0 ≤ a := by
  by_contra ha
  have : (-a).tdiv b = -a.tdiv b := Int.neg_tdiv a b
  have := Int.tdiv_nonneg (a := -a) (b := b) (by omega) hb.le
  omega

/-- The loop of `encodeLength`. -/
def encodeLengthLoop (encodedbyte len : ℤ) (buff : Bytes) : ℤ × Bytes :=
  if encodedbyte + 1 > 4 then
    (encodedbyte, buff)
  else
    let d := len.tmod 128
    let len' := len.tdiv 128
    if 0 < len' then
      encodeLengthLoop encodedbyte len' (buff ++ [UInt8.ofInt d ||| 128])
    else
      (encodedbyte, buff ++ [UInt8.ofInt d])
termination_by len.toNat
decreasing_by
  have h : 0 < len.tdiv 128 := ‹_›
  have hlen := nonneg_of_tdiv_pos (by norm_num) h
  rw [Int.tdiv_eq_ediv_of_nonneg hlen] at h ⊢
  omega

/-- Append the Remaining Length encoding of `len`; the first component is the returned count. -/
def encodeLength (len : ℤ) (buff : Bytes) : ℤ × Bytes := encodeLengthLoop 0 len buff

/-- The loop of `decodeLength`; it throws in its fourth round at the latest. -/
def decodeLengthLoop (availableBytes : ℕ) : ℕ → ℕ → ℕ → ℕ → Decoder UInt64
  | 0, _, _, _ => fail (.runtimeError "Malformed Remaining Length!!")
  | rounds + 1, bytesRead, len, multiplier =>
    if availableBytes ≤ bytesRead then
      return 0 - 1 -- incomplete packet
    else do
      let nextbyte ← peek .wildPointer
      let len := len + (nextbyte &&& 127).toNat * multiplier
      let multiplier := multiplier * 128
      if 128 * 128 * 128 < multiplier then
        fail (.runtimeError "Malformed Remaining Length!!")
      else do
        skip 1
        if nextbyte &&& 128 ≠ 0 then
          decodeLengthLoop availableBytes rounds (bytesRead + 1) len multiplier
        else
          return UInt64.ofNat len

/-- Decode the Remaining Length at the cursor; `-1` (as a `size_t`) if the packet is partial. -/
def decodeLength (availableBytes : ℕ) : Decoder UInt64 :=
  decodeLengthLoop availableBytes 4 0 0 1

end Culex
