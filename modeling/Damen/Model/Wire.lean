import Mathlib.Data.UInt
import Mathlib.Data.List.Basic
import Mathlib.Logic.Function.Iterate

/-!
# Packets and their wire format

The types of `tight/include/tight/types.hpp` that travel between endpoints, the byte-order
helpers of `tight/src/wire_format.hpp`, the CRC of `tight/src/crc32.cpp` and the codec of
`tight/src/packet_codec.cpp`.

A byte vector is a `List UInt8`, and so is a `std::string`: ids and tokens are compared and
copied bytewise.  Multi-byte fields go through `toBe32`/`toBe16`/`toBe64` and a `memcpy`, as in
the source; `memcpy` is modelled on a little-endian host (`storeLe32`, `loadLe32`), so the two
steps can be checked against the source one by one.
-/

namespace Damen

/-- `tight::Bytes`, and the contents of a `std::string`. -/
abbrev Bytes := List UInt8

/-- `PacketType`.  The decoder casts an arbitrary byte into the enumeration, so a code above
the last enumerator is a value of the type too. -/
inductive PacketType
  | handshake
  | handshakeAck
  | online
  | heartbeat
  | bye
  | data
  | parity
  | ack
  | report
  | probe
  | command
  /-- A byte that names no enumerator. -/
  | unknown (code : UInt8) (h : 10 < code)
  deriving DecidableEq

namespace PacketType

/-- `static_cast<std::uint8_t>(type)`. -/
def toByte : PacketType → UInt8
  | handshake => 0
  | handshakeAck => 1
  | online => 2
  | heartbeat => 3
  | bye => 4
  | data => 5
  | parity => 6
  | ack => 7
  | report => 8
  | probe => 9
  | command => 10
  | unknown code _ => code

/-- `static_cast<PacketType>(byte)`. -/
def ofByte (b : UInt8) : PacketType :=
  if h : 10 < b then unknown b h
  else match b.toNat with
    | 0 => handshake
    | 1 => handshakeAck
    | 2 => online
    | 3 => heartbeat
    | 4 => bye
    | 5 => data
    | 6 => parity
    | 7 => ack
    | 8 => report
    | 9 => probe
    | _ => command

end PacketType

/-- `PacketHeader`, with its default member initialisers. -/
structure PacketHeader where
  magic : UInt32 := 0
  version : UInt8 := 0
  type : PacketType := .handshake
  flags : UInt16 := 0
  clientId : UInt32 := 0
  sessionId : UInt64 := 0
  sequence : UInt32 := 0
  acknowledgment : UInt32 := 0
  messageId : UInt32 := 0
  fragmentIndex : UInt16 := 0
  fragmentCount : UInt16 := 0
  payloadSize : UInt16 := 0
  reserved : UInt16 := 0
  tick : UInt32 := 0
  checksum : UInt32 := 0
  deriving DecidableEq

/-! ## Wire constants and byte order -/

def kMagic : UInt32 := 0x54474854
def kVersion : UInt8 := 1
def kHeaderSize : ℕ := 48
def kFlagEncrypted : UInt16 := 0x8000

def toBe16 (v : UInt16) : UInt16 :=
  ((v &&& 0x00FF) <<< 8) ||| ((v &&& 0xFF00) >>> 8)

def toBe32 (v : UInt32) : UInt32 :=
  ((v &&& 0x000000FF) <<< 24) ||| ((v &&& 0x0000FF00) <<< 8)
    ||| ((v &&& 0x00FF0000) >>> 8) ||| ((v &&& 0xFF000000) >>> 24)

/-- `to_be64` as written: each half is reversed, but the halves keep their places. -/
def toBe64 (v : UInt64) : UInt64 :=
  ((toBe32 ((v >>> 32) &&& 0xFFFFFFFF).toUInt32).toUInt64 <<< 32)
    ||| (toBe32 (v &&& 0xFFFFFFFF).toUInt32).toUInt64

/-- `std::memcpy` of a 16-bit integer into a buffer, on a little-endian host. -/
def storeLe16 (v : UInt16) : Bytes := [v.toUInt8, (v >>> 8).toUInt8]

/-- `std::memcpy` of a 32-bit integer into a buffer, on a little-endian host. -/
def storeLe32 (v : UInt32) : Bytes :=
  [v.toUInt8, (v >>> 8).toUInt8, (v >>> 16).toUInt8, (v >>> 24).toUInt8]

/-- `std::memcpy` of a 64-bit integer into a buffer, on a little-endian host. -/
def storeLe64 (v : UInt64) : Bytes :=
  storeLe32 v.toUInt32 ++ storeLe32 (v >>> 32).toUInt32

/-- `std::memcpy` of two bytes at offset `off` into a 16-bit integer. -/
def loadLe16 (p : Bytes) (off : ℕ) : UInt16 :=
  (p.getD off 0).toUInt16 ||| ((p.getD (off + 1) 0).toUInt16 <<< 8)

/-- `std::memcpy` of four bytes at offset `off` into a 32-bit integer. -/
def loadLe32 (p : Bytes) (off : ℕ) : UInt32 :=
  (p.getD off 0).toUInt32 ||| ((p.getD (off + 1) 0).toUInt32 <<< 8)
    ||| ((p.getD (off + 2) 0).toUInt32 <<< 16) ||| ((p.getD (off + 3) 0).toUInt32 <<< 24)

def put16 (v : UInt16) : Bytes := storeLe16 (toBe16 v)
def put32 (v : UInt32) : Bytes := storeLe32 (toBe32 v)
def put64 (v : UInt64) : Bytes := storeLe64 (toBe64 v)

def get16 (p : Bytes) (off : ℕ) : UInt16 := toBe16 (loadLe16 p off)
def get32 (p : Bytes) (off : ℕ) : UInt32 := toBe32 (loadLe32 p off)

/-- The decoder's 64-bit read: the first word is the low one. -/
def get64 (p : Bytes) (off : ℕ) : UInt64 :=
  ((get32 p (off + 4)).toUInt64 <<< 32) ||| (get32 p off).toUInt64

/-! ## CRC-32 -/

/-- One bit of the table entry: the reflected polynomial division step. -/
def crcBit (c : UInt32) : UInt32 :=
  if c &&& 1 ≠ 0 then (0xEDB88320 : UInt32) ^^^ (c >>> 1) else c >>> 1

/-- `init_crc_table`. -/
def crcTable : List UInt32 :=
  (List.range 256).map fun i => (crcBit^[8]) (UInt32.ofNat i)

def crc32Update (crc : UInt32) (data : Bytes) : UInt32 :=
  data.foldl (fun (crc : UInt32) (b : UInt8) =>
    crcTable.getD ((crc ^^^ b.toUInt32) &&& 0xFF).toNat 0 ^^^ (crc >>> 8)) crc

/-! ## The codec -/

namespace PacketCodec

/-- The 48 header bytes, with the CRC field zero. -/
def encodeHeaderTo (header : PacketHeader) : Bytes :=
  put32 header.magic ++ [header.version, header.type.toByte] ++ put16 header.flags
    ++ put32 header.clientId ++ put64 header.sessionId ++ put32 header.sequence
    ++ put32 header.acknowledgment ++ put32 header.messageId ++ put16 header.fragmentIndex
    ++ put16 header.fragmentCount ++ put16 header.payloadSize ++ put16 header.reserved
    ++ put32 header.tick ++ put32 0

/-- Computes the CRC of an assembled datagram and writes it to bytes 44 to 47. -/
def finalizeCrc (datagram : Bytes) : Bytes :=
  if datagram.length < kHeaderSize then datagram
  else
    let crc := crc32Update 0xFFFFFFFF
      (datagram.take 44 ++ List.replicate 4 0 ++ datagram.drop kHeaderSize)
    datagram.take 44 ++ put32 (crc ^^^ 0xFFFFFFFF) ++ datagram.drop kHeaderSize

def encode (header : PacketHeader) (payload : Bytes) : Bytes :=
  finalizeCrc (encodeHeaderTo header ++ payload)

def decode (p : Bytes) : Option (PacketHeader × Bytes) :=
  if p.length < kHeaderSize then none
  else if get32 p 0 ≠ kMagic then none
  else if p.getD 4 0 ≠ kVersion then none
  else
    let payloadSize := get16 p 36
    let header : PacketHeader := {
      magic := get32 p 0
      version := p.getD 4 0
      type := .ofByte (p.getD 5 0)
      flags := get16 p 6
      clientId := get32 p 8
      sessionId := get64 p 12
      sequence := get32 p 20
      acknowledgment := get32 p 24
      messageId := get32 p 28
      fragmentIndex := get16 p 32
      fragmentCount := get16 p 34
      payloadSize := payloadSize
      reserved := get16 p 38
      tick := get32 p 40
      checksum := get32 p 44 }
    if p.length < kHeaderSize + payloadSize.toNat then none
    else
      -- The CRC is streamed over the header, four zero bytes and the payload.
      let crc := crc32Update 0xFFFFFFFF (p.take 44)
      let crc := crc32Update crc (List.replicate 4 0)
      let payload := (p.drop kHeaderSize).take payloadSize.toNat
      let crc := crc32Update crc payload
      if crc ^^^ 0xFFFFFFFF ≠ header.checksum then none else some (header, payload)

lemma length_encodeHeaderTo (header : PacketHeader) :
    (encodeHeaderTo header).length = kHeaderSize := by
  have h16 : ∀ v, (put16 v).length = 2 := fun _ => rfl
  have h32 : ∀ v, (put32 v).length = 4 := fun _ => rfl
  have h64 : ∀ v, (put64 v).length = 8 := fun _ => rfl
  simp only [encodeHeaderTo, List.length_append, h16, h32, h64, List.length_cons, List.length_nil,
    kHeaderSize]

/-- The payload travels unchanged behind the header. -/
lemma drop_encode (header : PacketHeader) (payload : Bytes) :
    (encode header payload).drop kHeaderSize = payload := by
  have hlen := length_encodeHeaderTo header
  have htake : ((encodeHeaderTo header ++ payload).take 44).length = 44 := by
    rw [List.length_take, List.length_append, hlen, kHeaderSize]
    omega
  have hdrop : (encodeHeaderTo header ++ payload).drop kHeaderSize = payload :=
    List.drop_left' hlen
  rw [encode, finalizeCrc, if_neg (by simp [hlen])]
  simp only [hdrop]
  exact List.drop_left' (by rw [List.length_append, htake]; rfl)

end PacketCodec

end Damen
