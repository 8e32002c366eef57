import At32.Bootloader.Board
import At32.Bootloader.Parser
import At32.Imu.PacketDecode
import At32.Lib.Buffer
import At32.Lib.CrcBurst

/-! The two checksum routines of the repository, crc_update of the bootloader and
crc16_update of the packet decoder, against the polynomial remainder they are to compute,
and the errors that the bootloader's check finds.
-/

namespace At32

open Polynomial

/-- The constant 0x1021 of both routines stands for the generator of the sensor's and the
bootloader's protocols.
-/
theorem generator_0x1021
    : Crc.generator 0x1021 = X ^ 16 + X ^ 12 + X ^ 5 + (1 : (ZMod 2)[X]) := by
  have bits :
      (0x1021 : UInt32).toUInt16.toBitVec
        = BitVec.twoPow 16 12 ^^^ BitVec.twoPow 16 5 ^^^ BitVec.twoPow 16 0 := by
    decide
  rw [Crc.generator, bits, Crc.wordPoly_xor, Crc.wordPoly_xor,
    Crc.wordPoly_twoPow (by decide), Crc.wordPoly_twoPow (by decide),
    Crc.wordPoly_twoPow (by decide), pow_zero, add_assoc, add_assoc, add_assoc]

/-- Whatever is put above bit 15 is cut off again. -/
theorem low_of_joined (low : UInt16) (junk : UInt32)
    : (low.toUInt32 ||| junk <<< 16).toUInt16 = low := by
  apply UInt16.toBitVec_inj.mp
  apply BitVec.eq_of_getLsbD_eq
  intro i inside
  simp [inside]

/-- Both routines compute the remainder of the bytes times X^16, most significant bit first
and from zero. The packet decoder's routine may stop after any part and go on from its
halfword, and what a register holds above bit 15 at that point changes nothing.
-/
theorem checksum_remainder (m h p : List UInt8) (junk : UInt32)
    : Crc.wordPoly (Bootloader.crcUpdate m).toBitVec
        = (Crc.message m * X ^ 16) %ₘ (X ^ 16 + X ^ 12 + X ^ 5 + 1)
      ∧ Imu.crc16Update (Imu.crc16Update 0 h) p = Bootloader.crcUpdate (h ++ p)
      ∧ (Crc.feed 0x1021 ((Bootloader.crcUpdate h).toUInt32 ||| junk <<< 16) p).toUInt16
        = Bootloader.crcUpdate (h ++ p) := by
  constructor
  · rw [← generator_0x1021]
    exact Crc.feed_remainder 0x1021 m
  constructor
  · exact Crc.feed_truncated 0x1021 0 h p
  · rw [Bootloader.crcUpdate, Bootloader.crcUpdate, Crc.feed_append]
    exact Crc.feed_low 0x1021 (low_of_joined _ junk) p

-----------------------------------------------------------------------------------------
-- Errors in a payload
-----------------------------------------------------------------------------------------

namespace Bootloader

/-- The packet with the bits of the error turned over in its first bytes. -/
def FramingPacket.corrupted (fp : FramingPacket) (error : List UInt8) : FramingPacket :=
  { fp with
    data := Buffer.store fp.data 0 (Crc.corrupt (fp.data.toList.take error.length) error) }

/-- The payload of the corrupted packet is the corrupted payload. -/
theorem FramingPacket.corrupted_take (fp : FramingPacket) {error : List UInt8}
    (room : error.length ≤ LENGTH)
    : (fp.corrupted error).data.toList.take error.length
      = Crc.corrupt (fp.data.toList.take error.length) error := by
  have held : (fp.data.toList.take error.length).length = error.length := by
    rw [List.length_take, Vector.length_toList, Nat.min_eq_left room]
  have length := (Crc.corrupt_length held.symm).trans held
  rw [FramingPacket.corrupted, Buffer.toList_store_front _ _ (by rwa [length]),
    List.take_left' length]

/-- A burst of up to sixteen bits in the payload of a packet that matches its check gives
another check value, and the packet is only printed.
-/
theorem checkCrc_burst (ops : BlTestFuncOps) {s : State} {len : UInt16}
    (room : len.toNat ≤ LENGTH) (matched : s.CrcMatches len) {error : List UInt8}
    (covers : error.length = len.toNat) (burst : Crc.Burst 16 error)
    : crcUpdate (s.fp.header ++ (s.fp.corrupted error).data.toList.take len.toNat)
        ≠ crcUpdate (s.fp.header ++ s.fp.data.toList.take len.toNat)
      ∧ ∃ calls,
        checkCrc ops { s with fp := s.fp.corrupted error } len
            = .ok ({ s with fp := s.fp.corrupted error }, calls)
          ∧ ∀ call ∈ calls, call.isPrint := by
  have differs : crcUpdate (s.fp.header ++ (s.fp.corrupted error).data.toList.take len.toNat)
      ≠ crcUpdate (s.fp.header ++ s.fp.data.toList.take len.toNat) := by
    rw [← covers, FramingPacket.corrupted_take s.fp (by rwa [covers])]
    refine Crc.feed_burst (by decide) s.fp.header ?_ burst
    rw [List.length_take, Vector.length_toList, Nat.min_eq_left (by rwa [covers])]
  refine ⟨differs, checkCrc_of_mismatch ops room fun matches' => differs ?_⟩
  exact matches'.trans matched.symm

/-- A data packet of two bytes. -/
def twoBytes : State :=
  .powerOn
    { FramingPacket.zero with
      startByte := FramingPacketType.startByte
      packetType := FramingPacketType.data
      lenLow := 2
      crcLow := 0xAF
      crcHigh := 0x26
      data := Buffer.store FramingPacket.zero.data 0 [0x11, 0x22] }

/-- Two bits on both sides of the border between its bytes. -/
theorem checkCrc_burst_twoBytes
    : crcUpdate
            (twoBytes.fp.header
              ++ (twoBytes.fp.corrupted [1, 0x80]).data.toList.take (UInt16.toNat 2))
        ≠ crcUpdate (twoBytes.fp.header ++ twoBytes.fp.data.toList.take (UInt16.toNat 2))
      ∧ ∃ calls,
        checkCrc blTestFunc { twoBytes with fp := twoBytes.fp.corrupted [1, 0x80] } 2
            = .ok ({ twoBytes with fp := twoBytes.fp.corrupted [1, 0x80] }, calls)
          ∧ ∀ call ∈ calls, call.isPrint :=
  checkCrc_burst blTestFunc (by decide) (by decide +kernel) rfl
    ⟨⟨7, by decide⟩, 7, fun place set => by
      have inside := Crc.bitAt_lt set
      have low : ∀ place < 16, Crc.bitAt [1, 0x80] place = true → 7 ≤ place := by decide
      exact ⟨low place inside set, Nat.lt_trans inside (by decide)⟩⟩

end Bootloader

end At32
