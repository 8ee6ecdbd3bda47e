import Damen.Framework.Crc
import Damen.Properties.Codec
import Mathlib.Data.List.GetD

/-!
# Short bursts of errors are rejected

The table-driven update of `crc32.cpp` reads its input as the register of `Framework.Crc` does,
eight bits at a time (`toBitVec_crc32Update`), so two inputs with the same checksum that differ in
at most four consecutive bytes are equal (`eq_of_crc32Update_eq`).

The decoder runs it over the bytes in front of the checksum, four zeros and the payload.  A datagram
and a corrupted one agree in the payload size and in the checksum if the burst hits neither field;
the decoder then computes over inputs that differ where the datagrams differ (`streamOf`), and
rejects the corrupted one (`corruption_rejected`).
-/

namespace Damen

/-! ## The table-driven update is a register -/

/-- The reflected polynomial of `init_crc_table`. -/
def crcPoly : BitVec 32 := 0xEDB88320#32

lemma toBitVec_crcBit (c : UInt32) : (crcBit c).toBitVec = Crc.bit crcPoly c.toBitVec := by
  have hlow : (c &&& 1 ≠ 0) ↔ c.toBitVec.getLsbD 0 = true := by
    rw [ne_eq, ← UInt32.toBitVec_inj, UInt32.toBitVec_and]
    have hone := BitVec.and_one_eq_setWidth_ofBool_getLsbD (x := c.toBitVec)
    rw [show (1 : UInt32).toBitVec = 1#32 from rfl, hone]
    cases c.toBitVec.getLsbD 0 <;> decide
  unfold crcBit Crc.bit
  by_cases h : c &&& 1 ≠ 0
  · rw [if_pos h, if_pos (hlow.mp h)]
    rfl
  · rw [if_neg h, if_neg (mt hlow.mpr h)]
    rfl

lemma toBitVec_crcBits (n : ℕ) (c : UInt32) :
    (crcBit^[n] c).toBitVec = (Crc.bit crcPoly)^[n] c.toBitVec := by
  induction n generalizing c with
  | zero => rfl
  | succ n ih => rw [Function.iterate_succ_apply, ih, toBitVec_crcBit, Function.iterate_succ_apply]

lemma getD_crcTable {i : ℕ} (h : i < 256) : crcTable.getD i 0 = crcBit^[8] (UInt32.ofNat i) := by
  rw [crcTable, List.getD_eq_getElem _ _ (by simpa using h), List.getElem_map, List.getElem_range]

/-- One table lookup clocks a byte through the register. -/
lemma toBitVec_crcStep (c : UInt32) (b : UInt8) :
    (crcTable.getD ((c ^^^ b.toUInt32) &&& 0xFF).toNat 0 ^^^ (c >>> 8)).toBitVec =
      Crc.feed crcPoly c.toBitVec b.toBitVec := by
  have hmask : ((c ^^^ b.toUInt32) &&& 0xFF).toBitVec =
      ((c ^^^ b.toUInt32).toBitVec.setWidth 8).setWidth 32 := by
    apply BitVec.eq_of_getLsbD_eq
    intro i hi
    have hff : (0xFF : UInt32).toBitVec.getLsbD i = decide (i < 8) := by
      rw [show (0xFF : UInt32).toBitVec = BitVec.setWidth 32 (BitVec.allOnes 8) from rfl,
        BitVec.getLsbD_setWidth, BitVec.getLsbD_allOnes]
      simp [hi]
    simp only [UInt32.toBitVec_and, BitVec.getLsbD_and, hff, BitVec.getLsbD_setWidth, hi,
      decide_true, Bool.true_and, Bool.and_comm]
  have hlt : ((c ^^^ b.toUInt32) &&& 0xFF).toNat < 256 := by
    have hand := UInt32.toNat_and (c ^^^ b.toUInt32) 0xFF
    rw [hand]
    exact lt_of_le_of_lt Nat.and_le_right (by decide)
  have hhigh : (c ^^^ b.toUInt32).toBitVec >>> 8 = c.toBitVec >>> 8 := by
    have hbyte : b.toBitVec.setWidth 32 >>> 8 = 0#32 := by
      apply BitVec.eq_of_getLsbD_eq
      intro i _
      rw [BitVec.getLsbD_ushiftRight, BitVec.getLsbD_setWidth,
        BitVec.getLsbD_of_ge b.toBitVec _ (by omega)]
      simp
    rw [UInt32.toBitVec_xor, UInt8.toBitVec_toUInt32, BitVec.ushiftRight_xor_distrib, hbyte,
      BitVec.xor_zero]
  have hfeed : Crc.feed crcPoly c.toBitVec b.toBitVec =
      (Crc.bit crcPoly)^[8] (c ^^^ b.toUInt32).toBitVec := rfl
  rw [UInt32.toBitVec_xor, getD_crcTable hlt, UInt32.ofNat_toNat, toBitVec_crcBits, hmask, hfeed,
    Crc.bits_split crcPoly 8 (c ^^^ b.toUInt32).toBitVec, hhigh]
  rfl

lemma toBitVec_crc32Update (c : UInt32) (data : Bytes) :
    (crc32Update c data).toBitVec = Crc.read crcPoly c.toBitVec (data.map UInt8.toBitVec) := by
  induction data generalizing c with
  | nil => rfl
  | cons b data ih =>
      have hstep := ih (crcTable.getD ((c ^^^ b.toUInt32) &&& 0xFF).toNat 0 ^^^ (c >>> 8))
      rw [toBitVec_crcStep] at hstep
      exact hstep

/-! ## Bursts -/

/-- The two byte strings are equally long and differ in at most the four bytes from `start` on. -/
def Burst (start : ℕ) (d d' : Bytes) : Prop :=
  d'.length = d.length ∧ ∀ i, d.getD i 0 ≠ d'.getD i 0 → start ≤ i ∧ i < start + 4

/-- Cut at the burst, two strings have the same parts in front of it and behind it. -/
lemma Burst.parts {start : ℕ} {d d' : Bytes} (h : Burst start d d') :
    d'.take start = d.take start ∧ d'.drop (start + 4) = d.drop (start + 4) := by
  obtain ⟨hlen, hdiff⟩ := h
  have heq : ∀ i (hi : i < d.length) (hi' : i < d'.length), ¬ (start ≤ i ∧ i < start + 4) →
      d'[i] = d[i] := by
    intro i hi hi' hout
    have hsame := not_not.mp (mt (hdiff i) hout)
    rw [List.getD_eq_getElem _ _ hi, List.getD_eq_getElem _ _ hi'] at hsame
    exact hsame.symm
  constructor
  · refine List.ext_getElem (by simp [hlen]) fun i hi hi' => ?_
    rw [List.length_take] at hi hi'
    rw [List.getElem_take, List.getElem_take]
    exact heq i (by omega) (by omega) (by omega)
  · refine List.ext_getElem (by simp [hlen]) fun i hi hi' => ?_
    rw [List.length_drop] at hi hi'
    rw [List.getElem_drop, List.getElem_drop]
    exact heq _ (by omega) (by omega) (by omega)

lemma append_parts (d : Bytes) (start : ℕ) :
    d.take start ++ (d.drop start).take 4 ++ d.drop (start + 4) = d := by
  rw [List.append_assoc, ← List.drop_drop, List.take_append_drop, List.take_append_drop]

/-- A burst of at most four bytes changes the checksum. -/
lemma eq_of_crc32Update_eq {start : ℕ} {d d' : Bytes} {c : UInt32} (hburst : Burst start d d')
    (h : crc32Update c d' = crc32Update c d) : d' = d := by
  obtain ⟨hfront, hback⟩ := hburst.parts
  have hread := congrArg UInt32.toBitVec h
  rw [toBitVec_crc32Update, toBitVec_crc32Update] at hread
  rw [← append_parts d' start, ← append_parts d start, hfront, hback] at hread ⊢
  simp only [List.map_append] at hread
  have hlen : ((d'.drop start).take 4).length = ((d.drop start).take 4).length := by
    simp [hburst.1]
  have hwindow : ((d'.drop start).take 4).map UInt8.toBitVec =
      ((d.drop start).take 4).map UInt8.toBitVec := by
    refine Crc.eq_of_read_eq (by decide) (by simpa using hlen) ?_ hread
    rw [List.length_map, List.length_take]
    omega
  rw [List.map_injective_iff.mpr (fun _ _ => UInt8.toBitVec_inj.mp) hwindow]

namespace PacketCodec

/-! ## Datagrams -/

/-- What the decoder runs the CRC over, for a payload of `size` bytes. -/
def streamOf (size : ℕ) (d : Bytes) : Bytes :=
  d.take 44 ++ List.replicate 4 0 ++ (d.drop kHeaderSize).take size

/-- The stretches of a datagram whose bytes a burst may hit: the header up to the payload size, the
rest of it up to the checksum, and the payload. -/
def stretches (size : ℕ) : List (ℕ × ℕ) := [(0, 36), (38, 44), (48, 48 + size)]

/-- The decoder's input has the bytes of the datagram, but for the checksum. -/
lemma getD_streamOf {size i : ℕ} {d : Bytes} (hlen : kHeaderSize + size ≤ d.length) :
    (streamOf size d).getD i 0 = if i < 44 ∨ 48 ≤ i ∧ i < 48 + size then d.getD i 0 else 0 := by
  rw [kHeaderSize] at hlen
  simp only [streamOf, kHeaderSize, List.getD_eq_getElem?_getD, List.getElem?_append,
    List.length_append, List.length_take, List.length_replicate, List.getElem?_take,
    List.getElem?_drop, List.getElem?_replicate, Nat.min_eq_left (show 44 ≤ d.length by omega)]
  split_ifs <;> first
    | rfl
    | omega
    | (congr 2; omega)

lemma length_streamOf {size : ℕ} {d : Bytes} (hlen : kHeaderSize + size ≤ d.length) :
    (streamOf size d).length = 48 + size := by
  rw [kHeaderSize] at hlen
  simp only [streamOf, kHeaderSize, List.length_append, List.length_take, List.length_replicate,
    List.length_drop]
  omega

/-- A datagram that was accepted is rejected after a burst of at most four bytes that hits neither
the payload size nor the checksum. -/
theorem corruption_rejected (d d' : Bytes) (header : PacketHeader) (payload : Bytes)
    (haccepted : decode d = some (header, payload)) (start : ℕ) (hburst : Burst start d d')
    (hdiffer : d' ≠ d) (stretch : ℕ × ℕ) (hstretch : stretch ∈ stretches header.payloadSize.toNat)
    (hinside : ∀ i, d.getD i 0 ≠ d'.getD i 0 → stretch.1 ≤ i ∧ i < stretch.2) :
    decode d' = none := by
  refine Option.eq_none_iff_forall_ne_some.mpr fun ⟨header', payload'⟩ haccepted' => hdiffer ?_
  obtain ⟨rfl, rfl, -, -, hlen, hsum⟩ := decode_eq_some_iff.mp haccepted
  obtain ⟨rfl, rfl, -, -, hlen', hsum'⟩ := decode_eq_some_iff.mp haccepted'
  have hcases : ∀ i, d.getD i 0 ≠ d'.getD i 0 →
      i < 36 ∨ 38 ≤ i ∧ i < 44 ∨ 48 ≤ i ∧ i < 48 + (headerOf d).payloadSize.toNat := by
    intro i hi
    have hbounds := hinside i hi
    simp only [stretches, List.mem_cons, List.not_mem_nil, or_false] at hstretch
    rcases hstretch with rfl | rfl | rfl <;> simp only at hbounds <;> omega
  have hsame : ∀ i, (36 ≤ i ∧ i < 38 ∨ 44 ≤ i ∧ i < 48) → d'.getD i 0 = d.getD i 0 := by
    intro i hi
    by_contra hne
    have := hcases i (Ne.symm hne)
    omega
  have hsize : (headerOf d').payloadSize = (headerOf d).payloadSize :=
    get16_congr fun i h₁ h₂ => hsame i (by omega)
  have hchecksum : (headerOf d').checksum = (headerOf d).checksum :=
    get32_congr fun i h₁ h₂ => hsame i (by omega)
  rw [hsize] at hlen' hsum'
  have hcrc : crc32Update 0xFFFFFFFF (streamOf (headerOf d).payloadSize.toNat d') =
      crc32Update 0xFFFFFFFF (streamOf (headerOf d).payloadSize.toNat d) := by
    rw [hchecksum, ← hsum] at hsum'
    exact (UInt32.xor_left_inj _).mp hsum'
  have hstreamBurst : Burst start (streamOf (headerOf d).payloadSize.toNat d)
      (streamOf (headerOf d).payloadSize.toNat d') := by
    refine ⟨?_, fun i hi => ?_⟩
    · rw [length_streamOf hlen', length_streamOf hlen]
    · rw [getD_streamOf hlen, getD_streamOf hlen'] at hi
      refine hburst.2 i fun heq => hi ?_
      rw [heq]
  have hstreams : streamOf (headerOf d).payloadSize.toNat d' =
      streamOf (headerOf d).payloadSize.toNat d := eq_of_crc32Update_eq hstreamBurst hcrc
  refine List.ext_getElem hburst.1 fun i hi hi' => ?_
  rw [← List.getD_eq_getElem d' 0 hi, ← List.getD_eq_getElem d 0 hi']
  by_contra hne
  have hstream : (streamOf (headerOf d).payloadSize.toNat d').getD i 0 =
      (streamOf (headerOf d).payloadSize.toNat d).getD i 0 := by rw [hstreams]
  have hposition := hcases i (Ne.symm hne)
  rw [getD_streamOf hlen, getD_streamOf hlen', if_pos (by omega), if_pos (by omega)] at hstream
  exact hne hstream

/-- A flipped byte of the payload. -/
theorem corruption_rejected_byte :
    decode ((encode { magic := kMagic, version := kVersion, payloadSize := 1 } [7]).set 48 8) =
      none := by
  obtain ⟨checksum, haccepted⟩ :=
    decode_encode { magic := kMagic, version := kVersion, payloadSize := 1 } [7] rfl rfl rfl
  have hdrop := drop_encode { magic := kMagic, version := kVersion, payloadSize := 1 } [7]
  generalize encode { magic := kMagic, version := kVersion, payloadSize := 1 } [7] = d at *
  have hdiff : ∀ i, d.getD i 0 ≠ (d.set 48 8).getD i 0 → i = 48 := by
    intro i hi
    by_contra hne
    rw [List.getD_eq_getElem?_getD, List.getD_eq_getElem?_getD,
      List.getElem?_set_ne (Ne.symm hne)] at hi
    exact hi rfl
  refine corruption_rejected d (d.set 48 8) _ [7] haccepted 48 ⟨List.length_set, fun i hi => ?_⟩ ?_
    (48, 49) (show (48, 49) ∈ stretches 1 by decide) fun i hi => ?_
  · rw [hdiff i hi]
    decide
  · intro heq
    have hdrop' := congrArg (List.drop kHeaderSize) heq
    rw [kHeaderSize, List.drop_set, ← kHeaderSize, hdrop] at hdrop'
    exact absurd hdrop' (by decide)
  · rw [hdiff i hi]
    decide

end PacketCodec
end Damen
