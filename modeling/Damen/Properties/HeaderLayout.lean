import Damen.Framework.BigEndian
import Damen.Properties.Codec

/-!
# The header on the wire

The table of the wire format gives each header field an offset and a size and asks for big-endian
order throughout.  `put16` and `put32` write that order (`put16_eq`, `put32_eq`).  `put64` does not:
`to_be64` reverses the bytes of each half but leaves the halves in place, so on a little-endian host
the low half travels first.  The decoder reads it the same way, and only the table tells.

`header_layout_iff` says for which headers the bytes are those of the table all the same.
-/

namespace Damen

lemma toUInt8_shiftRight32 (v s : UInt32) (hs : s.toNat < 32) :
    (v >>> s).toUInt8 = UInt8.ofNat (v.toNat / 2 ^ s.toNat) := by
  apply UInt8.toNat_inj.mp
  rw [UInt32.toNat_toUInt8, UInt32.toNat_shiftRight, Nat.mod_eq_of_lt hs, Nat.shiftRight_eq_div_pow,
    UInt8.toNat_ofNat']

lemma toUInt8_shiftRight16 (v s : UInt16) (hs : s.toNat < 16) :
    (v >>> s).toUInt8 = UInt8.ofNat (v.toNat / 2 ^ s.toNat) := by
  apply UInt8.toNat_inj.mp
  rw [UInt16.toNat_toUInt8, UInt16.toNat_shiftRight, Nat.mod_eq_of_lt hs, Nat.shiftRight_eq_div_pow,
    UInt8.toNat_ofNat']

lemma getLsbD_byte32 (v s : UInt32) (hs : s.toNat < 32) {i : ℕ} (hi : i < 8) :
    (v >>> s).toUInt8.toBitVec.getLsbD i = v.toBitVec.getLsbD (s.toNat + i) := by
  have hmod : (s.toBitVec % 32).toNat = s.toNat := Nat.mod_eq_of_lt hs
  rw [UInt32.toBitVec_toUInt8, BitVec.getLsbD_setWidth, decide_eq_true hi, Bool.true_and,
    UInt32.toBitVec_shiftRight, BitVec.ushiftRight_eq', BitVec.getLsbD_ushiftRight, hmod]

lemma getLsbD_byte16 (v s : UInt16) (hs : s.toNat < 16) {i : ℕ} (hi : i < 8) :
    (v >>> s).toUInt8.toBitVec.getLsbD i = v.toBitVec.getLsbD (s.toNat + i) := by
  have hmod : (s.toBitVec % 16).toNat = s.toNat := Nat.mod_eq_of_lt hs
  rw [UInt16.toBitVec_toUInt8, BitVec.getLsbD_setWidth, decide_eq_true hi, Bool.true_and,
    UInt16.toBitVec_shiftRight, BitVec.ushiftRight_eq', BitVec.getLsbD_ushiftRight, hmod]

/-- The byte at one end of the reversed word is the byte at the other end of the word. -/
lemma toUInt8_toBe32 (v s t : UInt32) (hs : s.toNat + t.toNat = 24) (hbyte : 8 ∣ s.toNat) :
    (toBe32 v >>> s).toUInt8 = (v >>> t).toUInt8 := by
  apply UInt8.eq_of_toBitVec_eq
  apply BitVec.eq_of_getLsbD_eq
  intro i hi
  rw [getLsbD_byte32 _ _ (by omega) hi, getLsbD_byte32 _ _ (by omega) hi,
    getLsbD_toBe32 _ (by omega)]
  congr 1
  omega

lemma toUInt8_toBe16 (v s t : UInt16) (hs : s.toNat + t.toNat = 8) (hbyte : 8 ∣ s.toNat) :
    (toBe16 v >>> s).toUInt8 = (v >>> t).toUInt8 := by
  apply UInt8.eq_of_toBitVec_eq
  apply BitVec.eq_of_getLsbD_eq
  intro i hi
  rw [getLsbD_byte16 _ _ (by omega) hi, getLsbD_byte16 _ _ (by omega) hi,
    getLsbD_toBe16 _ (by omega)]
  congr 1
  omega

/-- Reversing a word and storing its low byte first stores its high byte first. -/
lemma put32_eq_bytes (v : UInt32) :
    put32 v = [(v >>> 24).toUInt8, (v >>> 16).toUInt8, (v >>> 8).toUInt8, (v >>> 0).toUInt8] := by
  rw [put32, storeLe32, ← toUInt8_toBe32 v 0 24 (by decide) (by decide),
    ← toUInt8_toBe32 v 8 16 (by decide) (by decide),
    ← toUInt8_toBe32 v 16 8 (by decide) (by decide),
    ← toUInt8_toBe32 v 24 0 (by decide) (by decide), UInt32.shiftRight_zero]

lemma put16_eq_bytes (v : UInt16) : put16 v = [(v >>> 8).toUInt8, (v >>> 0).toUInt8] := by
  rw [put16, storeLe16, ← toUInt8_toBe16 v 0 8 (by decide) (by decide),
    ← toUInt8_toBe16 v 8 0 (by decide) (by decide), UInt16.shiftRight_zero]

lemma put32_eq (v : UInt32) : put32 v = BigEndian.encode 4 v.toNat := by
  rw [put32_eq_bytes, toUInt8_shiftRight32 v 24 (by decide), toUInt8_shiftRight32 v 16 (by decide),
    toUInt8_shiftRight32 v 8 (by decide), toUInt8_shiftRight32 v 0 (by decide)]
  rfl

lemma put16_eq (v : UInt16) : put16 v = BigEndian.encode 2 v.toNat := by
  rw [put16_eq_bytes, toUInt8_shiftRight16 v 8 (by decide), toUInt8_shiftRight16 v 0 (by decide)]
  rfl

lemma byte_eq (b : UInt8) : [b] = BigEndian.encode 1 b.toNat := by
  rw [BigEndian.encode, show (List.range 1).reverse = [0] from rfl, List.map_cons, List.map_nil,
    pow_zero, Nat.div_one, UInt8.ofNat_toNat]

lemma put32_injective : Function.Injective put32 := by
  intro v v' h
  have hget := get32_put32 [] [] v
  rw [h] at hget
  exact hget.symm.trans (get32_put32 [] [] v')

/-- Big-endian order of a 64-bit number: the high half first. -/
lemma encode_eight (v : UInt64) :
    BigEndian.encode 8 v.toNat = put32 (v >>> 32).toUInt32 ++ put32 v.toUInt32 := by
  have hhigh : (v >>> 32).toUInt32.toNat = v.toNat / 2 ^ 32 := by
    have hlt := v.toNat_lt
    rw [UInt64.toNat_toUInt32, UInt64.toNat_shiftRight, show (32 : UInt64).toNat % 64 = 32 from rfl,
      Nat.shiftRight_eq_div_pow]
    omega
  have hlow : v.toUInt32.toNat = v.toNat % 2 ^ 32 := UInt64.toNat_toUInt32 v
  rw [put32_eq, put32_eq, hhigh, hlow]
  have hdigit : ∀ k, UInt8.ofNat (v.toNat / 2 ^ 32 / 256 ^ k) =
      UInt8.ofNat (v.toNat / 256 ^ (4 + k)) := by
    intro k
    rw [Nat.div_div_eq_div_mul, show 2 ^ 32 = 256 ^ 4 from rfl, ← pow_add]
  have hrest : ∀ k < 4, UInt8.ofNat (v.toNat % 2 ^ 32 / 256 ^ k) =
      UInt8.ofNat (v.toNat / 256 ^ k) := by
    intro k hk
    apply UInt8.toNat_inj.mp
    rw [UInt8.toNat_ofNat', UInt8.toNat_ofNat']
    interval_cases k <;> omega
  have hsplit : (List.range 8).reverse = (List.range 4).reverse.map (4 + ·) ++
      (List.range 4).reverse := rfl
  rw [BigEndian.encode, hsplit, List.map_append, List.map_map, BigEndian.encode, BigEndian.encode]
  congr 1
  · exact List.map_congr_left fun k _ => (hdigit k).symm
  · exact List.map_congr_left fun k hk =>
      (hrest k (List.mem_range.mp (List.mem_reverse.mp hk))).symm

/-- The order is that of the table exactly if the two halves are the same. -/
lemma put64_eq_iff (v : UInt64) :
    put64 v = BigEndian.encode 8 v.toNat ↔ v.toUInt32 = (v >>> 32).toUInt32 := by
  rw [put64_eq, encode_eight]
  constructor
  · intro h
    exact put32_injective (List.append_inj_left h (by rw [length_put32, length_put32]))
  · intro h
    rw [h]

namespace PacketCodec

/-! ## The table -/

/-- A row of the table, with the value of the field. -/
structure Field where
  offset : ℕ
  width : ℕ
  value : ℕ

/-- The rows in front of the checksum. -/
def documentedFields (header : PacketHeader) : List Field :=
  [⟨0, 4, header.magic.toNat⟩, ⟨4, 1, header.version.toNat⟩, ⟨5, 1, header.type.toByte.toNat⟩,
   ⟨6, 2, header.flags.toNat⟩, ⟨8, 4, header.clientId.toNat⟩, ⟨12, 8, header.sessionId.toNat⟩,
   ⟨20, 4, header.sequence.toNat⟩, ⟨24, 4, header.acknowledgment.toNat⟩,
   ⟨28, 4, header.messageId.toNat⟩, ⟨32, 2, header.fragmentIndex.toNat⟩,
   ⟨34, 2, header.fragmentCount.toNat⟩, ⟨36, 2, header.payloadSize.toNat⟩,
   ⟨38, 2, header.reserved.toNat⟩, ⟨40, 4, header.tick.toNat⟩]

/-- The bytes hold every field of the header where and as the table says. -/
def Documented (header : PacketHeader) (bytes : Bytes) : Prop :=
  ∀ f ∈ documentedFields header, (bytes.drop f.offset).take f.width =
    BigEndian.encode f.width f.value

lemma slice_skip {a q : Bytes} {n m : ℕ} (h : a.length ≤ n) :
    ((a ++ q).drop n).take m = (q.drop (n - a.length)).take m := by
  rw [List.drop_append, List.drop_of_length_le h, List.nil_append]

lemma slice_here {a q : Bytes} {m : ℕ} (h : a.length = m) : ((a ++ q).drop 0).take m = a := by
  rw [List.drop_zero]
  exact List.take_left' h

/-- What stands at the offsets of the table. -/
lemma slices_encodeHeaderTo (header : PacketHeader) :
    Documented header (encodeHeaderTo header) ↔
      put64 header.sessionId = BigEndian.encode 8 header.sessionId.toNat := by
  have hpair : ∀ a b : UInt8, [a, b] = [a] ++ [b] := fun _ _ => rfl
  simp only [Documented, documentedFields, List.forall_mem_cons, List.not_mem_nil, false_implies,
    implies_true, and_true, encodeHeaderTo, List.append_assoc, hpair]
  simp (disch := exact of_decide_eq_true rfl) only [slice_skip, slice_here, length_put32,
    length_put16, length_put64, List.length_cons, List.length_nil, Nat.reduceAdd, Nat.reduceSub]
  simp only [put32_eq, put16_eq, byte_eq, true_and, and_true]

/-- The header is written as the table says exactly if the halves of the session id are the same. -/
theorem header_layout_iff (header : PacketHeader) :
    Documented header (encodeHeaderTo header) ↔
      header.sessionId.toUInt32 = (header.sessionId >>> 32).toUInt32 := by
  rw [slices_encodeHeaderTo, put64_eq_iff]

/-- The session id 1 is written with its low half first. -/
theorem session_id_halves_swapped :
    ¬ Documented { sessionId := 1 } (encodeHeaderTo { sessionId := 1 }) ∧
      ((encodeHeaderTo { sessionId := 1 }).drop 12).take 8 = [0, 0, 0, 1, 0, 0, 0, 0] := by
  refine ⟨fun h => ?_, by decide⟩
  have hrow := h ⟨12, 8, 1⟩ (by simp [documentedFields])
  exact absurd hrow (by decide)

end PacketCodec
end Damen
