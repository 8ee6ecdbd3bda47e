import Damen.Framework.OrderedMap
import Damen.Properties.Dispatch
import Damen.Properties.SequenceTracking

/-!
# Plaintext on an encrypted link

`handle_packet` decrypts a packet if its header says that it is encrypted; a packet that does not
say so is handled as it is, whether or not a session key is in force.  `plaintext_ignored_iff` gives
the packets that have no effect all the same: those that repeat what is already known, or that the
reassembler and the command channel refuse for their numbers.

The module takes the parts of the handlers one by one: the gap tracking (`trackSequence_still_iff`),
the fragments (`collect_still_iff`) and the command channel (`handle_still_iff`).
-/

namespace Damen

open Std (ExtTreeMap ExtTreeSet LawfulEqCmp)

/-! ## The gap tracking -/

lemma advance_eq_self_iff {recv : ExtTreeSet UInt32} {next : UInt32} :
    advance recv next = (recv, next) ↔ next ∉ recv := by
  constructor
  · intro h
    obtain ⟨-, -, -, hstop, -⟩ := Drain.drain_spec (· + 1) recv.size recv next le_rfl
    rw [← advance, h] at hstop
    exact hstop
  · exact Drain.drain_of_notMem _ _

/-- A cursor that moved would have left a gap behind or taken an element with it. -/
lemma advance_insert_eq_self_iff {recv : ExtTreeSet UInt32} {next seq : UInt32} :
    advance (recv.insert seq) next = (recv, next) ↔ seq ∈ recv ∧ next ∉ recv := by
  constructor
  · intro h
    obtain ⟨k, hcur, hpassed, hstop, hmem⟩ :=
      Drain.drain_spec (· + 1) (recv.insert seq).size (recv.insert seq) next le_rfl
    rw [← advance, h] at hcur hstop hmem
    refine ⟨?_, hstop⟩
    have hinsert : ∀ x, x ∈ recv.insert seq → x = seq ∨ x ∈ recv := fun x hx =>
      (ExtTreeSet.mem_insert.mp hx).imp_left fun heq =>
        (LawfulEqCmp.compare_eq_iff_eq.mp heq).symm
    have hsucc : next + 1 ≠ next := by simp
    rcases k with _ | _ | k
    · exact (hmem seq).mpr ⟨ExtTreeSet.mem_insert_self, by simp⟩
    · exact absurd hcur.symm hsucc
    · have hnext : next = seq := (hinsert _ (hpassed 0 (by omega))).resolve_right hstop
      have hafter :=
        (hinsert _ (hpassed 1 (by omega))).resolve_left fun h => hsucc (h.trans hnext.symm)
      exact absurd rfl (((hmem _).mp hafter).2 1 (by omega))
  · rintro ⟨hseq, hnext⟩
    rw [OrderedMap.set_insert_eq_self_iff.mpr hseq]
    exact advance_eq_self_iff.mpr hnext

namespace Reassembler

lemma noteGaps_eq_self_iff {missing : ExtTreeMap UInt32 TimePoint} {recv : ExtTreeSet UInt32}
    {next seq : UInt32} {now : TimePoint} :
    noteGaps missing recv next seq now = missing ↔
      ∀ g, next ≤ g → g < seq → g ∈ recv ∨ g ∈ missing := by
  constructor
  · intro h g hle hlt
    by_cases hrecv : g ∈ recv
    · exact Or.inl hrecv
    · refine Or.inr ?_
      rw [← h, Tracking.mem_noteGaps]
      exact Or.inr ⟨UInt32.le_iff_toNat_le.mp hle, UInt32.lt_iff_toNat_lt.mp hlt, hrecv⟩
  · intro h
    have hfold : ∀ l : List ℕ, (∀ g ∈ l, UInt32.ofNat g ∈ recv ∨ UInt32.ofNat g ∈ missing) →
        l.foldl (fun m g => if UInt32.ofNat g ∈ recv then m
          else m.insertIfNew (UInt32.ofNat g) now) missing = missing := by
      intro l hl
      induction l with
      | nil => rfl
      | cons g l ih =>
          rw [List.foldl_cons]
          have hsame : (if UInt32.ofNat g ∈ recv then missing
              else missing.insertIfNew (UInt32.ofNat g) now) = missing := by
            split
            · rfl
            · next hg =>
              rw [OrderedMap.insertIfNew_eq_self_iff]
              exact (hl g List.mem_cons_self).resolve_left hg
          rw [hsame]
          exact ih fun g' hg' => hl g' (List.mem_cons_of_mem _ hg')
    refine hfold _ fun g hg => ?_
    obtain ⟨hle, hlt⟩ := List.mem_range'_1.mp hg
    have hseq := seq.toNat_lt
    have hnat : (UInt32.ofNat g).toNat = g := UInt32.toNat_ofNat_of_lt' (by
      show g < 2 ^ 32
      omega)
    refine h _ (UInt32.le_iff_toNat_le.mpr ?_) (UInt32.lt_iff_toNat_lt.mpr ?_) <;> omega

/-- The gap tracking has nothing to record for this sequence. -/
def NothingToTrack (peer : Peer) (seq : UInt32) : Prop :=
  seq = 0 ∨ (peer.seqInitialized = false ∧ peer.nextExpectedSeq = seq + 1) ∨
    (peer.seqInitialized = true ∧ peer.nextExpectedSeq ∉ peer.recvSeqs ∧
      ((peer.nextExpectedSeq ≤ seq ∧ seq ∈ peer.recvSeqs ∧ ∀ g, peer.nextExpectedSeq ≤ g → g < seq →
          g ∈ peer.recvSeqs ∨ g ∈ peer.missingSeqs) ∨
        (seq < peer.nextExpectedSeq ∧ seq ∉ peer.missingSeqs)))

/-- The missing and the received sequence numbers and the next expected one are the same. -/
structure SameGaps (peer peer' : Peer) : Prop where
  missingSeqs : peer'.missingSeqs = peer.missingSeqs
  recvSeqs : peer'.recvSeqs = peer.recvSeqs
  nextExpectedSeq : peer'.nextExpectedSeq = peer.nextExpectedSeq

variable {peer : Peer} {slot : IncomingMessage} {header : PacketHeader}

lemma trackSequence_still_iff {seq : UInt32} {now : TimePoint} :
    SameGaps peer (trackSequence peer seq now) ↔ NothingToTrack peer seq := by
  unfold trackSequence NothingToTrack
  by_cases hzero : seq = 0
  · rw [if_pos hzero]
    exact ⟨fun _ => Or.inl hzero, fun _ => ⟨rfl, rfl, rfl⟩⟩
  rw [if_neg hzero]
  cases hinit : peer.seqInitialized with
  | false =>
      simp only [Bool.false_eq_true, not_false_eq_true, if_true, hzero, false_or, true_and,
        false_and, or_false]
      exact ⟨fun h => h.nextExpectedSeq.symm, fun h => ⟨rfl, rfl, h.symm⟩⟩
  | true =>
      simp only [not_true_eq_false, if_false, hzero, false_or, Bool.true_eq_false, false_and,
        true_and]
      by_cases hle : peer.nextExpectedSeq ≤ seq
      · have hnlt : ¬ seq < peer.nextExpectedSeq := UInt32.not_lt.mpr hle
        simp only [hle, hnlt, true_and, false_and, or_false]
        constructor
        · intro h
          obtain ⟨hseq, hnext⟩ := advance_insert_eq_self_iff.mp
            (Prod.ext h.recvSeqs h.nextExpectedSeq)
          exact ⟨hnext, hseq, noteGaps_eq_self_iff.mp h.missingSeqs⟩
        · rintro ⟨hnext, hseq, hgaps⟩
          have hsame := advance_insert_eq_self_iff.mpr ⟨hseq, hnext⟩
          exact ⟨noteGaps_eq_self_iff.mpr hgaps, congrArg Prod.fst hsame, congrArg Prod.snd hsame⟩
      · have hlt : seq < peer.nextExpectedSeq := UInt32.not_le.mp hle
        simp only [hle, hlt, true_and, false_and, false_or]
        constructor
        · intro h
          exact ⟨advance_eq_self_iff.mp (Prod.ext h.recvSeqs h.nextExpectedSeq),
            OrderedMap.erase_eq_self_iff.mp h.missingSeqs⟩
        · rintro ⟨hnext, hmissing⟩
          have hsame := advance_eq_self_iff.mpr hnext
          exact ⟨OrderedMap.erase_eq_self_iff.mpr hmissing, congrArg Prod.fst hsame,
            congrArg Prod.snd hsame⟩

/-! ## Fragments -/

/-- The fragment does not fit the slot of its message. -/
def Mismatched (slot : IncomingMessage) (header : PacketHeader) : Prop :=
  slot.totalCount ≠ header.fragmentCount ∨ slot.fragments.length ≤ header.fragmentIndex.toNat

/-- The place of the fragment is taken. -/
def Taken (slot : IncomingMessage) (header : PacketHeader) : Prop :=
  (slot.fragments.getD header.fragmentIndex.toNat none).isSome

/-- The fragment leaves the slots alone: it is not admitted, it does not fit, or its place is taken
in a message that cannot be assembled.  A slot of message `0` is opened anew by each of its
fragments; it stays the same if it holds just this one. -/
def NothingToCollect (peer : Peer) (header : PacketHeader) (payload : Bytes) (maxMessageBytes : ℕ)
    (now : TimePoint) : Prop :=
  ¬ Admitted peer header maxMessageBytes ∨
    ∃ slot ∈ peer.incoming[header.messageId]?,
      if slot.messageId = 0 then
        slot = storeFragment (openSlot header now) header payload ∧
          tryAssemble slot maxMessageBytes = .ok none
      else
        Mismatched slot header ∨ (Taken slot header ∧ tryAssemble slot maxMessageBytes = .ok none)

lemma storeFragment_eq_self_iff {payload : Bytes}
    (h : header.fragmentIndex.toNat < slot.fragments.length) :
    storeFragment slot header payload = slot ↔ Taken slot header := by
  unfold storeFragment Taken
  simp only
  split
  · next htaken => exact ⟨fun _ => htaken, fun _ => rfl⟩
  · next hfree =>
    refine ⟨fun heq => ?_, fun htaken => absurd htaken hfree⟩
    have hfragments := congrArg IncomingMessage.fragments heq
    simp only at hfragments
    rw [← hfragments, List.getD_eq_getElem _ _ (by simpa using h)]
    simp

/-- A slot that was just opened for a fragment fits it. -/
lemma not_mismatched_openSlot {maxMessageBytes : ℕ} (h : Admitted peer header maxMessageBytes)
    (now : TimePoint) : ¬ Mismatched (openSlot header now) header := by
  have hidx := UInt16.lt_iff_toNat_lt.mp h.2.2.1
  rintro (hne | hlen)
  · exact hne rfl
  · rw [openSlot] at hlen
    simp only [List.length_replicate] at hlen
    omega

lemma slotFor_of_getElem? (h : peer.incoming[header.messageId]? = some slot) (now : TimePoint) :
    slotFor peer header now = if slot.messageId = 0 then openSlot header now else slot := by
  unfold slotFor
  simp only [ExtTreeMap.getD_eq_getD_getElem?, h, Option.getD_some]

/-- The fragment is neither delivered nor kept. -/
def CollectsNothing (peer : Peer) (header : PacketHeader) (payload : Bytes) (maxMessageBytes : ℕ)
    (now : TimePoint) : Prop :=
  ∃ peer', collect peer header payload maxMessageBytes now = .ok (peer', none) ∧
    peer'.incoming = peer.incoming ∧ peer'.completed = peer.completed

section

variable {peer : Peer} {header : PacketHeader} {payload : Bytes} {maxMessageBytes : ℕ}
  {now : TimePoint}

lemma collectsNothing_of_mismatched (hadm : Admitted peer header maxMessageBytes)
    (h : Mismatched (slotFor peer header now) header) :
    CollectsNothing peer header payload maxMessageBytes now ↔
      peer.incoming[header.messageId]? = some (slotFor peer header now) := by
  unfold Mismatched at h
  unfold CollectsNothing collect
  rw [if_neg (not_not.mpr hadm)]
  simp only [if_pos h]
  constructor
  · rintro ⟨peer', hok, hincoming, -⟩
    obtain ⟨rfl, -⟩ := Prod.mk.inj (Except.ok.inj hok)
    exact OrderedMap.insert_eq_self_iff.mp hincoming
  · intro hslot
    exact ⟨_, rfl, OrderedMap.insert_eq_self_iff.mpr hslot, rfl⟩

lemma collectsNothing_of_fitting (hadm : Admitted peer header maxMessageBytes)
    (h : ¬ Mismatched (slotFor peer header now) header) :
    CollectsNothing peer header payload maxMessageBytes now ↔
      peer.incoming[header.messageId]? =
          some (storeFragment (slotFor peer header now) header payload) ∧
        tryAssemble (storeFragment (slotFor peer header now) header payload) maxMessageBytes =
          .ok none := by
  unfold Mismatched at h
  unfold CollectsNothing collect
  rw [if_neg (not_not.mpr hadm)]
  simp only [if_neg h]
  constructor
  · rintro ⟨peer', hok, hincoming, -⟩
    split at hok
    · exact absurd hok (by simp)
    · next hnone =>
      obtain ⟨rfl, -⟩ := Prod.mk.inj (Except.ok.inj hok)
      exact ⟨OrderedMap.insert_eq_self_iff.mp hincoming, hnone⟩
    · exact absurd (Prod.mk.inj (Except.ok.inj hok)).2 (by simp)
  · rintro ⟨hslot, hnone⟩
    rw [hnone]
    exact ⟨_, rfl, OrderedMap.insert_eq_self_iff.mpr hslot, rfl⟩

lemma collectsNothing_iff :
    CollectsNothing peer header payload maxMessageBytes now ↔
      NothingToCollect peer header payload maxMessageBytes now := by
  by_cases hadm : Admitted peer header maxMessageBytes
  swap
  · refine ⟨fun _ => Or.inl hadm, fun _ => ⟨peer, ?_, rfl, rfl⟩⟩
    rw [collect, if_pos hadm]
  rw [NothingToCollect, or_iff_right (not_not.mpr hadm)]
  cases hslot : peer.incoming[header.messageId]? with
  | none =>
      simp only [Option.not_mem_none, false_and, exists_false, iff_false]
      intro hnothing
      by_cases hfit : Mismatched (slotFor peer header now) header
      · rw [collectsNothing_of_mismatched hadm hfit, hslot] at hnothing
        exact absurd hnothing (by simp)
      · rw [collectsNothing_of_fitting hadm hfit, hslot] at hnothing
        exact absurd hnothing.1 (by simp)
  | some slot =>
      have hfor := slotFor_of_getElem? hslot now
      simp only [Option.mem_some_iff, exists_eq_left']
      split at hfor
      · next hzero =>
        have hfit : ¬ Mismatched (slotFor peer header now) header :=
          hfor ▸ not_mismatched_openSlot hadm now
        rw [if_pos hzero, collectsNothing_of_fitting hadm hfit, hslot, hfor, Option.some.injEq]
        exact and_congr_right fun heq => by rw [← heq]
      · next hne =>
        rw [if_neg hne]
        by_cases hfit : Mismatched (slotFor peer header now) header
        · rw [collectsNothing_of_mismatched hadm hfit, hslot, hfor]
          exact ⟨fun _ => Or.inl (hfor ▸ hfit), fun _ => rfl⟩
        · rw [collectsNothing_of_fitting hadm hfit, hslot, hfor, Option.some.injEq]
          rw [hfor] at hfit
          rw [or_iff_right hfit, eq_comm,
            storeFragment_eq_self_iff (not_le.mp (not_or.mp hfit).2)]
          refine and_congr_right fun htaken => ?_
          rw [(storeFragment_eq_self_iff (not_le.mp (not_or.mp hfit).2)).mpr htaken]

end

end Reassembler

/-! ## The command channel -/

namespace CommandChannel

/-- The command channel refuses the command for its number, or holds it already and goes on
waiting for the ones before it. -/
def NothingToDeliver (peer : Peer) (seq rttUs : UInt32) (now : TimePoint) : Prop :=
  seq = 0 ∨ (peer.cmdInitialized = true ∧ (seq < peer.cmdNextExpected ∨
    (peer.cmdNextExpected < seq ∧ seq ∈ peer.cmdHeld ∧ now - peer.cmdGapSince < maxWait rttUs)))

/-- The state of the command channel is the same. -/
structure SameCommands (peer peer' : Peer) : Prop where
  cmdSeqOut : peer'.cmdSeqOut = peer.cmdSeqOut
  cmdNextExpected : peer'.cmdNextExpected = peer.cmdNextExpected
  cmdInitialized : peer'.cmdInitialized = peer.cmdInitialized
  cmdHeld : peer'.cmdHeld = peer.cmdHeld
  cmdGapSince : peer'.cmdGapSince = peer.cmdGapSince

lemma SameCommands.refl (peer : Peer) : SameCommands peer peer := ⟨rfl, rfl, rfl, rfl, rfl⟩

/-- Draining from a command that is held passes it on. -/
lemma drainHeld_out {held : ExtTreeMap UInt32 Bytes} {next : UInt32} (h : next ∈ held) :
    (drainHeld held.size held next).2.2 ≠ [] := by
  have hsize : held.size ≠ 0 := by
    intro hzero
    rw [ExtTreeMap.eq_empty_iff_size_eq_zero.mpr hzero] at h
    exact ExtTreeMap.not_mem_empty h
  obtain ⟨n, hn⟩ := Nat.exists_eq_succ_of_ne_zero hsize
  obtain ⟨payload, hpayload⟩ := Option.isSome_iff_exists.mp
    (ExtTreeMap.mem_iff_isSome_getElem?.mp h)
  rw [hn, drainHeld, hpayload]
  simp

variable {peer : Peer} {header : PacketHeader}

/-- Commands are held until the wait is over; then the first one at least is passed on. -/
lemma expireLocked_out {seq : UInt32} (hseq : seq ∈ peer.cmdHeld) (rttUs : UInt32)
    (now : TimePoint) :
    (now - peer.cmdGapSince < maxWait rttUs ∧ expireLocked peer rttUs now = (peer, [])) ∨
      (¬ now - peer.cmdGapSince < maxWait rttUs ∧ (expireLocked peer rttUs now).2 ≠ []) := by
  unfold expireLocked
  cases hmin : peer.cmdHeld.minKey? with
  | none =>
      rw [ExtTreeMap.minKey?_eq_none_iff] at hmin
      rw [hmin] at hseq
      exact absurd hseq ExtTreeMap.not_mem_empty
  | some first =>
      by_cases hwait : now - peer.cmdGapSince < maxWait rttUs
      · exact Or.inl ⟨hwait, by simp only [if_pos hwait]⟩
      · refine Or.inr ⟨hwait, ?_⟩
        simp only [if_neg hwait]
        exact drainHeld_out (ExtTreeMap.minKey?_mem hmin)

/-- A command behind a gap is held; the gap is as old as the first command held behind it. -/
lemma handle_gap (payload : Bytes) (rttUs : UInt32) (now : TimePoint) (hzero : header.sequence ≠ 0)
    (hinit : peer.cmdInitialized = true) (hlt : peer.cmdNextExpected < header.sequence) :
    ∃ peer', handle peer header payload rttUs now = expireLocked peer' rttUs now ∧
      peer'.cmdHeld = peer.cmdHeld.insertIfNew header.sequence payload ∧
      (peer.cmdHeld.isEmpty = false →
        SameCommands { peer with cmdHeld := peer'.cmdHeld } peer') := by
  refine ⟨{ (if peer.cmdHeld.isEmpty then { peer with cmdGapSince := now } else peer) with
    cmdHeld := peer.cmdHeld.insertIfNew header.sequence payload }, ?_, rfl, fun hheld => ?_⟩
  · have hnlt : ¬ header.sequence < peer.cmdNextExpected := by
      rw [UInt32.not_lt]
      exact UInt32.le_of_lt hlt
    unfold handle
    simp only [if_neg hzero, hinit, if_true, if_neg hnlt, if_neg (UInt32.ne_of_lt hlt).symm]
    split <;> rfl
  · simp only [hheld, Bool.false_eq_true, if_false]
    exact ⟨rfl, rfl, rfl, rfl, rfl⟩

lemma handle_still_gap {payload : Bytes} {rttUs : UInt32} {now : TimePoint}
    (hzero : header.sequence ≠ 0) (hinit : peer.cmdInitialized = true)
    (hlt : peer.cmdNextExpected < header.sequence) :
    (SameCommands peer (handle peer header payload rttUs now).1 ∧
        (handle peer header payload rttUs now).2 = []) ↔
      header.sequence ∈ peer.cmdHeld ∧ now - peer.cmdGapSince < maxWait rttUs := by
  obtain ⟨peer', heq, hheld, hsame⟩ := handle_gap payload rttUs now hzero hinit hlt
  have hmem : header.sequence ∈ peer'.cmdHeld := by
    rw [hheld]
    exact ExtTreeMap.mem_insertIfNew_self
  have hnonempty : header.sequence ∈ peer.cmdHeld → peer.cmdHeld.isEmpty = false := fun h =>
    ExtTreeMap.isEmpty_eq_false_iff.mpr fun hempty => ExtTreeMap.not_mem_empty (hempty ▸ h)
  rw [heq]
  constructor
  · rintro ⟨hcommands, hout⟩
    rcases expireLocked_out hmem rttUs now with ⟨hwait, hexpire⟩ | ⟨-, hne⟩
    · rw [hexpire] at hcommands
      have hold : header.sequence ∈ peer.cmdHeld := by
        rw [← OrderedMap.insertIfNew_eq_self_iff (v := payload), ← hheld]
        exact hcommands.cmdHeld
      refine ⟨hold, ?_⟩
      rw [(hsame (hnonempty hold)).cmdGapSince] at hwait
      exact hwait
    · exact absurd hout hne
  · rintro ⟨hold, hwait⟩
    have hkept : peer'.cmdHeld = peer.cmdHeld :=
      hheld.trans (OrderedMap.insertIfNew_eq_self_iff.mpr hold)
    have hchannel := hsame (hnonempty hold)
    rcases expireLocked_out hmem rttUs now with ⟨-, hexpire⟩ | ⟨hover, -⟩
    · rw [hexpire]
      exact ⟨⟨hchannel.cmdSeqOut, hchannel.cmdNextExpected, hchannel.cmdInitialized, hkept,
        hchannel.cmdGapSince⟩, rfl⟩
    · rw [hchannel.cmdGapSince] at hover
      exact absurd hwait hover

lemma handle_still_iff (payload : Bytes) {rttUs : UInt32} {now : TimePoint} :
    (SameCommands peer (handle peer header payload rttUs now).1 ∧
        (handle peer header payload rttUs now).2 = []) ↔
      NothingToDeliver peer header.sequence rttUs now := by
  unfold NothingToDeliver
  by_cases hzero : header.sequence = 0
  · rw [handle, if_pos hzero]
    exact ⟨fun _ => Or.inl hzero, fun _ => ⟨SameCommands.refl peer, rfl⟩⟩
  rw [or_iff_right hzero]
  cases hinit : peer.cmdInitialized with
  | false =>
      -- the first command sets the cursor to its own number and is passed on
      simp only [Bool.false_eq_true, false_and, iff_false, not_and]
      intro _ hout
      unfold handle at hout
      simp only [if_neg hzero, hinit, Bool.false_eq_true, if_false, UInt32.lt_irrefl,
        if_true] at hout
      exact absurd hout (by simp)
  | true =>
      simp only [true_and]
      by_cases hlt : header.sequence < peer.cmdNextExpected
      · have hrefused : handle peer header payload rttUs now = (peer, []) := by
          unfold handle
          simp only [if_neg hzero, hinit, if_true, if_pos hlt]
        rw [hrefused]
        exact ⟨fun _ => Or.inl hlt, fun _ => ⟨SameCommands.refl peer, rfl⟩⟩
      rw [or_iff_right hlt]
      by_cases heq : header.sequence = peer.cmdNextExpected
      · rw [heq]
        simp only [UInt32.lt_irrefl, false_and, iff_false, not_and]
        intro _ hout
        unfold handle at hout
        simp only [if_neg hzero, hinit, if_true, if_neg hlt, if_pos heq] at hout
        exact absurd hout (by simp)
      · have hgt : peer.cmdNextExpected < header.sequence :=
          UInt32.lt_of_le_of_ne (UInt32.not_lt.mp hlt) (Ne.symm heq)
        rw [handle_still_gap hzero hinit hgt, and_iff_right hgt]

end CommandChannel

/-! ## Packets -/

namespace Transport

open Reassembler CommandChannel

/-- What is kept of the messages and commands of the peer is the same. -/
structure SameProgress (peer peer' : Peer) : Prop extends SameGaps peer peer',
    SameCommands peer peer' where
  incoming : peer'.incoming = peer.incoming
  completed : peer'.completed = peer.completed

variable {clock : Clock} {peer : Peer} {header : PacketHeader} {payload : Bytes} {cs : CryptoSuite}
  {me : Local} {bw : BandwidthEstimator}

lemma sameProgress_noteSender {peer' : Peer} :
    SameProgress (noteSender clock peer header) peer' ↔ SameProgress peer peer' := by
  constructor <;> intro h <;>
    exact ⟨⟨h.missingSeqs, h.recvSeqs, h.nextExpectedSeq⟩, ⟨h.cmdSeqOut, h.cmdNextExpected,
      h.cmdInitialized, h.cmdHeld, h.cmdGapSince⟩, h.incoming, h.completed⟩

/-- The packet is handled without a fault; it leads to no message or command callback and leaves
what is kept of messages and commands as it is. -/
def Ignored (cs : CryptoSuite) (me : Local) (bw : BandwidthEstimator) (clock : Clock) (peer : Peer)
    (header : PacketHeader) (payload : Bytes) : Prop :=
  ∃ bw' peer' acts, receivePacket cs me bw clock peer header payload = .ok (bw', peer', acts) ∧
    Silent acts ∧ SameProgress peer peer'

/-- The packet brings the reassembler or the command channel nothing new. -/
def BringsNothing (me : Local) (bw : BandwidthEstimator) (clock : Clock) (peer : Peer)
    (header : PacketHeader) (payload : Bytes) : Prop :=
  if header.type = .command then NothingToDeliver peer header.sequence (rttUs bw) clock.now
  else NothingToTrack peer header.sequence ∧
    NothingToCollect peer header payload (maxMessageBytes me.config) clock.now

lemma bookkeep_still_iff (lateMultiplier : Float) {a : Arrival} :
    SameGaps peer (bookkeep lateMultiplier peer a) ↔ NothingToTrack peer a.header.sequence := by
  have hbooked := Tracking.bookkeep_tracking lateMultiplier peer a
  simp only [Tracking.tracking, Prod.mk.injEq] at hbooked
  obtain ⟨-, hnext, hrecv, hmissing⟩ := hbooked
  rw [← trackSequence_still_iff]
  exact ⟨fun h => ⟨hmissing.symm.trans h.1, hrecv.symm.trans h.2, hnext.symm.trans h.3⟩,
    fun h => ⟨hmissing.trans h.1, hrecv.trans h.2, hnext.trans h.3⟩⟩

lemma bookkeep_nothingToCollect {lateMultiplier : Float} {a : Arrival} {limit : ℕ}
    {now : TimePoint} :
    NothingToCollect (bookkeep lateMultiplier peer a) header payload limit now ↔
      NothingToCollect peer header payload limit now := by
  unfold NothingToCollect Admitted
  rw [bookkeep_incoming, bookkeep_completed]

/-- The two parts of `handle_data` write different fields, so each has to stand still. -/
lemma receive_still_iff (lateMultiplier : Float) (limit : ℕ) (peer : Peer) (a : Arrival) :
    (∃ peer', receive lateMultiplier limit peer a = .ok (peer', none) ∧ SameProgress peer peer') ↔
      NothingToTrack peer a.header.sequence ∧
        NothingToCollect peer a.header a.payload limit a.clock.now := by
  rw [← bookkeep_still_iff lateMultiplier, ← bookkeep_nothingToCollect, ← collectsNothing_iff]
  have hframe := bookkeep_frame lateMultiplier peer a
  have hincoming := bookkeep_incoming lateMultiplier peer a
  have hcompleted := bookkeep_completed lateMultiplier peer a
  rw [receive_eq]
  generalize bookkeep lateMultiplier peer a = booked at hframe hincoming hcompleted
  constructor
  · rintro ⟨peer', hok, hsame⟩
    have hcollect := collect_frame hok
    exact ⟨⟨(congrArg Peer.missingSeqs hcollect).symm.trans hsame.missingSeqs,
        (congrArg Peer.recvSeqs hcollect).symm.trans hsame.recvSeqs,
        (congrArg Peer.nextExpectedSeq hcollect).symm.trans hsame.nextExpectedSeq⟩,
      peer', hok, hsame.incoming.trans hincoming.symm, hsame.completed.trans hcompleted.symm⟩
  · rintro ⟨hgaps, peer', hok, hincoming', hcompleted'⟩
    have hcollect := collect_frame hok
    have hcommands : SameCommands peer peer' := by
      rw [hcollect, hframe]
      exact ⟨rfl, rfl, rfl, rfl, rfl⟩
    exact ⟨peer', hok, ⟨(congrArg Peer.missingSeqs hcollect).trans hgaps.missingSeqs,
        (congrArg Peer.recvSeqs hcollect).trans hgaps.recvSeqs,
        (congrArg Peer.nextExpectedSeq hcollect).trans hgaps.nextExpectedSeq⟩, hcommands,
      hincoming'.trans hincoming, hcompleted'.trans hcompleted⟩

lemma receivePacket_plain (htype : carriesPayload header.type = true)
    (hplain : header.flags &&& kFlagEncrypted = 0) :
    receivePacket cs me bw clock peer header payload =
      dispatch cs me bw clock (noteSender clock peer header) header payload := by
  have hneed : needAck header.type = false := by
    cases hcase : header.type <;> rw [hcase] at htype <;>
      first | rfl | exact absurd htype (by simp [carriesPayload])
  have hopen : openPacket cs (noteSender clock peer header) header payload =
      some (header, payload) := by
    rw [openPacket, if_neg (not_not.mpr hplain)]
  unfold receivePacket
  simp only [hopen, hneed, Bool.false_eq_true, if_false]
  split
  · next hdispatch => rw [hdispatch]
  · next hdispatch => rw [hdispatch]

lemma silent_commands_iff {id : Bytes} {ready : List Bytes} :
    Silent (ready.map (.command id)) ↔ ready = [] := by
  constructor
  · intro h
    cases ready with
    | nil => rfl
    | cons payload ready => exact absurd (h _ List.mem_cons_self) (by simp [Action.isCallback])
  · rintro rfl
    exact silent_nil

lemma ignored_command_iff (htype : header.type = .command)
    (hplain : header.flags &&& kFlagEncrypted = 0) :
    Ignored cs me bw clock peer header payload ↔
      NothingToDeliver peer header.sequence (rttUs bw) clock.now := by
  have hdispatch : receivePacket cs me bw clock peer header payload =
      .ok (bw, handleCommand bw clock (noteSender clock peer header) header payload) := by
    rw [receivePacket_plain (by rw [htype]; rfl) hplain, dispatch, htype]
  have hnoted : NothingToDeliver (noteSender clock peer header) header.sequence (rttUs bw)
      clock.now ↔ NothingToDeliver peer header.sequence (rttUs bw) clock.now := Iff.rfl
  rw [← hnoted, ← handle_still_iff payload, Ignored, hdispatch]
  constructor
  · rintro ⟨bw', peer', acts, hok, hsilent, hsame⟩
    obtain ⟨rfl, rfl⟩ := ok_inj hok
    exact ⟨(sameProgress_noteSender.mpr hsame).toSameCommands, silent_commands_iff.mp hsilent⟩
  · rintro ⟨hcommands, hout⟩
    have hframe := commandHandle_frame (noteSender clock peer header) header payload (rttUs bw)
      clock.now
    have hmissing := congrArg Peer.missingSeqs hframe
    have hrecv := congrArg Peer.recvSeqs hframe
    have hnext := congrArg Peer.nextExpectedSeq hframe
    have hincoming := congrArg Peer.incoming hframe
    have hcompleted := congrArg Peer.completed hframe
    exact ⟨bw, _, _, rfl, silent_commands_iff.mpr hout, sameProgress_noteSender.mp
      ⟨⟨hmissing, hrecv, hnext⟩, hcommands, hincoming, hcompleted⟩⟩

lemma ignored_data_iff (htype : header.type = .data ∨ header.type = .parity)
    (hplain : header.flags &&& kFlagEncrypted = 0) :
    Ignored cs me bw clock peer header payload ↔
      NothingToTrack peer header.sequence ∧
        NothingToCollect peer header payload (maxMessageBytes me.config) clock.now := by
  have hdispatch : receivePacket cs me bw clock peer header payload =
      (handleData me bw clock (noteSender clock peer header) header payload).map (Prod.mk bw) := by
    have hcarries : carriesPayload header.type = true := by
      rcases htype with htype | htype <;> rw [htype] <;> rfl
    rw [receivePacket_plain hcarries hplain]
    rcases htype with htype | htype <;>
      cases hhandle : handleData me bw clock (noteSender clock peer header) header payload <;>
      simp only [dispatch, htype, hhandle, Except.map]
  have hreceive : Reassembler.handleData (noteSender clock peer header) header payload (rttUs bw)
      me.config.lateRttMultiplier (maxMessageBytes me.config) clock =
        receive me.config.lateRttMultiplier (maxMessageBytes me.config)
          (noteSender clock peer header) ⟨header, payload, rttUs bw, clock⟩ := rfl
  refine Iff.trans ?_ (receive_still_iff me.config.lateRttMultiplier (maxMessageBytes me.config)
    (noteSender clock peer header) ⟨header, payload, rttUs bw, clock⟩)
  rw [Ignored, hdispatch, handleData, hreceive]
  cases receive me.config.lateRttMultiplier (maxMessageBytes me.config)
    (noteSender clock peer header) ⟨header, payload, rttUs bw, clock⟩ with
  | error fault => simp [Except.map]
  | ok r =>
      obtain ⟨peer', message⟩ := r
      cases message with
      | none =>
          constructor
          · rintro ⟨bw', peer'', acts, hok, -, hsame⟩
            obtain ⟨rfl, -⟩ := ok_inj hok
            exact ⟨peer', rfl, sameProgress_noteSender.mpr hsame⟩
          · rintro ⟨peer'', hok, hsame⟩
            obtain ⟨rfl, -⟩ := Prod.mk.inj (Except.ok.inj hok)
            exact ⟨bw, peer', [], rfl, silent_nil, sameProgress_noteSender.mp hsame⟩
      | some message =>
          constructor
          · rintro ⟨bw', peer'', acts, hok, hsilent, -⟩
            obtain ⟨-, rfl⟩ := ok_inj hok
            exact absurd (hsilent _ List.mem_cons_self) (by simp [Action.isCallback])
          · rintro ⟨peer'', hok, -⟩
            exact absurd (Prod.mk.inj (Except.ok.inj hok)).2 (by simp)

/-- A packet with a message fragment or a command that is not marked as encrypted has no effect
exactly if it brings nothing new.  Neither the configuration nor the session key of the peer
matters. -/
theorem plaintext_ignored_iff (cs : CryptoSuite) (me : Local) (bw : BandwidthEstimator)
    (clock : Clock) (peer : Peer) (header : PacketHeader) (payload : Bytes)
    (htype : carriesPayload header.type = true) (hplain : header.flags &&& kFlagEncrypted = 0) :
    Ignored cs me bw clock peer header payload ↔
      BringsNothing me bw clock peer header payload := by
  unfold BringsNothing
  by_cases hcommand : header.type = .command
  · rw [if_pos hcommand]
    exact ignored_command_iff hcommand hplain
  · rw [if_neg hcommand]
    refine ignored_data_iff ?_ hplain
    cases hcase : header.type <;> rw [hcase] at htype hcommand <;>
      simp [carriesPayload] at htype hcommand ⊢

/-- A command that was delivered before. -/
theorem plaintext_ignored_old_command :
    Ignored noCrypto {} {} ⟨0, 0⟩
      { cryptoReady := true, cmdInitialized := true, cmdNextExpected := 5 }
      { type := .command, sequence := 3 } [9] := by
  refine (plaintext_ignored_iff noCrypto {} {} ⟨0, 0⟩ _ _ [9] rfl (by decide)).mpr ?_
  rw [BringsNothing, if_pos rfl]
  exact Or.inr ⟨rfl, Or.inl (by decide)⟩

/-- A command without encryption is delivered although a session key is in force. -/
theorem plaintext_delivered :
    ¬ ∃ cs, ∀ (me : Local) (bw : BandwidthEstimator) (clock : Clock) (peer : Peer)
      (header : PacketHeader) (payload : Bytes), me.config.encryptionEnabled = true →
        peer.cryptoReady = true → carriesPayload header.type = true →
          header.flags &&& kFlagEncrypted = 0 → Ignored cs me bw clock peer header payload := by
  rintro ⟨cs, h⟩
  have hignored := h {} {} ⟨0, 0⟩ { cryptoReady := true } { type := .command, sequence := 1 } [9]
    rfl rfl rfl (by decide)
  rcases (ignored_command_iff rfl (by decide)).mp hignored with hzero | ⟨hinit, -⟩
  · exact absurd hzero (by decide)
  · exact absurd hinit (by decide)

end Transport
end Damen
