import Damen.Properties.Assembly

/-!
# Malformed groups are delivered

`build_msg` rejects a group whose stream is shorter than its length prefix, or whose prefix declares
more than `max_message_bytes`, by returning an empty byte string.  An empty string is a message like
any other to its two callers: both pass it to `deliver`.

`tryAssemble_eq` takes `try_assemble` apart into the choice of the pieces, from the received
fragments or from recovered ones, and the message built of them.  So a call delivers what
`messageOf` makes of the group it completes (`receive_completed`), and `malformed_dropped_iff`
follows: a run drops the malformed groups only if it completes none.
-/

namespace Damen
namespace Reassembler

open Std (ExtTreeMap)

/-! ## The pieces of a group -/

/-- What the branch of `try_assemble` with data fragments missing passes to `build_msg`. -/
def recoveredPieces (slot : IncomingMessage) (dataFrags : List (Option Bytes))
    (dataCount parityCount : ℕ) : Except Fault (Option (List Bytes)) :=
  let multi := (dataFrags.filter Option.isNone).length
  let width := fragmentWidth slot.fragments
  let parities := receivedParities slot.fragments dataCount parityCount
  if parityCount < multi then .ok none
  else if multi = 0 then .ok none
  else if width = 0 then .ok none
  else if parities.length < multi then .ok none
  else
    match ReedSolomon.decode dataFrags parities width with
    | none => .ok none
    | some dataFrags' =>
        ((List.range dataCount).mapM (restore slot dataFrags' dataCount width).piece).map some

/-- The pieces that `try_assemble` builds a message from, or `none` when the group is not
complete. -/
def assembledPieces (slot : IncomingMessage) : Except Fault (Option (List Bytes)) :=
  if slot.totalCount < 2 then .ok none
  else
    let dataCount := effectiveDataCount slot
    if slot.totalCount.toNat < dataCount then .error .countUnderflow
    else
      match (List.range dataCount).mapM slot.fragmentAt with
      | .error e => .error e
      | .ok dataFrags =>
          if (dataFrags.filter Option.isSome).length = dataCount then
            ((List.range dataCount).mapM slot.piece).map some
          else recoveredPieces slot dataFrags dataCount (slot.totalCount.toNat - dataCount)

/-- `build_msg` is the reading of the pieces followed by `messageOf`. -/
lemma buildMsg_map_some (slot : IncomingMessage) (dataCount maxMessageBytes : ℕ) :
    (buildMsg slot dataCount maxMessageBytes).map some =
      (((List.range dataCount).mapM slot.piece).map some).map
        (Option.map fun pieces => messageOf pieces maxMessageBytes) := by
  rw [buildMsg]
  cases (List.range dataCount).mapM slot.piece <;> rfl

lemma recover_eq (slot : IncomingMessage) (dataFrags : List (Option Bytes))
    (dataCount parityCount maxMessageBytes : ℕ) :
    recover slot dataFrags dataCount parityCount maxMessageBytes =
      (recoveredPieces slot dataFrags dataCount parityCount).map
        (Option.map fun pieces => messageOf pieces maxMessageBytes) := by
  unfold recover recoveredPieces
  simp only
  split_ifs
  · rfl
  · rfl
  · rfl
  · rfl
  · cases ReedSolomon.decode dataFrags (receivedParities slot.fragments dataCount parityCount)
      (fragmentWidth slot.fragments) with
    | none => rfl
    | some dataFrags' => exact buildMsg_map_some _ _ _

lemma tryAssemble_eq (slot : IncomingMessage) (maxMessageBytes : ℕ) :
    tryAssemble slot maxMessageBytes =
      (assembledPieces slot).map (Option.map fun pieces => messageOf pieces maxMessageBytes) := by
  unfold tryAssemble assembledPieces
  simp only
  split_ifs
  · rfl
  · rfl
  · cases (List.range (effectiveDataCount slot)).mapM slot.fragmentAt with
    | error e => rfl
    | ok dataFrags =>
        simp only
        split_ifs
        · exact buildMsg_map_some _ _ _
        · exact recover_eq _ _ _ _ _

/-! ## What a call delivers -/

/-- The pieces of the group that a call of `handle_data` completes. -/
def completedGroup (maxMessageBytes : ℕ) (peer : Peer) (a : Arrival) : Option (List Bytes) :=
  let slot := slotFor peer a.header a.clock.now
  if ¬ Admitted peer a.header maxMessageBytes then none
  else if slot.totalCount ≠ a.header.fragmentCount ∨
      slot.fragments.length ≤ a.header.fragmentIndex.toNat then none
  else (assembledPieces (storeFragment slot a.header a.payload)).toOption.join

/-- The stream of the pieces is shorter than a length prefix, or its prefix declares too much. -/
def Malformed (maxMessageBytes : ℕ) (pieces : List Bytes) : Prop :=
  pieces.flatten.length < 4 ∨ maxMessageBytes < (get32 pieces.flatten 0).toNat

/-- The call completes a malformed group. -/
def CompletesMalformed (maxMessageBytes : ℕ) (peer : Peer) (a : Arrival) : Prop :=
  ∃ pieces, completedGroup maxMessageBytes peer a = some pieces ∧ Malformed maxMessageBytes pieces

/-- A call that completes a malformed group does not invoke `deliver`. -/
def DropsMalformed (lateMultiplier : Float) (maxMessageBytes : ℕ) (peer : Peer) (a : Arrival) :
    Prop :=
  CompletesMalformed maxMessageBytes peer a →
    ∀ peer' o, receive lateMultiplier maxMessageBytes peer a = .ok (peer', o) → o = none

/-- The rejected groups all come out as the empty message. -/
lemma messageOf_malformed {maxMessageBytes : ℕ} {pieces : List Bytes}
    (h : Malformed maxMessageBytes pieces) : messageOf pieces maxMessageBytes = [] := by
  unfold messageOf
  rw [← List.length_flatten]
  by_cases hshort : pieces.flatten.length < 4
  · exact if_pos hshort
  · have hdeclared : get32 (readPrefix pieces 4) 0 = get32 pieces.flatten 0 := by
      refine get32_congr fun i _ hi => ?_
      rw [readPrefix_eq, List.getD_eq_getElem?_getD, List.getElem?_take_of_lt hi,
        List.getD_eq_getElem?_getD]
    simp only [if_neg hshort, hdeclared]
    exact if_pos (h.resolve_left hshort)

/-- A call that completes a group delivers the message built of it. -/
lemma receive_completed {maxMessageBytes : ℕ} {peer : Peer} {a : Arrival} {pieces : List Bytes}
    (lateMultiplier : Float) (h : completedGroup maxMessageBytes peer a = some pieces) :
    ∃ peer', receive lateMultiplier maxMessageBytes peer a =
      .ok (peer', some (messageOf pieces maxMessageBytes)) := by
  unfold completedGroup at h
  rw [receive_eq, collect]
  have hslot : slotFor (bookkeep lateMultiplier peer a) a.header a.clock.now =
      slotFor peer a.header a.clock.now := by
    unfold slotFor
    rw [bookkeep_incoming]
  have hadmitted : Admitted (bookkeep lateMultiplier peer a) a.header maxMessageBytes ↔
      Admitted peer a.header maxMessageBytes := by
    unfold Admitted
    rw [bookkeep_completed]
  simp only [hslot, hadmitted, tryAssemble_eq]
  simp only at h
  split_ifs at h ⊢
  cases hpieces : assembledPieces (storeFragment (slotFor peer a.header a.clock.now) a.header
    a.payload) with
  | error e =>
      rw [hpieces] at h
      exact absurd h (by simp [Except.toOption])
  | ok o =>
      rw [hpieces] at h
      have h : o = some pieces := by simpa [Except.toOption] using h
      rw [h]
      exact ⟨_, rfl⟩

/-- A run of calls drops the malformed groups exactly if it completes none: a call that completes
one delivers it as the empty message. -/
theorem malformed_dropped_iff (lateMultiplier : Float) (maxMessageBytes : ℕ) (peer : Peer)
    (arrivals : List Arrival) :
    (Machine.Along (receive lateMultiplier maxMessageBytes)
        (DropsMalformed lateMultiplier maxMessageBytes) peer arrivals ↔
      Machine.Along (receive lateMultiplier maxMessageBytes)
        (fun p a => ¬ CompletesMalformed maxMessageBytes p a) peer arrivals) ∧
    ∀ p a, CompletesMalformed maxMessageBytes p a →
      ∃ p', receive lateMultiplier maxMessageBytes p a = .ok (p', some []) := by
  have hdelivers : ∀ p a, CompletesMalformed maxMessageBytes p a →
      ∃ p', receive lateMultiplier maxMessageBytes p a = .ok (p', some []) := by
    rintro p a ⟨pieces, hpieces, hmalformed⟩
    obtain ⟨p', hp'⟩ := receive_completed lateMultiplier hpieces
    exact ⟨p', by rw [hp', messageOf_malformed hmalformed]⟩
  refine ⟨?_, hdelivers⟩
  refine Machine.along_congr (I := fun _ => True) (R := fun _ _ => True) (fun p a _ _ => ?_)
    (fun _ _ _ _ _ _ _ _ => trivial) trivial (Machine.along_of_forall (fun _ _ => trivial) _ _)
  constructor
  · intro hdrops hcompletes
    obtain ⟨p', hp'⟩ := hdelivers p a hcompletes
    exact absurd (hdrops hcompletes p' _ hp') (by simp)
  · exact fun hnot hcompletes => absurd hcompletes hnot

/-- The only data fragment of a group of two. -/
def soleFragment (payload : Bytes) : Arrival where
  header := { messageId := 1, flags := 1, fragmentCount := 2
              reserved := UInt16.ofNat payload.length }
  payload := payload

/-- A stream of three bytes, and one that declares a byte more than allowed, are delivered. -/
theorem malformed_delivered :
    ¬ DropsMalformed 4.0 65536 {} (soleFragment [0, 0, 0]) ∧
      ¬ DropsMalformed 4.0 65536 {} (soleFragment [0, 1, 0, 1]) := by
  refine ⟨fun h => ?_, fun h => ?_⟩
  · exact absurd (h ⟨[[0, 0, 0]], rfl, by unfold Malformed; decide⟩ _ _ rfl) (by simp)
  · exact absurd (h ⟨[[0, 1, 0, 1]], rfl, by unfold Malformed; decide⟩ _ _ rfl) (by simp)

end Reassembler
end Damen
