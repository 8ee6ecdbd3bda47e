import Damen.Properties.Admission
import Damen.Properties.WireFormat

/-!
# The nonces of commands

A command is encrypted under the session key with a nonce made of the sender's client id and the
command counter of the peer.  `CommandChannel::reset` sets that counter back to 1, on every accepted
handshake and on every handshake acknowledgement, whether or not the key changes with it.

`command_nonces_unique` says when no nonce is used for two different commands: every packet that
resets the counter leaves a key in force that has encrypted no command yet, and the counter does not
go around.
-/

namespace Damen
namespace Transport

open Std (ExtTreeMap)

/-! ## Commands and handshakes of one peer -/

/-- The event is a command to the peer `x`, or a handshake or its acknowledgement from it. -/
def CommandTraffic (x : Bytes) (ep : Endpoint) : Event → Prop
  | .sendCommand id _ _ => ∀ e ∈ findPeer ep id, e.1 = x
  | .packet addr header _ _ random => peerKey ep addr random = x ∧
      (header.type = .handshake ∨ header.type = .handshakeAck)
  | _ => False

instance (x : Bytes) (ep : Endpoint) : DecidablePred (CommandTraffic x ep)
  | .sendCommand id _ _ => inferInstanceAs (Decidable (∀ e ∈ findPeer ep id, e.1 = x))
  | .packet _ _ _ _ _ => inferInstanceAs (Decidable (_ ∧ _))
  | .tick _ => isFalse id
  | .connect _ _ _ => isFalse id

/-- Key, nonce and plaintext of the calls of `aes256_gcm_encrypt`. -/
def encryptions (acts : List Action) : List (Bytes × Bytes × Bytes) :=
  acts.filterMap fun
    | .encrypt key nonce _ plaintext => some (key, nonce, plaintext)
    | _ => none

/-- The same key and nonce are used for the same plaintext only. -/
def NoncesUnique (l : List (Bytes × Bytes × Bytes)) : Prop :=
  ∀ key nonce plaintext₁ plaintext₂, (key, nonce, plaintext₁) ∈ l → (key, nonce, plaintext₂) ∈ l →
    plaintext₁ = plaintext₂

/-- The packet sets the command counter back. -/
def Resets (me : Local) (header : PacketHeader) (payload : Bytes) : Prop :=
  Accepts me header payload ∨ header.type = .handshakeAck

/-- The public key in a handshake or its acknowledgement. -/
def offeredKey (me : Local) (header : PacketHeader) (payload : Bytes) : Option Bytes :=
  if header.type = .handshake then
    (parseHandshake me.config.encryptionEnabled payload).bind HandshakeFields.publicKey
  else if me.config.encryptionEnabled ∧ 32 ≤ payload.length - 1 then
    some ((payload.drop (payload.length - 1 - 32)).take 32)
  else none

/-- The session key in force behind a packet that sets the counter back. -/
def keyAfter (cs : CryptoSuite) (me : Local) (peer : Peer) (header : PacketHeader)
    (payload : Bytes) : Bytes :=
  match offeredKey me header payload with
  | some pub => (deriveSessionKey cs me peer pub header.clientId).cryptoKey
  | none => peer.cryptoKey

/-- Whenever a packet of the run sets the command counter of `x` back, the key in force behind it
has encrypted nothing yet. -/
def FreshKeys (cs : CryptoSuite) (x : Bytes) (ep : Endpoint) (events : List Event) : Prop :=
  ∀ before ev after, events = before ++ ev :: after → ∀ t outs,
    Machine.run (step cs) ep before = .ok (t, outs) →
      ∀ r ∈ dispatchedTo cs x t ev, Resets t.toLocal r.2.1 r.2.2 →
        ∀ e ∈ encryptions (actionsFor x outs.flatten),
          e.1 ≠ keyAfter cs t.toLocal r.1 r.2.1 r.2.2

def Event.isSendCommand : Event → Bool
  | .sendCommand _ _ _ => true
  | _ => false

/-! ## Encryptions -/

lemma encryptions_append (acts acts' : List Action) :
    encryptions (acts ++ acts') = encryptions acts ++ encryptions acts' :=
  List.filterMap_append

variable {acts : List Action} {clientId : UInt32} {cs : CryptoSuite} {me : Local}
  {peer peer' : Peer} {t t' : Endpoint} {l : List (Bytes × Bytes × Bytes)} {events : List Event}

lemma Routine.encryptions_eq_nil (h : Routine acts) : encryptions acts = [] := by
  rw [encryptions, List.filterMap_eq_nil_iff]
  intro a ha
  have hroutine := h a ha
  cases a <;> first | rfl | exact absurd hroutine (by simp [Action.isRoutine])

lemma encryptions_sendRaw (peer : Peer) (datagram : Bytes) :
    encryptions (sendRaw peer datagram) = [] := (routine_sendRaw peer datagram).encryptions_eq_nil

/-- The nonce of a command. -/
def commandNonce (clientId sequence : UInt32) : Bytes :=
  put32 clientId ++ put32 sequence ++ [PacketType.command.toByte, 0, 0, 0]

lemma commandNonce_injective {seq seq' : UInt32}
    (h : commandNonce clientId seq = commandNonce clientId seq') : seq = seq' := by
  have hread : ∀ s, get32 (commandNonce clientId s) 4 = s := by
    intro s
    have hget := get32_put32 (put32 clientId) [PacketType.command.toByte, 0, 0, 0] s
    rw [length_put32] at hget
    simpa only [commandNonce, List.append_assoc] using hget
  rw [← hread seq, h, hread]

/-- A command is sent as it is, or encrypted under the session key with the nonce of its number. -/
lemma encryptions_command {clock : Clock} {payload datagram : Bytes}
    (h : buildWirePacket cs me peer' (commandHeader me clock peer payload) payload =
      .ok (datagram, acts)) :
    ∀ e ∈ encryptions acts,
      e = (peer'.cryptoKey, commandNonce me.clientId peer.cmdSeqOut, payload) := by
  obtain ⟨wire, body, -, ⟨-, rfl⟩ | ⟨rfl, rfl⟩⟩ := buildWirePacket_cases h
  · exact fun e he => absurd he List.not_mem_nil
  · exact fun e he => List.mem_singleton.mp he

/-! ## Handshakes -/

/-- Session key and command counter are the same. -/
structure SameChannel (peer peer' : Peer) : Prop where
  cryptoKey : peer'.cryptoKey = peer.cryptoKey
  cmdSeqOut : peer'.cmdSeqOut = peer.cmdSeqOut

lemma SameChannel.refl (peer : Peer) : SameChannel peer peer := ⟨rfl, rfl⟩

lemma SameChannel.trans {p q r : Peer} (h : SameChannel p q) (h' : SameChannel q r) :
    SameChannel p r :=
  ⟨h'.cryptoKey.trans h.cryptoKey, h'.cmdSeqOut.trans h.cmdSeqOut⟩

lemma syncClock_cryptoKey (bw : BandwidthEstimator) (peer : Peer) (tick : UInt32)
    (arrivalMs : UInt64) : (syncClock bw peer tick arrivalMs).cryptoKey = peer.cryptoKey := by
  obtain ⟨_, _, _, _, _, hframe⟩ := syncClock_frame bw peer tick arrivalMs
  rw [hframe]

/-- The derived key depends on the peer only where no key can be derived. -/
lemma deriveSessionKey_cryptoKey (h : peer'.cryptoKey = peer.cryptoKey) (pub : Bytes)
    (clientId : UInt32) :
    (deriveSessionKey cs me peer' pub clientId).cryptoKey =
      (deriveSessionKey cs me peer pub clientId).cryptoKey := by
  unfold deriveSessionKey
  split
  · exact h
  · rfl

lemma keyAfter_congr (h : peer'.cryptoKey = peer.cryptoKey) (header : PacketHeader)
    (payload : Bytes) :
    keyAfter cs me peer' header payload = keyAfter cs me peer header payload := by
  unfold keyAfter
  cases offeredKey me header payload with
  | none => exact h
  | some pub => exact deriveSessionKey_cryptoKey h pub _

/-- An accepted handshake leaves the key it offers. -/
lemma handleHandshake_channel (cs : CryptoSuite) (me : Local) (bw : BandwidthEstimator)
    (clock : Clock) (peer : Peer) (header : PacketHeader) (payload : Bytes)
    (htype : header.type = .handshake) :
    SameChannel peer (handleHandshake cs me bw clock peer header payload).1 ∨
      (Accepts me header payload ∧
        (handleHandshake cs me bw clock peer header payload).1.cryptoKey =
          keyAfter cs me peer header payload) := by
  unfold handleHandshake
  cases hparse : parseHandshake me.config.encryptionEnabled payload with
  | none => exact Or.inl (SameChannel.refl peer)
  | some fields =>
      simp only
      by_cases htoken : fields.token ≠ me.config.token
      · rw [if_pos htoken]
        exact Or.inl ⟨rfl, rfl⟩
      · rw [if_neg htoken]
        refine Or.inr ⟨⟨htype, ?_⟩, ?_⟩
        · rw [presentedToken, hparse, Option.map_some, not_not.mp htoken]
        · obtain ⟨_, _, _, _, hanswer⟩ :=
            answerHandshake_frame me clock (adoptHandshake cs me bw clock
            { peer with peerRetransmit := fields.retransmit.getD peer.peerRetransmit }
              header fields)
          rw [hanswer]
          have hoffer : offeredKey me header payload = fields.publicKey := by
            rw [offeredKey, if_pos htype, hparse]
            rfl
          unfold adoptHandshake keyAfter
          rw [hoffer]
          simp only
          cases fields.publicKey with
          | none => exact syncClock_cryptoKey bw _ _ _
          | some pub =>
              refine deriveSessionKey_cryptoKey ?_ pub header.clientId
              exact syncClock_cryptoKey bw _ _ _

lemma readAckTail_cryptoKey (cs : CryptoSuite) (me : Local) (peer : Peer) (header : PacketHeader)
    (payload : Bytes) (htype : header.type = .handshakeAck) :
    (readAckTail cs me peer header payload).cryptoKey = keyAfter cs me peer header payload := by
  have hnot : header.type ≠ .handshake := by
    rw [htype]
    simp
  unfold readAckTail keyAfter offeredKey
  rw [if_neg hnot]
  by_cases hnil : payload = []
  · rw [if_pos hnil, hnil, if_neg (by simp)]
  · rw [if_neg hnil]
    by_cases hroom : me.config.encryptionEnabled ∧ 32 ≤ payload.length - 1
    · simp only [if_pos hroom]
      refine deriveSessionKey_cryptoKey ?_ _ _
      rfl
    · simp only [if_neg hroom]

lemma handleHandshakeAck_channel (cs : CryptoSuite) (me : Local) (bw : BandwidthEstimator)
    (clock : Clock) (peer : Peer) (header : PacketHeader) (payload : Bytes)
    (htype : header.type = .handshakeAck) :
    (handleHandshakeAck cs me bw clock peer header payload).1.cryptoKey =
      keyAfter cs me peer header payload := by
  have hkey : (readAckTail cs me (CommandChannel.reset
      (syncClock bw peer header.tick clock.unixMillis)) header payload).cryptoKey =
      keyAfter cs me peer header payload := by
    rw [readAckTail_cryptoKey cs me _ header payload htype]
    refine keyAfter_congr ?_ header payload
    exact syncClock_cryptoKey bw peer _ _
  unfold handleHandshakeAck
  simp only
  split
  · exact hkey
  · split
    · obtain ⟨_, _, hsend⟩ := sendControl_frame me clock (readAckTail cs me (CommandChannel.reset
        (syncClock bw peer header.tick clock.unixMillis)) header payload) .online [] true
      exact (congrArg Peer.cryptoKey hsend).trans hkey
    · exact hkey

/-- A handshake packet encrypts nothing.  It leaves key and counter alone, or it sets the counter
back. -/
lemma receive_channel {bw bw' : BandwidthEstimator} {clock : Clock} {header : PacketHeader}
    {payload : Bytes} (htype : header.type = .handshake ∨ header.type = .handshakeAck)
    (h : receivePacket cs me bw clock peer header payload = .ok (bw', peer', acts)) :
    encryptions acts = [] ∧ (SameChannel peer peer' ∨
      ∃ header' payload', openPacket cs peer header payload = some (header', payload') ∧
        Resets me header' payload' ∧ peer'.cryptoKey = keyAfter cs me peer header' payload') := by
  rcases receivePacket_ok h with ⟨-, -, rfl, rfl⟩ |
    ⟨header', payload', acts', hopen, hdispatch, hacts⟩
  · exact ⟨rfl, Or.inl ⟨rfl, rfl⟩⟩
  have hneed : needAck header'.type = true := by
    rw [openPacket_type hopen]
    rcases htype with htype | htype <;> rw [htype] <;> rfl
  have hack : encryptions (sendAckPacket me clock peer' header'.sequence) = [] :=
    (routine_sendAckPacket _ _ _ _).encryptions_eq_nil
  rw [hacts, if_pos hneed, encryptions_append, hack, List.append_nil]
  rw [← openPacket_type hopen] at htype
  have hnote : keyAfter cs me (noteSender clock peer header) header' payload' =
      keyAfter cs me peer header' payload' := by
    refine keyAfter_congr ?_ header' payload'
    rfl
  unfold dispatch at hdispatch
  rcases htype with htype | htype
  · rw [htype] at hdispatch
    obtain ⟨rfl, rfl⟩ := ok_inj hdispatch
    refine ⟨(routine_handleHandshake _ _ _ _ _ _ _).encryptions_eq_nil, ?_⟩
    rcases handleHandshake_channel cs me bw clock (noteSender clock peer header) header' payload'
      htype with hsame | ⟨haccept, hkey⟩
    · exact Or.inl ⟨hsame.cryptoKey, hsame.cmdSeqOut⟩
    · exact Or.inr ⟨header', payload', hopen, Or.inl haccept, hkey.trans hnote⟩
  · rw [htype] at hdispatch
    obtain ⟨rfl, rfl⟩ := ok_inj hdispatch
    refine ⟨(handleHandshakeAck_spec _ _ _ _ _ _ _).2.2.encryptions_eq_nil, ?_⟩
    exact Or.inr ⟨header', payload', hopen, Or.inr htype,
      (handleHandshakeAck_channel cs me bw clock _ header' payload' htype).trans hnote⟩

/-! ## Runs -/

/-- The encryptions `l` of a run with `n` calls of `send_command`, seen from the state `t` it
reaches: the nonces under the key in force are at most `n` behind the counter. -/
structure Sealed (x : Bytes) (t : Endpoint) (l : List (Bytes × Bytes × Bytes)) (n : ℕ) : Prop where
  unique : NoncesUnique l
  behind : ∀ peer, t.peers[x]? = some peer → ∀ e ∈ l, e.1 = peer.cryptoKey →
    ∃ i < n, e.2.1 = commandNonce t.clientId (peer.cmdSeqOut - 1 - UInt32.ofNat i)
  absent : t.peers[x]? = none → l = []

lemma sealed_start (x : Bytes) (ep : Endpoint) : Sealed x ep [] 0 where
  unique _ _ _ _ h := absurd h List.not_mem_nil
  behind _ _ _ h := absurd h List.not_mem_nil
  absent _ := rfl

/-- A step that changes neither key nor counter. -/
lemma Sealed.keep {x : Bytes} {n n' : ℕ} (h : Sealed x t l n) (hn : n ≤ n')
    (hlocal : t'.toLocal = t.toLocal) (hpeer : t'.peers[x]? = t.peers[x]?) : Sealed x t' l n' where
  unique := h.unique
  behind peer hp e he hkey := by
    obtain ⟨i, hi, hnonce⟩ := h.behind peer (hpeer.symm.trans hp) e he hkey
    rw [hlocal]
    exact ⟨i, by omega, hnonce⟩
  absent hnone := h.absent (hpeer.symm.trans hnone)

/-- The peer of a packet has key and counter of the peer that is on record. -/
lemma peerFor_sameChannel {x : Bytes} {addr : AddrKey} {random : UInt64}
    (hkey : peerKey t addr random = x) (hpeer : t.peers[x]? = some peer) (now : TimePoint) :
    SameChannel peer (peerFor t addr now random) := by
  have hget : t.peers.getD x {} = peer := by
    rw [ExtTreeMap.getD_eq_getD_getElem?, hpeer, Option.getD_some]
  unfold peerFor
  simp only [hkey, hget]
  split <;> exact ⟨rfl, rfl⟩

/-- A packet from the peer leaves key and counter alone, or a key that has encrypted nothing. -/
lemma Sealed.packet {x : Bytes} {n : ℕ} {addr : AddrKey} {random : UInt64} {now : TimePoint}
    (h : Sealed x t l n) (hkey : peerKey t addr random = x) (hlocal : t'.toLocal = t.toLocal)
    (hpeer' : t'.peers[x]? = some peer')
    (hchannel : SameChannel (peerFor t addr now random) peer' ∨ ∀ e ∈ l, e.1 ≠ peer'.cryptoKey) :
    Sealed x t' l n where
  unique := h.unique
  absent hnone := absurd (hpeer'.symm.trans hnone) (by simp)
  behind peer hp e he heq := by
    obtain rfl := Option.some.inj (hpeer'.symm.trans hp)
    rcases hchannel with hsame | hfresh
    · cases hold : t.peers[x]? with
      | none => exact absurd (h.absent hold ▸ he) List.not_mem_nil
      | some peer =>
          have hchannel := (peerFor_sameChannel hkey hold now).trans hsame
          rw [hlocal, hchannel.cmdSeqOut]
          exact h.behind peer hold e he (heq.trans hchannel.cryptoKey)
    · exact absurd heq (hfresh e he)

/-- A nonce of the past is not the next one, as long as the counter has not gone around. -/
lemma commandNonce_ne_behind {seq : UInt32} {i : ℕ} (hi : i + 1 < 2 ^ 32) :
    commandNonce clientId seq ≠ commandNonce clientId (seq - 1 - UInt32.ofNat i) := by
  intro h
  have hseq := commandNonce_injective h
  have hzero : 1 + UInt32.ofNat i = 0 := by grind
  have hsize : i < UInt32.size := Nat.lt_of_succ_lt hi
  have hnat := congrArg UInt32.toNat hzero
  rw [UInt32.toNat_add, UInt32.toNat_ofNat_of_lt' hsize] at hnat
  simp only [UInt32.reduceToNat] at hnat
  omega

/-- The counter moves on by one. -/
lemma behind_succ (seq : UInt32) (i : ℕ) :
    seq + 1 - 1 - UInt32.ofNat (i + 1) = seq - 1 - UInt32.ofNat i := by
  have hsucc : UInt32.ofNat (i + 1) = UInt32.ofNat i + 1 := UInt32.ofNat_add i 1
  rw [hsucc]
  grind

/-- A command takes the nonce of the counter, which none of the earlier ones has. -/
lemma Sealed.command {x : Bytes} {new : List (Bytes × Bytes × Bytes)} {n : ℕ} (payload : Bytes)
    (h : Sealed x t l n) (hn : n + 1 ≤ 2 ^ 32) (hlocal : t'.toLocal = t.toLocal)
    (hpeer : t.peers[x]? = some peer)
    (hpeer' : t'.peers[x]? = some { peer with cmdSeqOut := peer.cmdSeqOut + 1 })
    (hnew : ∀ e ∈ new, e = (peer.cryptoKey, commandNonce t.clientId peer.cmdSeqOut, payload)) :
    Sealed x t' (l ++ new) (n + 1) where
  absent hnone := absurd (hpeer'.symm.trans hnone) (by simp)
  behind q hq e he hkey := by
    obtain rfl := Option.some.inj (hpeer'.symm.trans hq)
    rw [hlocal]
    rcases List.mem_append.mp he with hold | hlast
    · obtain ⟨i, hi, hnonce⟩ := h.behind peer hpeer e hold hkey
      refine ⟨i + 1, by omega, ?_⟩
      rw [behind_succ, hnonce]
    · refine ⟨0, by omega, ?_⟩
      rw [hnew e hlast, UInt32.add_sub_cancel]
      exact congrArg (commandNonce t.clientId) (UInt32.sub_zero _).symm
  unique := by
    -- a nonce of the past, under the key in force, is not the one of the counter
    have hfresh : ∀ p, (peer.cryptoKey, commandNonce t.clientId peer.cmdSeqOut, p) ∉ l := by
      intro p hmem
      obtain ⟨i, hi, hnonce⟩ := h.behind peer hpeer _ hmem rfl
      exact commandNonce_ne_behind (by omega) hnonce
    intro key nonce p₁ p₂ h₁ h₂
    rcases List.mem_append.mp h₁ with hold₁ | hlast₁ <;>
      rcases List.mem_append.mp h₂ with hold₂ | hlast₂
    · exact h.unique key nonce p₁ p₂ hold₁ hold₂
    · obtain ⟨rfl, hrest⟩ := Prod.mk.inj (hnew _ hlast₂)
      obtain ⟨rfl, -⟩ := Prod.mk.inj hrest
      exact absurd hold₁ (hfresh p₁)
    · obtain ⟨rfl, hrest⟩ := Prod.mk.inj (hnew _ hlast₁)
      obtain ⟨rfl, -⟩ := Prod.mk.inj hrest
      exact absurd hold₂ (hfresh p₂)
    · have heq := (hnew _ hlast₁).trans (hnew _ hlast₂).symm
      exact (Prod.mk.inj (Prod.mk.inj heq).2).2

/-- The number of calls of `send_command` in a run. -/
def commandCalls (events : List Event) : ℕ := events.countP Event.isSendCommand

lemma step_sealed {x : Bytes} {ev : Event} {out : Outputs} {n : ℕ} (h : Sealed x t l n)
    (htraffic : CommandTraffic x t ev)
    (hfresh : ∀ r ∈ dispatchedTo cs x t ev, Resets t.toLocal r.2.1 r.2.2 → ∀ e ∈ l,
      e.1 ≠ keyAfter cs t.toLocal r.1 r.2.1 r.2.2)
    (hn : n + commandCalls [ev] ≤ 2 ^ 32) (hstep : step cs t ev = .ok (t', out)) :
    Sealed x t' (l ++ encryptions (actionsFor x out)) (n + commandCalls [ev]) := by
  have hconnect : ∀ addr clock, ev ≠ .connect x addr clock := by
    rintro addr clock rfl
    exact htraffic
  obtain ⟨hlocal, hview⟩ := step_view hconnect hstep
  cases hview with
  | packet hkey hreceive hpeer' =>
      obtain ⟨hnone, hchannel⟩ := receive_channel htraffic.2 hreceive
      rw [hnone, List.append_nil]
      refine h.packet hkey hlocal hpeer' (hchannel.imp_right ?_)
      rintro ⟨header', payload', hopen, hresets, hkey'⟩
      rw [hkey']
      exact hfresh _ (dispatchedTo_packet hkey hopen) hresets
  | tick => exact absurd htraffic id
  | @command _ payload _ _ _ _ hpeer hstate hbuild hpeer' hout =>
      rw [hout, encryptions_append, encryptions_sendRaw, List.append_nil]
      exact h.command payload hn hlocal hpeer hpeer' (encryptions_command hbuild)
  | dropped => exact absurd htraffic id
  | other hpeer hout =>
      rw [hout]
      exact (List.append_nil l).symm ▸ h.keep (Nat.le_add_right _ _) hlocal hpeer

lemma FreshKeys.left {x : Bytes} {ep : Endpoint} {events' : List Event}
    (h : FreshKeys cs x ep (events ++ events')) : FreshKeys cs x ep events :=
  fun before ev after heq => h before ev (after ++ events') (by rw [heq]; simp)

lemma run_sealed {x : Bytes} {ep : Endpoint} {outs : List Outputs}
    (htraffic : Machine.Along (step cs) (CommandTraffic x) ep events)
    (hfresh : FreshKeys cs x ep events) (hcalls : commandCalls events ≤ 2 ^ 32)
    (hrun : Machine.run (step cs) ep events = .ok (t, outs)) :
    Sealed x t (encryptions (actionsFor x outs.flatten)) (commandCalls events) := by
  induction events using List.reverseRecOn generalizing t outs with
  | nil =>
      obtain ⟨rfl, rfl⟩ := Prod.mk.inj (Except.ok.inj hrun)
      exact sealed_start x ep
  | append_singleton events ev ih =>
      obtain ⟨s, os, out, hprefix, hstep, rfl⟩ := Machine.run_concat_ok.mp hrun
      have hcount : commandCalls (events ++ [ev]) = commandCalls events + commandCalls [ev] :=
        List.countP_append
      rw [hcount] at hcalls ⊢
      have hsealed := ih htraffic.left hfresh.left (by omega) hprefix
      have hlast := Machine.along_iff.mp htraffic events ev [] rfl s os hprefix
      rw [List.flatten_concat, actionsFor_append, encryptions_append]
      exact step_sealed hsealed hlast (hfresh events ev [] rfl s os hprefix) hcalls hstep

/-- No two different commands are encrypted under one key with one nonce, in every run of commands
and handshakes with a peer in which the command counter is only set back together with a change to a
key that has encrypted no command, and which has no more commands than the counter has values. -/
theorem command_nonces_unique (cs : CryptoSuite) (x : Bytes) (ep : Endpoint) (events : List Event)
    (htraffic : Machine.Along (step cs) (CommandTraffic x) ep events)
    (hfresh : FreshKeys cs x ep events) (hcalls : commandCalls events ≤ 2 ^ 32) (t : Endpoint)
    (outs : List Outputs) (hrun : Machine.run (step cs) ep events = .ok (t, outs)) :
    NoncesUnique (encryptions (actionsFor x outs.flatten)) :=
  (run_sealed htraffic hfresh hcalls hrun).unique

/-- An endpoint with one peer, online at the address `1.0.0.0:2` and with this session key. -/
def paired (cryptoKey : Bytes) : Endpoint where
  peers := (∅ : ExtTreeMap Bytes Peer).insert [120]
    { id := [120], addrSet := true, state := .online, cryptoReady := true, cryptoKey }
  peerByAddr := (∅ : ExtTreeMap AddrKey Bytes).insert ⟨1, 2⟩ [120]

/-- A crypto suite that takes the public key of the peer as the session key. -/
def plainKeys : CryptoSuite where
  x25519 _ pub := some pub
  hkdfSha256 shared _ _ := shared
  aes256GcmEncrypt _ _ _ plaintext := (plaintext, [])
  aes256GcmDecrypt _ _ _ _ _ := none

/-- A command, a handshake acknowledgement with a new key, and another command. -/
def rekeyed : List Event :=
  [.sendCommand [120] [1] ⟨0, 0⟩, stray .handshakeAck 1 (List.replicate 33 1),
    .sendCommand [120] [2] ⟨0, 0⟩]

theorem command_nonces_unique_rekeyed :
    ∃ t outs, Machine.run (step plainKeys) (paired (List.replicate 32 0)) rekeyed = .ok (t, outs) ∧
      NoncesUnique (encryptions (actionsFor [120] outs.flatten)) := by
  refine ⟨_, _, rfl, command_nonces_unique plainKeys [120] (paired (List.replicate 32 0)) rekeyed
    (by decide) ?_ (by decide) _ _ rfl⟩
  rintro before ev after heq t outs hrun
  -- only the acknowledgement is dispatched; the two calls have nothing to reset
  rcases before with _ | ⟨e₁, _ | ⟨e₂, _ | ⟨e₃, before⟩⟩⟩ <;>
    simp only [rekeyed, List.nil_append, List.cons_append, List.cons.injEq] at heq
  · obtain ⟨rfl, -⟩ := heq
    exact fun r hr => absurd hr (by simp [dispatchedTo])
  · obtain ⟨rfl, rfl, -⟩ := heq
    obtain ⟨rfl, rfl⟩ := Prod.mk.inj (Except.ok.inj hrun)
    intro r hr _
    obtain rfl := Option.some.inj hr
    exact of_decide_eq_true rfl
  · obtain ⟨-, -, rfl, -⟩ := heq
    exact fun r hr => absurd hr (by simp [dispatchedTo])
  · exact absurd heq.2.2.2 (by simp)

/-- A command, a handshake acknowledgement without a key, and another command. -/
def acknowledgedAgain : List Event :=
  [.sendCommand [120] [1] ⟨0, 0⟩, stray .handshakeAck 2 [], .sendCommand [120] [2] ⟨0, 0⟩]

/-- The acknowledgement sets the counter back under the same key, and the second command is
encrypted with the nonce of the first, for every key and every crypto suite. -/
theorem command_nonce_reused :
    ¬ ∃ cs key, ∀ (x : Bytes) (events : List Event),
      Machine.Along (step cs) (CommandTraffic x) (paired key) events → ∀ t outs,
        Machine.run (step cs) (paired key) events = .ok (t, outs) →
          NoncesUnique (encryptions (actionsFor x outs.flatten)) := by
  rintro ⟨cs, key, h⟩
  have hrun : ∃ t outs, Machine.run (step cs) (paired key) acknowledgedAgain = .ok (t, outs) ∧
      encryptions (actionsFor [120] outs.flatten) =
        [(key, commandNonce 1 1, [1]), (key, commandNonce 1 1, [2])] := ⟨_, _, rfl, rfl⟩
  obtain ⟨t, outs, hrun, hencrypted⟩ := hrun
  have hunique := h [120] acknowledgedAgain (of_decide_eq_true rfl) t outs hrun
  rw [hencrypted] at hunique
  exact absurd (hunique _ _ [1] [2] List.mem_cons_self (by simp)) (by decide)

end Transport
end Damen
