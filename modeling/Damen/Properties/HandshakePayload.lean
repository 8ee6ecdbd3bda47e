import Damen.Model.Gcm
import Damen.Properties.Dispatch

/-!
# What a handshake payload carries

`send_handshake` writes role, id with its length, token, public key and flag byte one after the
other, and only the id has a length.  `handle_handshake` reads the others from the end: the flag
byte, then the key if encryption is on, and takes what is left between them and the id for the
token.  Between two ends with the same setting nothing is ambiguous, whatever bytes the token has
(`handshake_round_trip`).

The flag byte is applied as soon as it is read.  `rejected_handshake_iff`: a handshake with the
wrong token leaves the peer as it was exactly if it announces what is known already.
-/

namespace Damen
namespace Transport

/-! ## Reading back -/

/-- The fields that an end sends. -/
def sentFields (sender : Local) : HandshakeFields where
  role := sender.config.role.toByte
  id := sender.config.id
  retransmit := some sender.config.retransmitEnabled
  publicKey := if sender.config.encryptionEnabled then some sender.keypair.publicKey else none
  token := sender.config.token

lemma toNat_size_bytes {n : ℕ} (h : n ≤ 65535) :
    (UInt8.ofNat (n / 256)).toNat * 256 + (UInt8.ofNat n).toNat = n := by
  have hbyte : ∀ k : ℕ, (UInt8.ofNat k).toNat = k % 256 := fun _ => UInt8.toNat_ofNat'
  rw [hbyte, hbyte]
  omega

lemma flagByte_announces (config : TightConfig) :
    (flagByte config &&& 1 != 0) = config.retransmitEnabled := by
  unfold flagByte
  cases config.retransmitEnabled <;> rfl

lemma length_publicKeyField (me : Local) :
    (publicKeyField me).length = if me.config.encryptionEnabled then 32 else 0 := by
  unfold publicKeyField
  split
  · exact me.keypair.length_publicKey
  · rfl

/-- The parts of a payload, from both ends. -/
lemma parseHandshake_append (encryptionEnabled : Bool) (role high low flag : UInt8)
    (id token key : Bytes) (hsize : high.toNat * 256 + low.toNat = id.length)
    (hkey : key.length = if encryptionEnabled then 32 else 0) :
    parseHandshake encryptionEnabled ([role, high, low] ++ id ++ (token ++ (key ++ [flag]))) =
      some
        { role, id, token
          retransmit := some (flag &&& 1 != 0)
          publicKey := if encryptionEnabled then some key else none } := by
  generalize hpayload : [role, high, low] ++ id ++ (token ++ (key ++ [flag])) = payload
  have hlength : payload.length = 3 + id.length + token.length + key.length + 1 := by
    rw [← hpayload]
    simp only [List.length_append, List.length_cons, List.length_nil]
    omega
  have hid : (payload.drop 3).take id.length = id := by
    rw [← hpayload, List.append_assoc]
    exact List.take_left
  have hrest : payload.drop (3 + id.length) = token ++ (key ++ [flag]) := by
    rw [← hpayload]
    exact List.drop_left' (by rw [List.length_append]; rfl)
  have hkeyStart : payload.drop (3 + id.length + token.length) = key ++ [flag] := by
    rw [← List.drop_drop, hrest]
    exact List.drop_left
  have hflag : payload.getD (payload.length - 1) 0 = flag := by
    have hlast : payload.drop (payload.length - 1) = [flag] := by
      rw [hlength, Nat.add_sub_cancel, ← List.drop_drop, hkeyStart]
      exact List.drop_left
    rw [List.getD_eq_getElem?_getD, ← Nat.add_zero (payload.length - 1),
      ← List.getElem?_drop, hlast]
    rfl
  have hbytes : payload.getD 0 0 = role ∧ payload.getD 1 0 = high ∧ payload.getD 2 0 = low := by
    rw [← hpayload]
    exact ⟨rfl, rfl, rfl⟩
  unfold parseHandshake
  simp only [hbytes, hsize]
  have hflags : 3 + id.length < payload.length := by omega
  rw [if_neg (by omega), if_neg (by omega)]
  simp only [hflags, if_true, hid, hflag]
  have htoken : (token ++ (key ++ [flag])).take (3 + id.length + token.length - 3 - id.length) =
      token := by
    rw [Nat.add_assoc, Nat.add_sub_cancel_left, Nat.add_sub_cancel_left, List.take_left]
  cases encryptionEnabled with
  | true =>
      rw [if_pos rfl] at hkey
      have hroom : 3 + id.length + 32 ≤ payload.length - 1 := by omega
      have hstart : payload.length - 1 - 32 = 3 + id.length + token.length := by omega
      have htake : (key ++ [flag]).take 32 = key := List.take_left' hkey
      simp only [hroom, and_self, if_true, hstart, hkeyStart, htake, hrest, htoken]
  | false =>
      rw [if_neg Bool.false_ne_true] at hkey
      have hend : payload.length - 1 = 3 + id.length + token.length := by omega
      simp only [Bool.false_eq_true, false_and, if_false, hend, hrest, htoken]

/-- What was sent is read back. -/
lemma parseHandshake_handshakePayload {sender : Local} (hid : sender.config.id.length ≤ 65535) :
    parseHandshake sender.config.encryptionEnabled (handshakePayload sender) =
      some (sentFields sender) := by
  have hpayload : handshakePayload sender =
      [sender.config.role.toByte, UInt8.ofNat (sender.config.id.length / 256),
        UInt8.ofNat sender.config.id.length] ++ sender.config.id ++
          (sender.config.token ++ (publicKeyField sender ++ [flagByte sender.config])) := by
    unfold handshakePayload
    simp only [min_eq_left hid, List.take_length, List.append_assoc]
  rw [hpayload, parseHandshake_append _ _ _ _ _ _ _ _ (toNat_size_bytes hid)
    (length_publicKeyField sender), flagByte_announces]
  unfold sentFields publicKeyField
  split <;> rfl

/-! ## What is taken over -/

/-- What a handshake settles with a peer. -/
structure Terms where
  id : Bytes
  role : LinkRole
  retransmit : Bool
  cryptoKey : Bytes
  cryptoReady : Bool

def termsOf (peer : Peer) : Terms :=
  ⟨peer.id, peer.role, peer.peerRetransmit, peer.cryptoKey, peer.cryptoReady⟩

lemma termsOf_syncClock (bw : BandwidthEstimator) (peer : Peer) (tick : UInt32)
    (arrivalMs : UInt64) :
    termsOf (syncClock bw peer tick arrivalMs) = termsOf peer := by
  obtain ⟨_, _, _, _, _, hframe⟩ := syncClock_frame bw peer tick arrivalMs
  rw [hframe]
  rfl

lemma termsOf_answerHandshake (me : Local) (clock : Clock) (peer : Peer) :
    termsOf (answerHandshake me clock peer).1 = termsOf peer := by
  obtain ⟨_, _, _, _, hframe⟩ := answerHandshake_frame me clock peer
  rw [hframe]
  rfl

lemma termsOf_deriveSessionKey (cs : CryptoSuite) (me : Local) {peer peer' : Peer} (key : Bytes)
    (clientId : UInt32) (h : termsOf peer = termsOf peer') :
    termsOf (deriveSessionKey cs me peer key clientId) =
      termsOf (deriveSessionKey cs me peer' key clientId) := by
  unfold deriveSessionKey
  cases cs.x25519 me.keypair.privateKey key with
  | none => exact h
  | some shared =>
      obtain ⟨hid, hrole, hretransmit, -, -⟩ := Terms.mk.inj h
      simp only [termsOf, hid, hrole, hretransmit]

/-- The terms that an end announces: its id, if it has one, its role, whether it retransmits, and
with encryption the key agreed upon. -/
def announcedTerms (cs : CryptoSuite) (receiver : Local) (peer : Peer) (header : PacketHeader)
    (sender : Local) : Terms :=
  let named := { peer with
    id := if sender.config.id = [] then peer.id else sender.config.id
    role := sender.config.role
    peerRetransmit := sender.config.retransmitEnabled }
  termsOf (if sender.config.encryptionEnabled then
    deriveSessionKey cs receiver named sender.keypair.publicKey header.clientId else named)

lemma termsOf_adoptHandshake (cs : CryptoSuite) (receiver : Local) (bw : BandwidthEstimator)
    (clock : Clock) (peer : Peer) (header : PacketHeader) (sender : Local) :
    termsOf (adoptHandshake cs receiver bw clock
        { peer with peerRetransmit := sender.config.retransmitEnabled } header
          (sentFields sender)) =
      announcedTerms cs receiver peer header sender := by
  have hrole : (if sender.config.role.toByte = LinkRole.node.toByte then LinkRole.node else .leaf) =
      sender.config.role := by
    cases sender.config.role <;> rfl
  have hsync := termsOf_syncClock bw { peer with peerRetransmit := sender.config.retransmitEnabled }
    header.tick clock.unixMillis
  simp only [termsOf, Terms.mk.injEq] at hsync
  -- the peer before the key is derived, with the clock synced and the command channel reset
  generalize hsynced : syncClock bw { peer with peerRetransmit := sender.config.retransmitEnabled }
    header.tick clock.unixMillis = synced at hsync
  have hnamed : termsOf { CommandChannel.reset synced with
        id := if 0 < sender.config.id.length then sender.config.id else synced.id
        role := if sender.config.role.toByte = LinkRole.node.toByte then .node else .leaf } =
      termsOf { peer with
        id := if sender.config.id = [] then peer.id else sender.config.id
        role := sender.config.role
        peerRetransmit := sender.config.retransmitEnabled } := by
    rw [hrole]
    simp only [termsOf, CommandChannel.reset, hsync, Terms.mk.injEq, and_true]
    cases sender.config.id <;> rfl
  unfold adoptHandshake announcedTerms sentFields
  simp only [hsynced]
  cases sender.config.encryptionEnabled with
  | true => exact termsOf_deriveSessionKey cs receiver _ _ hnamed
  | false => exact hnamed

/-- Between two ends with the same setting for encryption, a handshake is read as it was sent.  It
passes the token check exactly if the tokens are the same: then its terms are taken over, and
otherwise nothing is answered and only the announcement of retransmission is kept. -/
theorem handshake_round_trip (cs : CryptoSuite) (sender receiver : Local) (bw : BandwidthEstimator)
    (clock : Clock) (peer : Peer) (header : PacketHeader)
    (henc : sender.config.encryptionEnabled = receiver.config.encryptionEnabled)
    (hid : sender.config.id.length ≤ 65535) :
    parseHandshake receiver.config.encryptionEnabled (handshakePayload sender) =
        some (sentFields sender) ∧
      (presentedToken receiver.config.encryptionEnabled (handshakePayload sender) =
          some receiver.config.token ↔ sender.config.token = receiver.config.token) ∧
      (sender.config.token = receiver.config.token →
        termsOf (handleHandshake cs receiver bw clock peer header (handshakePayload sender)).1 =
          announcedTerms cs receiver peer header sender) ∧
      (sender.config.token ≠ receiver.config.token →
        handleHandshake cs receiver bw clock peer header (handshakePayload sender) =
          ({ peer with peerRetransmit := sender.config.retransmitEnabled }, [])) := by
  have hparse := parseHandshake_handshakePayload hid
  rw [henc] at hparse
  refine ⟨hparse, ?_, fun htoken => ?_, fun htoken => ?_⟩
  · rw [presentedToken, hparse, Option.map_some, Option.some.injEq]
    rfl
  · unfold handleHandshake
    rw [hparse]
    have hsame : ¬ (sentFields sender).token ≠ receiver.config.token := not_not.mpr htoken
    simp only [if_neg hsame, termsOf_answerHandshake]
    exact termsOf_adoptHandshake cs receiver bw clock peer header sender
  · have hdiffer : (sentFields sender).token ≠ receiver.config.token := htoken
    unfold handleHandshake
    simp only [hparse, if_pos hdiffer]
    rfl

/-- An end with an id, a token and no encryption. -/
def plainSender : Local :=
  { config := { id := [120], token := [9, 9], role := .node, encryptionEnabled := false } }

/-- An end that takes this token, with no encryption. -/
def plainReceiver (token : Bytes) : Local := { config := { token, encryptionEnabled := false } }

/-- The handshake is taken over with the same token, and dropped with one that begins like it. -/
theorem handshake_round_trip_plain :
    termsOf (handleHandshake noCrypto (plainReceiver [9, 9]) {} ⟨0, 0⟩ {} {}
        (handshakePayload plainSender)).1 =
      ⟨[120], .node, true, ({} : Peer).cryptoKey, false⟩ ∧
    handleHandshake noCrypto (plainReceiver [9]) {} ⟨0, 0⟩ {} {} (handshakePayload plainSender) =
      ({ peerRetransmit := true }, []) :=
  ⟨(handshake_round_trip noCrypto plainSender (plainReceiver [9, 9]) {} ⟨0, 0⟩ {} {} rfl
    (by decide)).2.2.1 rfl, (handshake_round_trip noCrypto plainSender (plainReceiver [9]) {} ⟨0, 0⟩
    {} {} rfl (by decide)).2.2.2 (by decide)⟩

/-! ## Rejected handshakes -/

/-- The announcement of the flag byte, if a payload has one behind the id. -/
def announcedRetransmit (encryptionEnabled : Bool) (payload : Bytes) : Option Bool :=
  (parseHandshake encryptionEnabled payload).bind HandshakeFields.retransmit

/-- A handshake that is too short, has an id past its end or the wrong token leaves the peer as it
was exactly if its flag byte announces nothing new. -/
theorem rejected_handshake_iff (cs : CryptoSuite) (me : Local) (bw : BandwidthEstimator)
    (clock : Clock) (peer : Peer) (header : PacketHeader) (payload : Bytes)
    (hreject : presentedToken me.config.encryptionEnabled payload ≠ some me.config.token) :
    (handleHandshake cs me bw clock peer header payload).1 = peer ↔
      ∀ retransmit, announcedRetransmit me.config.encryptionEnabled payload = some retransmit →
        retransmit = peer.peerRetransmit := by
  unfold handleHandshake announcedRetransmit
  unfold presentedToken at hreject
  cases hparse : parseHandshake me.config.encryptionEnabled payload with
  | none => exact iff_of_true rfl fun _ h => absurd h (by simp)
  | some fields =>
      have htoken : fields.token ≠ me.config.token := by
        rw [hparse] at hreject
        exact fun heq => hreject (congrArg some heq)
      simp only [if_pos htoken, Option.bind_some]
      constructor
      · intro hsame retransmit hannounced
        have hfield := congrArg Peer.peerRetransmit hsame
        rwa [hannounced] at hfield
      · intro h
        cases hannounced : fields.retransmit with
        | none => rfl
        | some retransmit => rw [Option.getD_some, h retransmit hannounced]

/-- An end that is online, and retransmits, loses nothing by a handshake with the wrong token that
announces retransmission. -/
theorem rejected_handshake_announced :
    (handleHandshake noCrypto (plainReceiver [1]) {} ⟨0, 0⟩
        { id := [121], state := .online,
          peerRetransmit := true } {} (handshakePayload plainSender)).1 =
      { id := [121], state := .online, peerRetransmit := true } :=
  (rejected_handshake_iff noCrypto (plainReceiver [1]) {} ⟨0, 0⟩ _ {} _ (by decide)).mpr (by decide)

/-- Four zero bytes, with no token, take away the retransmission of an end that has one. -/
theorem rejected_handshake_disables_retransmission :
    presentedToken true [0, 0, 0, 0] ≠ some [1] ∧
      (handleHandshake (.ofGcm (fun _ _ => none) fun _ _ _ => [])
          { config := { token := [1] } } {} ⟨0, 0⟩ { state := .online, peerRetransmit := true } {}
          [0, 0, 0, 0]).1.peerRetransmit = false := by
  decide

end Transport
end Damen
