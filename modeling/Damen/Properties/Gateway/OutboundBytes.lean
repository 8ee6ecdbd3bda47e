import Damen.Framework.Run
import Damen.Model.Gateway.RateLimit
import Damen.Properties.Gateway.DeviceEntries

/-!
# The counter of outbound bytes

`send_to_device` moves the text into the call of the transport and reads its size afterwards, when
the vector is empty.  So `m_bytes_out_total` never changes (`bytesOut_send`), while every text that
the transport accepts has at least one byte.  `bytes_out_exact_iff`: the counter is the number of
bytes the transport accepted exactly if it accepted nothing.
-/

namespace Damen
namespace Gateway

variable {R : Type}

/-- One call of `send_to_device`, with what is found around the server. -/
structure SendCall where
  deviceId : Bytes
  msg : GatewayMessage
  env : Surroundings

/-- `m_bytes_out_total`. -/
def bytesOut (g : GatewayServer R) : UInt64 := g.board.metrics.bytesOutTotal

/-- Where a message for the device is sent. -/
def addressOf (g : GatewayServer R) (deviceId : Bytes) : Bytes :=
  let peerId := (g.board.entry deviceId).data.peerId
  if peerId = [] then deviceId else peerId

/-- The serialized message, if the transport accepts it. -/
def acceptedWire (g : GatewayServer R) (call : SendCall) : Option Bytes :=
  let wire := formatDownstreamJson call.msg
  if wire ≠ [] ∧ call.env.accepts (addressOf g call.deviceId) wire then some wire else none

/-- One call, with the serialized message that the transport accepted. -/
def sendStep (g : GatewayServer R) (call : SendCall) :
    Except Empty (GatewayServer R × Option Bytes) :=
  .ok ((sendToDevice g call.deviceId call.msg call.env).1, acceptedWire g call)

/-- The bytes of the messages that were accepted. -/
def acceptedBytes (wires : List (Option Bytes)) : ℕ :=
  (wires.map fun wire => wire.elim 0 List.length).sum

lemma sendToDevice_fst (g : GatewayServer R) (deviceId : Bytes) (msg : GatewayMessage)
    (env : Surroundings) :
    (sendToDevice g deviceId msg env).1 =
      if formatDownstreamJson msg = [] then g
      else
        let g' := GatewayServer.onBoard g (DataBoard.device · deviceId)
        if env.accepts (addressOf g deviceId) (formatDownstreamJson msg) then
          GatewayServer.onBoard (GatewayServer.onBoard g' Metrics.onMessageOut)
            (Metrics.onBytesOut · 0)
        else g' := by
  have haddress : addressOf (GatewayServer.onBoard g (DataBoard.device · deviceId)) deviceId =
      addressOf g deviceId := by
    unfold addressOf
    rw [show (GatewayServer.onBoard g (DataBoard.device · deviceId)).board.entry deviceId =
      g.board.entry deviceId from entry_device g.board deviceId deviceId]
  rw [← haddress]
  unfold sendToDevice
  dsimp only
  rw [apply_ite Prod.fst]
  congr 1
  exact apply_ite Prod.fst _ _ _

lemma bytesOut_send (g : GatewayServer R) (deviceId : Bytes) (msg : GatewayMessage)
    (env : Surroundings) :
    bytesOut (sendToDevice g deviceId msg env).1 = bytesOut g := by
  rw [sendToDevice_fst]
  dsimp only
  split
  · rfl
  · split
    · -- the size that is added is zero
      exact UInt64.add_zero _
    · rfl

variable {g : GatewayServer R} {wires : List (Option Bytes)}

lemma ne_nil_of_acceptedWire {call : SendCall} {wire : Bytes}
    (h : acceptedWire g call = some wire) : wire ≠ [] := by
  unfold acceptedWire at h
  dsimp only at h
  split at h
  · next hwire =>
    obtain rfl := Option.some.inj h
    exact hwire.1
  · exact absurd h (by simp)

/-- The counter stays, and what is accepted is not empty. -/
lemma run_sendStep {g' : GatewayServer R} {calls : List SendCall}
    (h : Machine.run sendStep g calls = .ok (g', wires)) :
    bytesOut g' = bytesOut g ∧ ∀ wire ∈ wires, wire ≠ some [] := by
  constructor
  · refine Machine.run_keeps (I := fun t => bytesOut t = bytesOut g)
      (fun t call t' o ht hstep => ?_) rfl h
    obtain rfl : (sendToDevice t call.deviceId call.msg call.env).1 = t' :=
      congrArg Prod.fst (Except.ok.inj hstep)
    exact (bytesOut_send t _ _ _).trans ht
  · refine Machine.run_outputs (I := fun _ => True) (P := fun _ => True)
      (fun t call t' o _ _ hstep => ⟨trivial, ?_⟩) trivial (fun _ _ => trivial) h
    obtain rfl : acceptedWire t call = o := congrArg Prod.snd (Except.ok.inj hstep)
    exact fun hwire => ne_nil_of_acceptedWire hwire rfl

lemma acceptedBytes_eq_zero_iff (h : ∀ wire ∈ wires, wire ≠ some []) :
    acceptedBytes wires = 0 ↔ ∀ wire ∈ wires, wire = none := by
  rw [acceptedBytes, List.sum_eq_zero_iff_forall_eq_nat, List.forall_mem_map]
  refine forall_congr' fun wire => forall_congr' fun hmem => ?_
  cases wire with
  | none => exact iff_of_true rfl rfl
  | some bytes =>
      refine iff_of_false (fun hzero => h _ hmem ?_) (by simp)
      rw [List.length_eq_zero_iff.mp hzero]

/-- Over a sequence of calls `m_bytes_out_total` grows by the lengths of the messages the transport
accepted exactly if it accepted none. -/
theorem bytes_out_exact_iff (g : GatewayServer R) (calls : List SendCall) :
    ∃ g' wires, Machine.run sendStep g calls = .ok (g', wires) ∧
      ((bytesOut g').toNat = (bytesOut g).toNat + acceptedBytes wires ↔
        ∀ wire ∈ wires, wire = none) := by
  have htotal : ∀ (t : GatewayServer R) call, ∃ t' o, sendStep t call = .ok (t', o) := fun _ _ =>
    ⟨_, _, rfl⟩
  obtain ⟨g', wires, hrun⟩ := Machine.run_of_total htotal g calls
  obtain ⟨hsame, hwires⟩ := run_sendStep hrun
  refine ⟨g', wires, hrun, ?_⟩
  rw [hsame, ← acceptedBytes_eq_zero_iff hwires]
  omega

/-- The transport accepts one message, and the counter of a new server stays at zero. -/
theorem bytes_out_not_counted :
    ∃ g' wires, Machine.run sendStep GatewayServer.create
        [⟨text "d", { type := .toDevicePong }, {}⟩] = .ok (g', wires) ∧
      wires = [some (formatDownstreamJson { type := .toDevicePong })] ∧ acceptedBytes wires = 31 ∧
      bytesOut g' = 0 := by
  refine ⟨_, _, rfl, ?_, ?_, rfl⟩
  · decide
  · decide

end Gateway
end Damen
