import Damen.Model.Gateway.Server

/-!
# The heartbeat check among other threads

`heartbeat_check` of `gateway/gateway_server.hpp` step by step: it reads the clock, copies the state
of one device after the other in `device_snapshot`, and then decides about each copy.  Between two
steps other threads change the entries; every change is one step, under the lock of its entry.  A
link event takes two: it marks the device as connected, and gives it a session later.

A step outputs the device it closes, with the clock value and the copy that it decided on.

`m_devices` is an unordered map, so the order in which the devices are copied is an argument.
-/

namespace Damen
namespace Gateway

open SessionManager GatewayServer

variable {R : Type}

/-- Where `heartbeat_check` is. -/
inductive HeartbeatPhase
  | away
  /-- The clock has been read. -/
  | started (now : UInt64)
  /-- In `device_snapshot`, with the devices that are still to be copied. -/
  | copying (now : UInt64) (ids : List Bytes) (snapshot : List (Bytes × DeviceState))
  /-- In the loop over the snapshot. -/
  | deciding (now : UInt64) (rest : List (Bytes × DeviceState))

structure Heartbeat (R : Type) where
  server : GatewayServer R
  phase : HeartbeatPhase := .away
  /-- The devices that link events have marked as connected, and that have no session yet. -/
  marked : List Bytes := []

/-- A device that the check closes. -/
structure Closing where
  deviceId : Bytes
  now : UInt64
  state : DeviceState

inductive HeartbeatEvent
  /-- The next step of `heartbeat_check`; the order is that of `m_devices`. -/
  | check (order : List Bytes) (env : Surroundings)
  | recordBytesIn (deviceId : Bytes) (bytes now : UInt64)
  | recordBytesOut (deviceId : Bytes) (bytes now : UInt64)
  | updateStatus (deviceId : Bytes) (status : ConvaiStatus) (now : UInt64)
  | createSession (deviceId : Bytes) (env : Surroundings)
  /-- `on_tight_peer_event` to the end of its locked section. -/
  | link (deviceId : Bytes) (state : LinkState)
  /-- The rest of it, for one of the devices that are new. -/
  | welcome (index : ℕ) (env : Surroundings)

/-- The devices on the board, in the given order if it is one of them. -/
def DataBoard.idsInOrder (board : DataBoard) (order : List Bytes) : List Bytes :=
  if order.isPerm (board.deviceSnapshot.map Prod.fst) then order
  else board.deviceSnapshot.map Prod.fst

namespace Heartbeat

/-- Where `heartbeat_check` is after its next step, and the device it closes there. -/
def moveCheck (s : Heartbeat R) (order : List Bytes) (env : Surroundings) :
    HeartbeatPhase × Option Closing :=
  match s.phase with
  | .away => (.started env.unixMs, none)
  | .started now => (.copying now (s.server.board.idsInOrder order) [], none)
  | .copying now [] snapshot => (.deciding now snapshot, none)
  | .copying now (id :: ids) snapshot =>
      (.copying now ids (snapshot ++ [(id, (s.server.board.entry id).data)]), none)
  | .deciding _ [] => (.away, none)
  | .deciding now ((id, state) :: rest) =>
      (.deciding now rest,
        if timedOut s.server.config now state then some ⟨id, now, state⟩ else none)

/-- The locked section of a link event, and what is left of it. -/
def moveLink (s : Heartbeat R) (deviceId : Bytes) : LinkState → Heartbeat R
  | .online | .established =>
      let (server, isNew) := markConnected s.server deviceId
      { s with server, marked := if isNew then s.marked ++ [deviceId] else s.marked }
  | .closed => { s with server := onBoard s.server (DataBoard.markChanged · (deviceKey deviceId)) }
  | .handshake => s

def step (s : Heartbeat R) : HeartbeatEvent → Except Empty (Heartbeat R × Option Closing)
  | .check order env =>
      let (phase, closing) := s.moveCheck order env
      let server := closing.elim s.server fun c => closeSilent env s.server c.deviceId
      .ok ({ s with server, phase }, closing)
  | .recordBytesIn deviceId bytes now =>
      .ok ({ s with server := onBoard s.server (recordBytesIn · deviceId bytes now) }, none)
  | .recordBytesOut deviceId bytes now =>
      .ok ({ s with server := onBoard s.server (recordBytesOut · deviceId bytes now) }, none)
  | .updateStatus deviceId status now =>
      .ok ({ s with server := onBoard s.server (updateStatus · deviceId status now) }, none)
  | .createSession deviceId env =>
      .ok ({ s with server := (GatewayServer.createSession s.server deviceId env).1 }, none)
  | .link deviceId state => .ok (s.moveLink deviceId state, none)
  | .welcome index env =>
      match s.marked[index]? with
      | none => .ok (s, none)
      | some deviceId =>
          .ok ({ s with
            server := (Gateway.welcome s.server deviceId env).1
            marked := s.marked.eraseIdx index }, none)

end Heartbeat

end Gateway
end Damen
