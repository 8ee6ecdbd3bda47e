import Damen.Model.Endpoint
import Damen.Model.Gateway.Message

/-!
# The blackboard, sessions and metrics

`gateway/gateway_blackboard.hpp`, `gateway/gateway_session.hpp` and `gateway/gateway_metrics.hpp`.
The board keeps one entry for each device id and the counters; a device that is asked for and not
there is created.  Every function runs under the locks it takes, so it is one step here;
`BoardLocks` has the locks.

Evolvers and downstream entries are left out: the server registers no evolver and keeps no
downstream entry.  What the clocks show is an argument.
-/

namespace Damen
namespace Gateway

open Std (ExtTreeMap)

inductive ConvaiStatus
  | idle
  | listening
  | thinking
  | answering
  | interrupted
  | answerFinished
  deriving DecidableEq

structure BlackboardEntry (T : Type) where
  data : T
  dirty : Bool := false
  deriving DecidableEq

structure DeviceState where
  deviceId : Bytes := []
  sessionId : Bytes := []
  peerId : Bytes := []
  jwt : Bytes := []
  connected : Bool := false
  authenticated : Bool := false
  status : ConvaiStatus := .idle
  bytesIn : UInt64 := 0
  bytesOut : UInt64 := 0
  messageCount : UInt64 := 0
  lastActivityMs : UInt64 := 0
  audioDurationMs : UInt64 := 0
  deriving DecidableEq

structure MetricsState where
  activeConnections : UInt64 := 0
  messagesInTotal : UInt64 := 0
  messagesOutTotal : UInt64 := 0
  ratelimitHitsTotal : UInt64 := 0
  authSuccessTotal : UInt64 := 0
  authFailureTotal : UInt64 := 0
  bytesInTotal : UInt64 := 0
  bytesOutTotal : UInt64 := 0
  deriving DecidableEq

structure DataBoard where
  devices : ExtTreeMap Bytes (BlackboardEntry DeviceState) := ∅
  metrics : MetricsState := {}
  changedKeys : ExtTreeMap Bytes Unit := ∅

namespace DataBoard

/-- What `device` finds or creates. -/
def entry (board : DataBoard) (deviceId : Bytes) : BlackboardEntry DeviceState :=
  board.devices.getD deviceId { data := { deviceId } }

/-- `device`, and what is then done to the entry under its lock. -/
def modify (board : DataBoard) (deviceId : Bytes)
    (f : BlackboardEntry DeviceState → BlackboardEntry DeviceState) : DataBoard :=
  { board with devices := board.devices.insert deviceId (f (board.entry deviceId)) }

/-- `device` alone. -/
def device (board : DataBoard) (deviceId : Bytes) : DataBoard := board.modify deviceId id

def removeDevice (board : DataBoard) (deviceId : Bytes) : DataBoard :=
  { board with devices := board.devices.erase deviceId }

def markChanged (board : DataBoard) (key : Bytes) : DataBoard :=
  { board with changedKeys := board.changedKeys.insert key () }

/-- The devices in the order of their ids; the source has them in no order. -/
def deviceSnapshot (board : DataBoard) : List (Bytes × DeviceState) :=
  board.devices.toList.map fun e => (e.1, e.2.data)

end DataBoard

/-- `"device:" + device_id`. -/
def deviceKey (deviceId : Bytes) : Bytes := text "device:" ++ deviceId

/-! ## Sessions -/

namespace SessionManager

/-- `generate_session_id`, with the time and the address of the manager. -/
def generateSessionId (deviceId : Bytes) (now address : UInt64) : Bytes :=
  deviceId ++ text "-" ++ Transport.decimal now.toNat ++ text "-" ++ Transport.decimal address.toNat

/-- What `create_session` does to the entry. -/
def createIn (deviceId sessionId : Bytes) (now : UInt64) (e : BlackboardEntry DeviceState) :
    BlackboardEntry DeviceState :=
  { e with data := { e.data with deviceId, sessionId, connected := true, lastActivityMs := now } }

/-- `create_session`; the clock is read for the id and again for the activity. -/
def createSession (board : DataBoard) (deviceId : Bytes) (address idMs now : UInt64) :
    DataBoard × Bytes :=
  let sessionId := generateSessionId deviceId idMs address
  let board := board.modify deviceId (createIn deviceId sessionId now)
  (board.markChanged (deviceKey deviceId), sessionId)

/-- What `activate_session` does to the entry. -/
def activateIn (sessionId : Bytes) (now : UInt64) (e : BlackboardEntry DeviceState) :
    BlackboardEntry DeviceState :=
  if e.data.sessionId ≠ sessionId then e
  else { data := { e.data with
    connected := true, status := .idle, lastActivityMs := now }, dirty := true }

def activateSession (board : DataBoard) (deviceId sessionId : Bytes) (now : UInt64) :
    DataBoard × Bool :=
  (board.modify deviceId (activateIn sessionId now),
    decide ((board.entry deviceId).data.sessionId = sessionId))

/-- What `close_session` does to the entry. -/
def closeIn (now : UInt64) (e : BlackboardEntry DeviceState) : BlackboardEntry DeviceState :=
  { e with data := { e.data with connected := false, status := .idle, lastActivityMs := now } }

def closeSession (board : DataBoard) (deviceId : Bytes) (now : UInt64) : DataBoard :=
  (board.modify deviceId (closeIn now)).markChanged (deviceKey deviceId)

/-- What `update_status` does to the entry. -/
def updateStatusIn (status : ConvaiStatus) (now : UInt64) (e : BlackboardEntry DeviceState) :
    BlackboardEntry DeviceState :=
  { data := { e.data with status, lastActivityMs := now }, dirty := true }

def updateStatus (board : DataBoard) (deviceId : Bytes) (status : ConvaiStatus) (now : UInt64) :
    DataBoard :=
  board.modify deviceId (updateStatusIn status now)

/-- What `record_bytes_in` does to the entry. -/
def recordBytesInIn (bytes now : UInt64) (e : BlackboardEntry DeviceState) :
    BlackboardEntry DeviceState :=
  { e with data := { e.data with bytesIn := e.data.bytesIn + bytes, lastActivityMs := now } }

def recordBytesIn (board : DataBoard) (deviceId : Bytes) (bytes now : UInt64) : DataBoard :=
  board.modify deviceId (recordBytesInIn bytes now)

/-- What `record_bytes_out` does to the entry. -/
def recordBytesOutIn (bytes now : UInt64) (e : BlackboardEntry DeviceState) :
    BlackboardEntry DeviceState :=
  { e with data := { e.data with bytesOut := e.data.bytesOut + bytes, lastActivityMs := now } }

def recordBytesOut (board : DataBoard) (deviceId : Bytes) (bytes now : UInt64) : DataBoard :=
  board.modify deviceId (recordBytesOutIn bytes now)

/-- What `record_message` does to the entry. -/
def recordMessageIn (e : BlackboardEntry DeviceState) : BlackboardEntry DeviceState :=
  { e with data := { e.data with messageCount := e.data.messageCount + 1 } }

def recordMessage (board : DataBoard) (deviceId : Bytes) : DataBoard :=
  board.modify deviceId recordMessageIn

end SessionManager

/-! ## Metrics -/

namespace Metrics

/-- What every function of `Metrics` does. -/
def update (board : DataBoard) (f : MetricsState → MetricsState) : DataBoard :=
  { board with metrics := f board.metrics }

def onConnectionOpen (board : DataBoard) : DataBoard :=
  update board fun m => { m with activeConnections := m.activeConnections + 1 }

def onConnectionClose (board : DataBoard) : DataBoard :=
  update board fun m =>
    if 0 < m.activeConnections then { m with activeConnections := m.activeConnections - 1 } else m

def onMessageIn (board : DataBoard) : DataBoard :=
  update board fun m => { m with messagesInTotal := m.messagesInTotal + 1 }

def onMessageOut (board : DataBoard) : DataBoard :=
  update board fun m => { m with messagesOutTotal := m.messagesOutTotal + 1 }

def onBytesIn (board : DataBoard) (bytes : UInt64) : DataBoard :=
  update board fun m => { m with bytesInTotal := m.bytesInTotal + bytes }

def onBytesOut (board : DataBoard) (bytes : UInt64) : DataBoard :=
  update board fun m => { m with bytesOutTotal := m.bytesOutTotal + bytes }

def onRatelimitHit (board : DataBoard) : DataBoard :=
  update board fun m => { m with ratelimitHitsTotal := m.ratelimitHitsTotal + 1 }

def onAuthSuccess (board : DataBoard) : DataBoard :=
  update board fun m => { m with authSuccessTotal := m.authSuccessTotal + 1 }

def onAuthFailure (board : DataBoard) : DataBoard :=
  update board fun m => { m with authFailureTotal := m.authFailureTotal + 1 }

end Metrics

end Gateway
end Damen
