import Damen.Framework.Threads
import Damen.Model.Gateway.Board

/-!
# The locks of the blackboard

What a thread does with `DataBoard::m_mutex` and with the `m_mutex` of the entries in each function
of `gateway/gateway_session.hpp`, in `mark_changed` and in `device_snapshot`, and which accesses to
the board it makes in between.  A function has its trace here under its name with `Locks` behind it.

`m_devices` is an unordered map: `device_snapshot` goes through it in an order that depends on what
was inserted before.  The order is kept with the board, and where an insertion puts a new device is
an argument, `place`.
-/

namespace Damen
namespace Gateway

open Locking (locked)

inductive BoardLock
  /-- `m_mutex` of the board. -/
  | board
  /-- `m_mutex` of the entry of this device. -/
  | entry (deviceId : Bytes)
  deriving DecidableEq

/-- What is done under the locks. -/
inductive BoardAccess
  /-- The body of `device`. -/
  | device (deviceId : Bytes)
  | change (deviceId : Bytes) (f : BlackboardEntry DeviceState → BlackboardEntry DeviceState)
  /-- The body of `mark_changed`. -/
  | markChanged (key : Bytes)
  /-- The loop of `device_snapshot`. -/
  | visitDevices

abbrev BoardTrace := Locking.Trace BoardLock BoardAccess

structure SharedBoard where
  board : DataBoard := {}
  /-- The devices in the order in which `m_devices` has them. -/
  order : List Bytes := []

/-- The access, and the operations it leads to. -/
def access (place : List Bytes → Bytes → List Bytes) (s : SharedBoard) :
    BoardAccess → SharedBoard × BoardTrace
  | .device deviceId =>
      ({ board := s.board.device deviceId
         order := if deviceId ∈ s.order then s.order else place s.order deviceId }, [])
  | .change deviceId f => ({ s with board := s.board.modify deviceId f }, [])
  | .markChanged key => ({ s with board := s.board.markChanged key }, [])
  -- the states are copied under the locks of the entries
  | .visitDevices => (s, s.order.flatMap fun deviceId => locked (.entry deviceId) [])

/-! ## The functions -/

def deviceLocks (deviceId : Bytes) : BoardTrace := locked .board [.call (.device deviceId)]

def markChangedLocks (key : Bytes) : BoardTrace := locked .board [.call (.markChanged key)]

def deviceSnapshotLocks : BoardTrace := locked .board [.call .visitDevices]

/-- `device`, and a section under the lock of the entry. -/
def entryLocks (deviceId : Bytes) (body : BoardTrace) : BoardTrace :=
  deviceLocks deviceId ++ locked (.entry deviceId) body

/-- What most functions of `SessionManager` do. -/
def changeLocks (deviceId : Bytes) (f : BlackboardEntry DeviceState → BlackboardEntry DeviceState) :
    BoardTrace :=
  entryLocks deviceId [.call (.change deviceId f)]

namespace SessionManager

/-- The board is locked again under the lock of the entry. -/
def createSessionLocks (deviceId : Bytes) (address idMs now : UInt64) : BoardTrace :=
  let sessionId := generateSessionId deviceId idMs address
  entryLocks deviceId (.call (.change deviceId (createIn deviceId sessionId now)) ::
    markChangedLocks (deviceKey deviceId))

def activateSessionLocks (deviceId sessionId : Bytes) (now : UInt64) : BoardTrace :=
  changeLocks deviceId (activateIn sessionId now)

/-- The lock of the entry is given back first. -/
def closeSessionLocks (deviceId : Bytes) (now : UInt64) : BoardTrace :=
  changeLocks deviceId (closeIn now) ++ markChangedLocks (deviceKey deviceId)

def updateStatusLocks (deviceId : Bytes) (status : ConvaiStatus) (now : UInt64) : BoardTrace :=
  changeLocks deviceId (updateStatusIn status now)

def recordBytesInLocks (deviceId : Bytes) (bytes now : UInt64) : BoardTrace :=
  changeLocks deviceId (recordBytesInIn bytes now)

def recordBytesOutLocks (deviceId : Bytes) (bytes now : UInt64) : BoardTrace :=
  changeLocks deviceId (recordBytesOutIn bytes now)

def recordMessageLocks (deviceId : Bytes) : BoardTrace := changeLocks deviceId recordMessageIn

end SessionManager

/-- What a thread may call. -/
inductive BoardOp
  | createSession (deviceId : Bytes) (address idMs now : UInt64)
  | activateSession (deviceId sessionId : Bytes) (now : UInt64)
  | closeSession (deviceId : Bytes) (now : UInt64)
  | updateStatus (deviceId : Bytes) (status : ConvaiStatus) (now : UInt64)
  | recordBytesIn (deviceId : Bytes) (bytes now : UInt64)
  | recordBytesOut (deviceId : Bytes) (bytes now : UInt64)
  | recordMessage (deviceId : Bytes)
  | deviceSnapshot
  | markChanged (key : Bytes)

namespace BoardOp

open SessionManager

def locks : BoardOp → BoardTrace
  | createSession deviceId address idMs now => createSessionLocks deviceId address idMs now
  | activateSession deviceId sessionId now => activateSessionLocks deviceId sessionId now
  | closeSession deviceId now => closeSessionLocks deviceId now
  | updateStatus deviceId status now => updateStatusLocks deviceId status now
  | recordBytesIn deviceId bytes now => recordBytesInLocks deviceId bytes now
  | recordBytesOut deviceId bytes now => recordBytesOutLocks deviceId bytes now
  | recordMessage deviceId => recordMessageLocks deviceId
  | deviceSnapshot => deviceSnapshotLocks
  | markChanged key => markChangedLocks key

/-- What the call does to the board. -/
def apply (board : DataBoard) : BoardOp → DataBoard
  | createSession deviceId address idMs now =>
      (SessionManager.createSession board deviceId address idMs now).1
  | activateSession deviceId sessionId now =>
      (SessionManager.activateSession board deviceId sessionId now).1
  | closeSession deviceId now => SessionManager.closeSession board deviceId now
  | updateStatus deviceId status now => SessionManager.updateStatus board deviceId status now
  | recordBytesIn deviceId bytes now => SessionManager.recordBytesIn board deviceId bytes now
  | recordBytesOut deviceId bytes now => SessionManager.recordBytesOut board deviceId bytes now
  | recordMessage deviceId => SessionManager.recordMessage board deviceId
  | deviceSnapshot => board
  | markChanged key => board.markChanged key

end BoardOp

/-- The threads before any of them has started, and what each of them will call. -/
def startThreads {ι : Type} (start : SharedBoard) (ops : ι → List BoardOp) :
    Locking.Threads ι SharedBoard BoardLock BoardAccess :=
  { shared := start, owner := fun _ => none, todo := fun i => (ops i).flatMap BoardOp.locks }

end Gateway
end Damen
