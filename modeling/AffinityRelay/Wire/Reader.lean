import AffinityRelay.Machine
import AffinityRelay.Network
import AffinityRelay.Wire.Decode

/-!
# Reading frames as they arrive

- `Arrival`: the next bytes of a connection, or none for now;
- `Ending`: how a connection ends;
- `readFrames`: what a reader reports, from the frames that are complete to how the connection ended;
- `readFrames?`: the same within the limits of a machine.

A reader that gives up waiting keeps the bytes it has, and goes on from there the next time.
-/

namespace AffinityRelay

/-- What a connection has for a reader. -/
inductive Arrival where
  | bytes (bs : List UInt8)
  | nothingYet
  deriving DecidableEq, Repr

/-- Why a reader can read no further frame. -/
inductive ReadError where
  | frame (cause : FrameError)
  | truncated
  | connection (text : String)
  deriving DecidableEq, Repr

def ReadError.message : ReadError → String
  | frame cause => cause.message
  | truncated => "connection closed mid-frame"
  | connection text => s!"I/O error: {text}"

/-- What a reader reports. -/
inductive Report where
  | frame (f : Frame)
  | waiting (held : List UInt8)
  | ended
  | failed (e : ReadError)
  deriving DecidableEq, Repr

/-- What the end of a connection means to a reader that has some bytes of a frame. -/
def Ending.report (held : List UInt8) : Ending → Report
  | .closed => if held.isEmpty then .ended else .failed .truncated
  | .failed text => .failed (.connection text)

/-- The reports of a reader that holds some bytes. Every complete frame is reported before it waits for more bytes, and
a byte that cannot be right before any that come later. No bytes at all are the end of the connection. -/
def readFrames (held : List UInt8) (ending : Ending) : List Arrival → List Report
  | [] => report held (fun rest => [ending.report rest])
  | .bytes [] :: _ => report held (fun rest => [Ending.closed.report rest])
  | .bytes (b :: bs) :: more => report held (fun rest => readFrames (rest ++ b :: bs) ending more)
  | .nothingYet :: more => report held (fun rest => .waiting rest :: readFrames rest ending more)
where
  /-- The frames that are complete, and then what is wrong with the next, or what comes after the rest. -/
  report (held : List UInt8) (next : List UInt8 → List Report) : List Report :=
    let (fs, left) := Frame.decodeAll held
    fs.map .frame ++
      match left.error with
      | some e => [.failed (.frame e)]
      | none => next left.rest

/-- The reports of a reader for which room is set aside at first, if there can be so much. -/
def readFrames? (room : Nat) (held : List UInt8) (ending : Ending) (arrivals : List Arrival) : Option (List Report) :=
  if Machine.holds room 1 then some (readFrames held ending arrivals) else none

end AffinityRelay
