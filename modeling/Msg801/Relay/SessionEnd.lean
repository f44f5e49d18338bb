import Msg801.Relay.Frame

/-! # One end of a session

A node has a socket for each session, and a coroutine that reads from the socket and sends
what it reads in frames. This is what the two nodes have in common there.
-/
namespace Msg801.Relay

/-- How a call of `async_read_some` ends. -/
inductive ReadSome where
  | data (bytes : ByteVector)
  | eof
  | error
  deriving DecidableEq

/-- The bytes read; no error comes with any. -/
def ReadSome.bytes : ReadSome → ByteVector
  | data bytes => bytes
  | eof => []
  | error => []

/-- Where the coroutine of a session is suspended: in `async_connect`, in `aconn_write`
with its frame written or not, in the write of a buffered payload with more behind it, or
in `async_read_some`. -/
inductive SessionPc where
  | connecting
  | sending (f : Frame) (onWire : Bool)
  | draining (rest : ByteVector) (left : List ByteVector)
  | reading
  | ended
  deriving DecidableEq

/-- A socket, with what was read from it and written to it, and whether a read or a write
on it failed. -/
structure Socket where
  isOpen : Bool := true
  shutdownSend : Bool := false
  read : ByteVector := []
  written : ByteVector := []
  readFailed : Bool := false
  writeFailed : Bool := false

/-- The flags of a session, its coroutine and its socket, with the frames the coroutine
has given to `aconn_write` and those of them that were written. -/
structure SessionEnd where
  pc : SessionPc
  halfCloseRecv : Bool := false
  halfCloseSend : Bool := false
  closed : Bool := false
  socket : Socket := {}
  submitted : List Frame := []
  sent : List Frame := []

/-- The size of the buffer a pump reads into. -/
def bufSize : ℕ := 65536

def dataFrame (u : Uuid) (bytes : ByteVector) : Frame := ⟨.data,buildUuidDataBody u bytes⟩
def dataEofFrame (u : Uuid) : Frame := ⟨.dataEof,buildUuidBody u⟩
def sessionCloseFrame (u : Uuid) : Frame := ⟨.sessionClose,buildUuidBody u⟩

namespace SessionEnd

def submit (x : SessionEnd) (f : Frame) : SessionEnd :=
  { x with
    pc := .sending f false
    submitted := x.submitted ++ [f] }

def transmit (x : SessionEnd) (f : Frame) : SessionEnd :=
  { x with
    pc := .sending f true
    sent := x.sent ++ [f] }

def write (x : SessionEnd) (bytes : ByteVector) : SessionEnd :=
  { x with socket := { x.socket with written := x.socket.written ++ bytes } }

def fail (x : SessionEnd) : SessionEnd := { x with socket := { x.socket with writeFailed := true } }

def shutdown (x : SessionEnd) : SessionEnd :=
  { x with socket := { x.socket with shutdownSend := true } }

def close (x : SessionEnd) : SessionEnd := { x with socket := { x.socket with isOpen := false } }

def suspend (x : SessionEnd) (pc : SessionPc) : SessionEnd := { x with pc := pc }

def markClosed (x : SessionEnd) : SessionEnd := { x with closed := true }

def giveUp (x : SessionEnd) : SessionEnd := x.markClosed.suspend .ended

def recvEof (x : SessionEnd) : SessionEnd := { x with halfCloseRecv := true }

def sendEof (x : SessionEnd) : SessionEnd := { x with halfCloseSend := true }

/-- The head of the loop of the pump. -/
def loop (x : SessionEnd) : SessionEnd := x.suspend (if x.closed then .ended else .reading)

/-- What a read has told. -/
def receive (x : SessionEnd) (r : ReadSome) : SessionEnd :=
  { x with socket := { x.socket with
    read := x.socket.read ++ r.bytes
    readFailed := x.socket.readFailed || (r == .error) } }

/-- The body of the loop behind the read. -/
def onRead (uuid : Uuid) (x : SessionEnd) (r : ReadSome) : SessionEnd :=
  if r = .eof ∨ r.bytes.length = 0 then
    x.sendEof.submit ⟨.dataEof,buildUuidBody uuid⟩
  else if r = .error then x.submit ⟨.sessionClose,buildUuidBody uuid⟩
  else x.submit ⟨.data,buildUuidDataBody uuid r.bytes⟩

/-- Behind `aconn_write`; its errors are not looked at. -/
def onSent (x : SessionEnd) (f : Frame) : SessionEnd :=
  match f.method with
  | .dataEof => (if x.halfCloseRecv then x.markClosed else x).suspend .ended
  | .sessionClose => x.giveUp
  | _ => x.loop

/-- Behind a frame the coroutine reads again or has come to its end. -/
theorem onSent_pc (x : SessionEnd) (f : Frame) : (x.onSent f).pc = .ended ∨
    (x.onSent f).pc = .reading ∧ (x.onSent f).closed = false ∧ x.closed = false := by
  rw [onSent]
  split
  · exact .inl rfl
  · exact .inl rfl
  · cases hc : x.closed <;> simp [loop, suspend, hc]

theorem onSent_frame (x : SessionEnd) (f : Frame) : (x.onSent f).socket = x.socket ∧
    (x.onSent f).halfCloseRecv = x.halfCloseRecv ∧ (x.onSent f).halfCloseSend = x.halfCloseSend ∧
    (x.onSent f).submitted = x.submitted ∧ (x.onSent f).sent = x.sent := by
  rw [onSent]
  split
  · split_ifs <;> exact ⟨rfl,rfl,rfl,rfl,rfl⟩
  · exact ⟨rfl,rfl,rfl,rfl,rfl⟩
  · exact ⟨rfl,rfl,rfl,rfl,rfl⟩

/-- Nothing has happened in the coroutine. -/
def Steady (y x : SessionEnd) : Prop :=
  y.pc = x.pc ∧ y.halfCloseSend = x.halfCloseSend ∧ y.submitted = x.submitted ∧ y.sent = x.sent

theorem Steady.trans {x y z : SessionEnd} (h : z.Steady y) (h' : y.Steady x) : z.Steady x :=
  ⟨h.1.trans h'.1,h.2.1.trans h'.2.1,h.2.2.1.trans h'.2.2.1,h.2.2.2.trans h'.2.2.2⟩

/-- The frame a read leads to. -/
def readFrame (uuid : Uuid) (r : ReadSome) : Frame :=
  if r = .eof ∨ r.bytes.length = 0 then ⟨.dataEof,buildUuidBody uuid⟩
  else if r = .error then ⟨.sessionClose,buildUuidBody uuid⟩
  else ⟨.data,buildUuidDataBody uuid r.bytes⟩

theorem readFrame_method (uuid : Uuid) (r : ReadSome) : (readFrame uuid r).method = .dataEof ∨
    (readFrame uuid r).method = .sessionClose ∨ (readFrame uuid r).method = .data := by
  rw [readFrame]
  split_ifs <;> simp

/-- An error comes without bytes, so that every read leads to a payload or to `DATA_EOF`. -/
theorem readFrame_cases (uuid : Uuid) (r : ReadSome) : readFrame uuid r = dataEofFrame uuid ∨
    ∃ d, r = .data d ∧ d ≠ [] ∧ readFrame uuid r = dataFrame uuid d := by
  cases r with
  | eof => exact .inl rfl
  | error => exact .inl rfl
  | data d =>
    cases d with
    | nil => exact .inl rfl
    | cons b d => exact .inr ⟨b :: d,rfl,by simp,rfl⟩

/-- Behind a read the coroutine sends one frame. -/
theorem onRead_frame (uuid : Uuid) (x : SessionEnd) (r : ReadSome) :
    (x.onRead uuid r).pc = .sending (readFrame uuid r) false ∧
    (x.onRead uuid r).submitted = x.submitted ++ [readFrame uuid r] ∧
    (x.onRead uuid r).sent = x.sent ∧ (x.onRead uuid r).socket = x.socket ∧
    (x.onRead uuid r).closed = x.closed ∧ (x.onRead uuid r).halfCloseRecv = x.halfCloseRecv := by
  rw [onRead, readFrame]
  split_ifs <;> exact ⟨rfl,rfl,rfl,rfl,rfl,rfl⟩

/-- The read `r` can end a call on the socket. -/
def CanRead (x : SessionEnd) (r : ReadSome) : Prop :=
  r = .error ∨ x.socket.isOpen = true ∧ r.bytes.length ≤ bufSize

instance (x : SessionEnd) (r : ReadSome) : Decidable (x.CanRead r) := inferInstanceAs (Decidable (_ ∨ _))

end SessionEnd

/-- A write of `rest` moves on by `n` bytes; a socket that does not exist any more, is
closed or shut down takes none, and an empty write is over at once. -/
def CanTransfer (live : Prop) (x : SessionEnd) (rest : ByteVector) (n : ℕ) : Prop :=
  rest = [] ∧ n = 0 ∨
    0 < n ∧ n ≤ rest.length ∧ live ∧ x.socket.isOpen = true ∧ x.socket.shutdownSend = false

instance (live : Prop) [Decidable live] (x : SessionEnd) (rest : ByteVector) (n : ℕ) :
    Decidable (CanTransfer live x rest n) := inferInstanceAs (Decidable (_ ∨ _))

/-- What a `DATA` frame carries for the session `u`. -/
def payload (u : Uuid) (f : Frame) : ByteVector :=
  if f.method = .data ∧ UUID_BYTES ≤ f.body.length ∧ f.body.take UUID_BYTES = u then
    f.body.drop UUID_BYTES
  else []

/-- The coroutine is in `aconn_write` and its frame is not written. -/
def SessionEnd.unwritten (x : SessionEnd) : Bool :=
  match x.pc with
  | .sending _ onWire => !onWire
  | _ => false

/-- The ends of the awaits of the coroutine of a session. -/
inductive SessionEvent where
  | connected (ok : Bool)
  | sent
  | readSome (r : ReadSome)
  | transferred (n : ℕ)
  | writeFailed
  deriving DecidableEq

/-- What the frames carry for the session `u`, in their order. -/
def dataOf (u : Uuid) (frames : List Frame) : ByteVector := frames.flatMap (payload u)

@[simp] theorem dataOf_nil (u : Uuid) : dataOf u [] = [] := rfl

@[simp] theorem dataOf_append (u : Uuid) (as bs : List Frame) :
    dataOf u (as ++ bs) = dataOf u as ++ dataOf u bs := List.flatMap_append

@[simp] theorem dataOf_singleton (u : Uuid) (f : Frame) : dataOf u [f] = payload u f := by
  simp [dataOf]

end Msg801.Relay
