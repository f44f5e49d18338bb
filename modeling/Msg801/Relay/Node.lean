import Msg801.Lib.SharedMap
import Msg801.Relay.SessionEnd

/-! # What the two nodes have in common

Both nodes have one coroutine that reads the frames from A and finds their sessions in a
table. All that a step of a node means to a session is in the view the session has of it.
-/
namespace Msg801.Relay

/-- What the reader of a node does on a frame for a session: what becomes of the session,
the payload it goes on to write, and whether the session leaves the table. -/
structure Reaction (σ : Type) where
  session : σ
  write : Option ByteVector := none
  erase : Bool := false

/-- Where the reader is suspended: in `read_frame`, writing to the socket of a session, or,
at B, in the `aconn_write` after a write that failed. At B it is `stale` when the entry it
holds was erased in the meantime; what it does then is undefined. -/
inductive ReaderPc where
  | reading
  | writing (i : ℕ) (rest : ByteVector)
  | closing (i : ℕ) (onWire : Bool)
  | stale
  | ended
  deriving DecidableEq

namespace ReaderPc

/-- The reader goes on to write to a session, or reads the next frame. -/
def next (i : ℕ) : Option ByteVector → ReaderPc
  | some data => .writing i data
  | none => .reading

/-- What is left of the write to a session, if there is one. -/
def pending (r : ReaderPc) (i : ℕ) : Option ByteVector :=
  match r with
  | .writing j rest => if j = i then some rest else none
  | _ => none

/-- A write to the session has failed, and `SESSION_CLOSE` is being sent for it. -/
def isClosing (r : ReaderPc) (i : ℕ) : Bool :=
  match r with
  | .closing j _ => j = i
  | _ => false

@[simp] theorem pending_reading (i : ℕ) : reading.pending i = none := rfl
@[simp] theorem pending_closing (i j : ℕ) (w : Bool) : (closing j w).pending i = none := rfl
@[simp] theorem pending_stale (i : ℕ) : stale.pending i = none := rfl
@[simp] theorem pending_ended (i : ℕ) : ended.pending i = none := rfl
@[simp] theorem isClosing_reading (i : ℕ) : reading.isClosing i = false := rfl
@[simp] theorem isClosing_writing (i j : ℕ) (rest : ByteVector) : (writing j rest).isClosing i = false := rfl
@[simp] theorem isClosing_stale (i : ℕ) : stale.isClosing i = false := rfl
@[simp] theorem isClosing_ended (i : ℕ) : ended.isClosing i = false := rfl
@[simp] theorem isClosing_self (i : ℕ) (w : Bool) : (closing i w).isClosing i = true := by
  simp [isClosing]
theorem isClosing_of_ne {i j : ℕ} (h : j ≠ i) (w : Bool) : (closing j w).isClosing i = false := by
  simp [isClosing, h]

@[simp] theorem pending_self (i : ℕ) (rest : ByteVector) : (writing i rest).pending i = some rest := by
  simp [pending]
theorem pending_of_ne {i j : ℕ} (h : j ≠ i) (rest : ByteVector) : (writing j rest).pending i = none := by
  simp [pending, h]
@[simp] theorem pending_next_self (i : ℕ) (w : Option ByteVector) : (next i w).pending i = w := by
  cases w with
  | none => rfl
  | some data => exact pending_self i data
theorem pending_next_of_ne {i j : ℕ} (h : j ≠ i) (w : Option ByteVector) : (next j w).pending i = none := by
  cases w with
  | none => rfl
  | some data => exact pending_of_ne h data
theorem next_eq_writing {i j : ℕ} {w : Option ByteVector} {data : ByteVector} :
    next i w = .writing j data ↔ i = j ∧ w = some data := by
  cases w <;> simp [next]
theorem next_ne_ended (j : ℕ) (w : Option ByteVector) : next j w ≠ .ended := by
  cases w <;> simp [next]
theorem next_ne_stale (j : ℕ) (w : Option ByteVector) : next j w ≠ .stale := by
  cases w <;> simp [next]
theorem next_ne_closing (j : ℕ) (w : Option ByteVector) (i : ℕ) (b : Bool) : next j w ≠ .closing i b := by
  cases w <;> simp [next]
@[simp] theorem isClosing_next (i j : ℕ) (w : Option ByteVector) : (next j w).isClosing i = false := by
  cases w <;> rfl

end ReaderPc

/-- A node: its sessions and their table, the reader, the frames the reader has taken and
the frames written to A. `lost` is set when the reader has found the end of that
connection, `broken` when a write to it failed. -/
structure Node (σ : Type) where
  sessions : SharedMap Uuid σ
  reader : ReaderPc := .reading
  frames : List Frame := []
  wire : List Frame := []
  lost : Bool := false
  broken : Bool := false

/-- The node as one of its sessions sees it. -/
@[ext]
structure View (σ : Type) where
  session : σ
  entered : Bool
  pending : Option ByteVector := none
  closing : Bool := false
  frames : List Frame
  lost : Bool

namespace Node
variable {σ : Type}

def view (s : Node σ) (i : ℕ) : View σ where
  session := s.sessions.cell i
  entered := s.sessions.Entered i
  pending := s.reader.pending i
  closing := s.reader.isClosing i
  frames := s.frames
  lost := s.lost

section View
variable (s : Node σ) (i : ℕ)

@[simp] theorem view_session : (s.view i).session = s.sessions.cell i := rfl
@[simp] theorem view_entered : (s.view i).entered = decide (s.sessions.Entered i) := rfl
@[simp] theorem view_pending : (s.view i).pending = s.reader.pending i := rfl
@[simp] theorem view_closing : (s.view i).closing = s.reader.isClosing i := rfl
@[simp] theorem view_frames : (s.view i).frames = s.frames := rfl
@[simp] theorem view_lost : (s.view i).lost = s.lost := rfl

end View

/-- The connection to A was lost: the reader has found its end, or a write to it failed. -/
def CutOff (s : Node σ) : Prop := s.lost = true ∨ s.broken = true

/-- The reader has taken a frame for the session `i`. -/
def dispatch (s : Node σ) (i : ℕ) (r : Reaction σ) : Node σ :=
  { s with
    sessions := s.sessions.put i r.session r.erase
    reader := .next i r.write }

variable {s t : Node σ} {i j : ℕ} {x : σ} {b : Bool}

/-- A session is seen as `v`, but where it is not `safe` its entry may be gone. -/
def Shows (s : Node σ) (i : ℕ) (safe : Prop) (v : View σ) : Prop :=
  s.view i = v ∨ s.view i = { v with entered := false } ∧ ¬safe

theorem Shows.session {safe : Prop} {v : View σ} (h : s.Shows i safe v) :
    s.sessions.cell i = v.session := by
  rcases h with h | ⟨h,-⟩ <;> exact congrArg View.session h

theorem Shows.frames {safe : Prop} {v : View σ} (h : s.Shows i safe v) : s.frames = v.frames := by
  rcases h with h | ⟨h,-⟩ <;> exact congrArg View.frames h

theorem Shows.entered {safe : Prop} {v : View σ} (h : s.Shows i safe v) (he : s.sessions.Entered i) :
    v.entered = true := by
  rcases h with h | ⟨h,-⟩
  · simpa [he] using (congrArg View.entered h).symm
  · simpa [he] using congrArg View.entered h

theorem shows_of_entered {safe : Prop} {v : View σ} (h : s.sessions.Entered i → v.entered = true)
    (hsafe : safe → v.entered = true → s.sessions.Entered i)
    (hv : s.view i = { v with entered := s.sessions.Entered i }) : s.Shows i safe v := by
  by_cases he : v.entered = true → s.sessions.Entered i
  · have hb : decide (s.sessions.Entered i) = v.entered := by
      rw [Bool.eq_iff_iff, decide_eq_true_iff]
      exact ⟨h,he⟩
    exact .inl (by rw [hv, hb])
  · obtain ⟨hv',hn⟩ : v.entered = true ∧ ¬s.sessions.Entered i := by simpa using he
    refine .inr ⟨hv.trans ?_,fun hs => hn (hsafe hs hv')⟩
    ext <;> simp [hn]

/-- What happens to one session and its socket is nothing to the others. -/
theorem shows_of_ne {safe : Prop} (hd : safe → s.sessions.Distinct) (hi : b = true → i < s.sessions.count)
    (ht : t.sessions = s.sessions.put i x b) (hji : j ≠ i)
    (hr : t.reader.pending j = s.reader.pending j ∧ t.reader.isClosing j = s.reader.isClosing j)
    (hf : t.frames = s.frames) (hl : t.lost = s.lost) : t.Shows j safe (s.view j) := by
  refine shows_of_entered (fun h => ?_) (fun hs h => ?_) ?_
  · rw [ht] at h
    exact decide_eq_true (SharedMap.entered_of_put h)
  · rw [ht, (hd hs).put_entered_of_ne _ _ hi hji]
    exact of_decide_eq_true h
  · ext <;> simp [ht, hr, hf, hl, SharedMap.put_cell_of_ne _ _ _ hji]

/-- A frame for one session is only one more frame to the others. -/
theorem shows_dispatch_of_ne {safe : Prop} (hd : safe → s.sessions.Distinct) (hr : s.reader = .reading)
    (hi : i < s.sessions.count) (hji : j ≠ i) (r : Reaction σ) :
    (s.dispatch i r).Shows j safe (s.view j) := by
  refine shows_of_ne hd (fun _ => hi) rfl hji ?_ rfl rfl
  simp [dispatch, hr, ReaderPc.pending_next_of_ne (Ne.symm hji)]

theorem view_dispatch_self (hr : s.reader = .reading) (he : s.sessions.Entered i) (r : Reaction σ) :
    (s.dispatch i r).view i = { s.view i with
      session := r.session
      entered := !r.erase
      pending := r.write } := by
  ext <;> simp [dispatch, hr, SharedMap.put_entered_self, he]

end Node

end Msg801.Relay
