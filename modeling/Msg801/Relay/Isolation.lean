import Msg801.Relay.Provider

/-! # A failed write to a remote

The write of the reader to one remote fails by an exception that ends the reader, and with
it every session; a write from the arrival buffer fails by one that ends the coroutine of
its session and leaves the rest of the session standing. No failed write is confined to its
session and answered with `SESSION_CLOSE`.
-/
namespace Msg801.Relay
open Transition

namespace Provider

/-- The step is a write to the remote of the session `i` that fails. -/
def FailedWrite (s : Provider) (i : ℕ) : ProviderEvent → Prop
  | .writeFailed => ∃ rest, s.reader = .writing i rest
  | .session j .writeFailed => j = i
  | _ => False

/-- The session has a remote socket that is open. -/
def RemoteOpen (s : Provider) (i : ℕ) : Prop :=
  s.Live i ∧ (s.sessions.cell i).remoteConnected = true ∧ (s.sessions.cell i).socket.isOpen = true

/-- The reader goes on, and the sessions other than `i` stay in the table with their remotes
open. -/
def Spares (s t : Provider) (i : ℕ) : Prop :=
  t.reader ≠ .ended ∧ ∀ j, j ≠ i → s.sessions.Entered j →
    t.sessions.Entered j ∧ (s.RemoteOpen j → t.RemoteOpen j)

/-- `SESSION_CLOSE` has been sent for the session since, and the session removed. -/
def Dismisses (s t : Provider) (i : ℕ) : Prop :=
  ⟨.sessionClose,buildUuidBody (s.sessions.key i)⟩ ∈
    (t.sessions.cell i).submitted.drop (s.sessions.cell i).submitted.length ∧ ¬t.sessions.Entered i

/-- Every failed write of the run ends its own session and no other: the others are spared,
and when the coroutine of the session has come to its end the session is dismissed. -/
def Isolated (events : List ProviderEvent) : Prop :=
  ∀ pre e post, events = pre ++ e :: post → ∀ s t i, run step {} pre = some s → s.step e = some t →
    s.FailedWrite i e → s.Spares t i ∧ ∀ mid u, mid <+: post → run step t mid = some u →
      (u.sessions.cell i).pc = .ended → s.Dismisses u i

theorem step_writeFailed {s t : Provider} (hs : s.step .writeFailed = some t) : t.reader = .ended := by
  cases step_turn hs with
  | thrown => rfl

theorem step_session_writeFailed {s t : Provider} {i : ℕ} (hs : s.step (.session i .writeFailed) = some t) :
    (t.sessions.cell i).pc = .ended ∧
      (t.sessions.cell i).submitted = (s.sessions.cell i).submitted := by
  cases step_turn hs with
  | resumed _ _ x hi hx =>
    rw [onResumed, SharedMap.put_cell_self]
    cases SessionState.resume_resumes hx with
    | failed rest left hpc => exact ⟨rfl,rfl⟩

/-- The sessions of a run are isolated from each other exactly when no write fails. -/
theorem isolated_iff_no_failed_write {events : List ProviderEvent} {s : Provider}
    (hrun : run step {} events = some s) :
    Isolated events ↔ Meets step (fun s e => ∀ i, ¬s.FailedWrite i e) {} events := by
  constructor
  · rintro hiso pre e post rfl t ht i hf
    obtain ⟨t',ht',hrest⟩ := run_append_some.mp hrun
    obtain rfl := Option.some.inj (ht.symm.trans ht')
    obtain ⟨u,hu,-⟩ := Option.bind_eq_some_iff.mp hrest
    obtain ⟨hspares,hdismiss⟩ := hiso pre e post rfl t u i ht hu hf
    match e, hf with
    | .writeFailed, _ => exact hspares.1 (step_writeFailed hu)
    | .session j .writeFailed, hj =>
      obtain rfl : j = i := hj
      obtain ⟨hpc,hsent⟩ := step_session_writeFailed hu
      have hclose := (hdismiss [] u (List.nil_prefix) rfl hpc).1
      simp [hsent] at hclose
  · intro hm pre e post he t u i ht _ hf
    exact absurd hf (hm pre e post he t ht i)

def uuidA : Uuid := text "0f8fad5b-d9cb-469f-a165-70867728950e"
def uuidB : Uuid := text "7c9e6679-7425-40de-944b-e07fc1f90ae7"

/-- Two sessions with connected remotes, and a payload on its way to the first. -/
def twoSessions : List ProviderEvent :=
  [.read (.frame ⟨.forwardSession,uuidA⟩), .read (.frame ⟨.forwardSession,uuidB⟩),
    .session 0 (.connected true), .session 1 (.connected true),
    .read (.frame ⟨.data,uuidA ++ text "a"⟩)]

theorem isolated_iff_no_failed_write_twoSessions : ∃ s, run step {} twoSessions = some s ∧
    Isolated twoSessions := by
  obtain ⟨s,hrun⟩ : ∃ s, run step {} twoSessions = some s := ⟨_,rfl⟩
  have hm : Meets step (fun s e => ∀ i, ¬s.FailedWrite i e) {} twoSessions :=
    .cons (fun _ => id) rfl (.cons (fun _ => id) rfl (.cons (fun _ => id) rfl (.cons (fun _ => id) rfl
      (.cons (fun _ => id) rfl (.nil _)))))
  exact ⟨s,hrun,(isolated_iff_no_failed_write hrun).mpr hm⟩

/-- The write to the first remote fails, and the second session goes with it. -/
theorem twoSessions_not_isolated : ∃ s t, run step {} twoSessions = some s ∧
    s.step .writeFailed = some t ∧ s.sessions.Entered 1 ∧ s.RemoteOpen 1 ∧
    ¬t.sessions.Entered 1 ∧ ¬t.RemoteOpen 1 ∧ ¬Isolated (twoSessions ++ [.writeFailed]) := by
  obtain ⟨s,t,hrun,hs,hwrite,hbefore,hopen,hafter,hclosed⟩ : ∃ s t, run step {} twoSessions = some s ∧
      s.step .writeFailed = some t ∧ s.FailedWrite 0 .writeFailed ∧ s.sessions.Entered 1 ∧
      s.RemoteOpen 1 ∧ ¬t.sessions.Entered 1 ∧ (t.sessions.cell 1).socket.isOpen = false :=
    ⟨_,_,rfl,rfl,⟨_,rfl⟩,by decide +kernel,⟨.inl (by decide +kernel),rfl,rfl⟩,by decide +kernel,rfl⟩
  refine ⟨s,t,hrun,hs,hbefore,hopen,hafter,fun h => ?_,fun h => ?_⟩
  · exact Bool.false_ne_true (hclosed.symm.trans h.2.2)
  · have hspares := (h twoSessions .writeFailed [] rfl s t 0 hrun hs hwrite).1
    exact hafter (hspares.2 1 (by decide) hbefore).1

end Provider

end Msg801.Relay
