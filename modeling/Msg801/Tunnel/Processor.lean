import Msg801.Bytes
import Msg801.Lib.Stage

/-! # The processor interface and the chain of processors -/
namespace Msg801.Tunnel
open Stage

abbrev DataBuffer := ByteVector
abbrev DataBufferList := List DataBuffer

/-- How a call can end other than by returning: a standard exception with its text, or not at all. -/
inductive Abort where
  | runtimeError (what : String)
  | invalidArgument (what : String)
  | outOfRange (what : String)
  | endless
  deriving DecidableEq, Repr

/-- The object after a call, the buffers the call appended to `output`, and how it ended. -/
abbrev Outcome (P : Type*) := Stage.Outcome P Byte Abort

/-- The abstract class: two stream transformations, two flushes, and the role of the object. -/
class Processor (P : Type*) where
  reverse : P → Bool
  pack : P → ByteSpan → Outcome P
  unpack : P → ByteSpan → Outcome P
  flushLocal : P → Outcome P := fun p => ⟨p,[],none⟩
  flushRemote : P → Outcome P := fun p => ⟨p,[],none⟩

namespace Processor
variable {P : Type*} [Processor P]

def onLocalData (p : P) (input : ByteSpan) : Outcome P :=
  if reverse p then unpack p input else pack p input

def onRemoteData (p : P) (input : ByteSpan) : Outcome P :=
  if reverse p then pack p input else unpack p input

end Processor

/-- A processor whose two transformations share nothing that either writes: each is told
by, and changes, its own half of the object. -/
class TwoWayProcessor (P : Type*) extends Processor P where
  packHalf : P → P
  unpackHalf : P → P
  pack_within : Within packHalf pack
  pack_unseen : Unseen unpackHalf pack
  unpack_within : Within unpackHalf unpack
  unpack_unseen : Unseen packHalf unpack
  reverse_packHalf : ∀ p, reverse (packHalf p) = reverse p
  reverse_unpackHalf : ∀ p, reverse (unpackHalf p) = reverse p
  reverse_pack : ∀ p x, reverse (pack p x).state = reverse p
  reverse_unpack : ∀ p x, reverse (unpack p x).state = reverse p

namespace TwoWayProcessor
open Processor
variable {P : Type*} [TwoWayProcessor P]

/-- The half that `on_local_data` uses. -/
def localHalf (p : P) : P := if reverse p then unpackHalf p else packHalf p

/-- The half that `on_remote_data` uses. -/
def remoteHalf (p : P) : P := if reverse p then packHalf p else unpackHalf p

theorem onLocalData_within : Within (localHalf (P := P)) onLocalData := by
  intro p x
  by_cases h : reverse p = true
  · simp [localHalf, onLocalData, h, reverse_unpackHalf, reverse_unpack, unpack_within p x]
  · simp [localHalf, onLocalData, h, reverse_packHalf, reverse_pack, pack_within p x]

theorem onRemoteData_within : Within (remoteHalf (P := P)) onRemoteData := by
  intro p x
  by_cases h : reverse p = true
  · simp [remoteHalf, onRemoteData, h, reverse_packHalf, reverse_pack, pack_within p x]
  · simp [remoteHalf, onRemoteData, h, reverse_unpackHalf, reverse_unpack, unpack_within p x]

theorem onLocalData_unseen : Unseen (remoteHalf (P := P)) onLocalData := by
  intro p x
  by_cases h : reverse p = true
  · simp [remoteHalf, onLocalData, h, reverse_unpack, unpack_unseen p x]
  · simp [remoteHalf, onLocalData, h, reverse_pack, pack_unseen p x]

theorem onRemoteData_unseen : Unseen (localHalf (P := P)) onRemoteData := by
  intro p x
  by_cases h : reverse p = true
  · simp [localHalf, onRemoteData, h, reverse_pack, pack_unseen p x]
  · simp [localHalf, onRemoteData, h, reverse_unpack, unpack_unseen p x]

/-- The role of an object never changes, so it fixes which transformation a direction is. -/
theorem feed_of_reverse {b : Bool} {call call' : P → ByteSpan → Outcome P}
    (hc : ∀ p x, reverse p = b → call' p x = call p x)
    (hr : ∀ p x, reverse (call p x).state = reverse p) {p : P} (hp : reverse p = b)
    (xs : List ByteSpan) : feed call' p xs = feed call p xs := by
  induction xs generalizing p with
  | nil => rfl
  | cons x xs ih =>
    have hnext := ih ((hr p x).trans hp)
    cases he : (call p x).error <;> simp [feed, hc p x hp, he, hnext]

section Roles
variable {Q : Type*} [TwoWayProcessor Q] {p : P} {q : Q}

/-- The forward object packs local data and unpacks remote data, the reverse one the other way. -/
theorem feed_forward (h : reverse p = false) (xs : List ByteSpan) :
    feed onLocalData p xs = feed pack p xs ∧ feed onRemoteData p xs = feed unpack p xs :=
  ⟨feed_of_reverse (fun p x h => by simp [onLocalData, h]) reverse_pack h xs,
    feed_of_reverse (fun p x h => by simp [onRemoteData, h]) reverse_unpack h xs⟩

theorem feed_reverse (h : reverse p = true) (xs : List ByteSpan) :
    feed onLocalData p xs = feed unpack p xs ∧ feed onRemoteData p xs = feed pack p xs :=
  ⟨feed_of_reverse (fun p x h => by simp [onLocalData, h]) reverse_unpack h xs,
    feed_of_reverse (fun p x h => by simp [onRemoteData, h]) reverse_pack h xs⟩

theorem decodes_roles (hp : reverse p = false) (hq : reverse q = true)
    (hl : Decodes pack p unpack q) (hr : Decodes pack q unpack p) :
    Decodes onLocalData p onLocalData q ∧ Decodes onRemoteData q onRemoteData p := by
  have hpf := feed_forward hp
  have hqf := feed_reverse hq
  refine ⟨hl.congr (fun xs => (hpf xs).1) fun ys => (hqf ys).1,
    hr.congr (fun xs => (hqf xs).2) fun ys => (hpf ys).2⟩

end Roles

end TwoWayProcessor

/-- `std::unique_ptr<Processor>`: an object of some class behind the interface. -/
structure ProcessorPtr where
  {Class : Type}
  [interface : TwoWayProcessor Class]
  object : Class

namespace ProcessorPtr
open Processor TwoWayProcessor

/-- What a call through the pointer leaves. -/
def outcome {P : Type} [TwoWayProcessor P] (r : Outcome P) : Outcome ProcessorPtr :=
  ⟨⟨r.state⟩,r.output,r.error⟩

instance : TwoWayProcessor ProcessorPtr where
  reverse p := let _ := p.interface; reverse p.object
  pack p x := let _ := p.interface; outcome (pack p.object x)
  unpack p x := let _ := p.interface; outcome (unpack p.object x)
  flushLocal p := let _ := p.interface; outcome (flushLocal p.object)
  flushRemote p := let _ := p.interface; outcome (flushRemote p.object)
  packHalf p := let _ := p.interface; ⟨packHalf p.object⟩
  unpackHalf p := let _ := p.interface; ⟨unpackHalf p.object⟩
  pack_within p x := let _ := p.interface; congrArg outcome (pack_within p.object x)
  pack_unseen p x :=
    let _ := p.interface
    congrArg (fun o : p.Class => (⟨o⟩ : ProcessorPtr)) (pack_unseen p.object x)
  unpack_within p x := let _ := p.interface; congrArg outcome (unpack_within p.object x)
  unpack_unseen p x :=
    let _ := p.interface
    congrArg (fun o : p.Class => (⟨o⟩ : ProcessorPtr)) (unpack_unseen p.object x)
  reverse_packHalf p := let _ := p.interface; reverse_packHalf p.object
  reverse_unpackHalf p := let _ := p.interface; reverse_unpackHalf p.object
  reverse_pack p x := let _ := p.interface; reverse_pack p.object x
  reverse_unpack p x := let _ := p.interface; reverse_unpack p.object x

section Dispatch
variable {P Q : Type} [TwoWayProcessor P] [TwoWayProcessor Q] {p : P} {q : Q}

theorem onLocalData_mapped : Mapped (fun p : P => (⟨p⟩ : ProcessorPtr)) onLocalData onLocalData := by
  intro p x
  change (if reverse p then outcome (unpack p x) else outcome (pack p x)) = _
  rw [onLocalData]
  split <;> rfl

theorem onRemoteData_mapped : Mapped (fun p : P => (⟨p⟩ : ProcessorPtr)) onRemoteData onRemoteData := by
  intro p x
  change (if reverse p then outcome (pack p x) else outcome (unpack p x)) = _
  rw [onRemoteData]
  split <;> rfl

theorem decodes (h : Decodes onLocalData p onLocalData q ∧ Decodes onRemoteData q onRemoteData p) :
    Decodes onLocalData (⟨p⟩ : ProcessorPtr) onLocalData (⟨q⟩ : ProcessorPtr) ∧
    Decodes onRemoteData (⟨q⟩ : ProcessorPtr) onRemoteData (⟨p⟩ : ProcessorPtr) :=
  ⟨h.1.mapped onLocalData_mapped onLocalData_mapped,h.2.mapped onRemoteData_mapped onRemoteData_mapped⟩

end Dispatch

/-- Objects of this class hold nothing back that a flush would emit. -/
def Silent (p : ProcessorPtr) : Prop :=
  let _ := p.interface
  ∀ o : p.Class, flushLocal o = ⟨o,[],none⟩ ∧ flushRemote o = ⟨o,[],none⟩

theorem Silent.flush {p : ProcessorPtr} (h : p.Silent) :
    flushLocal p = ⟨p,[],none⟩ ∧ flushRemote p = ⟨p,[],none⟩ := by
  let _ := p.interface
  obtain ⟨hl,hr⟩ := h p.object
  exact ⟨congrArg outcome hl,congrArg outcome hr⟩

theorem Silent.onLocalData (p : ProcessorPtr) (x : ByteSpan) (h : p.Silent) :
    (Processor.onLocalData p x).state.Silent := by
  rw [Processor.onLocalData]
  split <;> exact h

theorem Silent.onRemoteData (p : ProcessorPtr) (x : ByteSpan) (h : p.Silent) :
    (Processor.onRemoteData p x).state.Silent := by
  rw [Processor.onRemoteData]
  split <;> exact h

end ProcessorPtr

/-- The processors in the order they were added. -/
abbrev ProcessorChain (P : Type*) := List P

namespace ProcessorChain
variable {P : Type*} [Processor P]

def onLocalData (chain : ProcessorChain P) (input : ByteSpan) : Outcome (ProcessorChain P) :=
  if chain.isEmpty then ⟨chain,[input],none⟩
  else through Processor.onLocalData chain [input]

/-- The remote direction visits the processors from the last to the first. -/
def onRemoteData (chain : ProcessorChain P) (input : ByteSpan) : Outcome (ProcessorChain P) :=
  if chain.isEmpty then ⟨chain,[input],none⟩
  else
    let r := through Processor.onRemoteData chain.reverse [input]
    ⟨r.state.reverse,r.output,r.error⟩

/-- What is pending passes through each stage, which then adds what it had held back. -/
def flushThrough (call : P → ByteSpan → Outcome P) (flush : P → Outcome P) :
    List P → DataBufferList → Outcome (List P)
  | [], cur => ⟨[],cur,none⟩
  | p :: ps, cur =>
    let r := feed call p cur
    match r.error with
    | some e => ⟨r.state :: ps,[],some e⟩
    | none =>
      let f := flush r.state
      match f.error with
      | some e => ⟨f.state :: ps,[],some e⟩
      | none =>
        let q := flushThrough call flush ps (r.output ++ f.output)
        ⟨f.state :: q.state,q.output,q.error⟩

def flushLocal (chain : ProcessorChain P) : Outcome (ProcessorChain P) :=
  flushThrough Processor.onLocalData Processor.flushLocal chain []

def flushRemote (chain : ProcessorChain P) : Outcome (ProcessorChain P) :=
  let r := flushThrough Processor.onRemoteData Processor.flushRemote chain.reverse []
  ⟨r.state.reverse,r.output,r.error⟩

theorem onLocalData_eq_through (chain : ProcessorChain P) (input : ByteSpan) :
    chain.onLocalData input = through Processor.onLocalData chain [input] := by
  cases chain <;> rfl

theorem onRemoteData_eq_through (chain : ProcessorChain P) (input : ByteSpan) :
    chain.onRemoteData input =
      ⟨(through Processor.onRemoteData chain.reverse [input]).state.reverse,
        (through Processor.onRemoteData chain.reverse [input]).output,
        (through Processor.onRemoteData chain.reverse [input]).error⟩ := by
  cases chain <;> rfl

omit [Processor P] in
/-- A chain none of whose stages holds anything back flushes nothing. -/
theorem flushThrough_silent {call : P → ByteSpan → Outcome P} {flush : P → Outcome P}
    {chain : List P} (h : ∀ p ∈ chain, flush p = ⟨p,[],none⟩) :
    flushThrough call flush chain [] = ⟨chain,[],none⟩ := by
  induction chain with
  | nil => rfl
  | cons p ps ih =>
    have hp := h p (by simp)
    have hps := ih fun q hq => h q (by simp [hq])
    simp [flushThrough, hp, hps]

section Silent
variable {chain : ProcessorChain ProcessorPtr}

/-- No stage of the chain emits anything when it is flushed, now or later. -/
def Silent (chain : ProcessorChain ProcessorPtr) : Prop := ∀ p ∈ chain, p.Silent

theorem Silent.onLocalData (h : chain.Silent) (x : ByteSpan) : (chain.onLocalData x).state.Silent := by
  rw [onLocalData_eq_through]
  exact through_keeps ProcessorPtr.Silent.onLocalData h [x]

theorem Silent.onRemoteData (h : chain.Silent) (x : ByteSpan) :
    (chain.onRemoteData x).state.Silent := by
  rw [onRemoteData_eq_through]
  intro p hp
  exact through_keeps ProcessorPtr.Silent.onRemoteData
    (fun q hq => h q (List.mem_reverse.mp hq)) [x] p (List.mem_reverse.mp hp)

theorem Silent.flushLocal (h : chain.Silent) : chain.flushLocal = ⟨chain,[],none⟩ :=
  flushThrough_silent fun p hp => (h p hp).flush.1

theorem Silent.flushRemote (h : chain.Silent) : chain.flushRemote = ⟨chain,[],none⟩ := by
  rw [ProcessorChain.flushRemote,
    flushThrough_silent fun p hp => (h p (List.mem_reverse.mp hp)).flush.2, List.reverse_reverse]

end Silent

section TwoWay
open TwoWayProcessor
variable {Q : Type*} [TwoWayProcessor Q]

theorem onLocalData_within : Within (List.map (localHalf (P := Q))) onLocalData := by
  intro chain x
  simp [onLocalData_eq_through, TwoWayProcessor.onLocalData_within.through]

theorem onLocalData_unseen : Unseen (List.map (remoteHalf (P := Q))) onLocalData := by
  intro chain x
  simp [onLocalData_eq_through, TwoWayProcessor.onLocalData_unseen.through]

theorem onRemoteData_within : Within (List.map (remoteHalf (P := Q))) onRemoteData := by
  intro chain x
  simp [onRemoteData_eq_through, ← List.map_reverse, TwoWayProcessor.onRemoteData_within.through]

theorem onRemoteData_unseen : Unseen (List.map (localHalf (P := Q))) onRemoteData := by
  intro chain x
  rw [onRemoteData_eq_through, List.map_reverse, TwoWayProcessor.onRemoteData_unseen.through,
    List.map_reverse, List.reverse_reverse]

end TwoWay

end ProcessorChain

end Msg801.Tunnel
