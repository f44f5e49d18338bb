import Msg801.Tunnel.Build

/-! # The two directions of one chain

Both read loops of a session call the same chain. What one direction answers is told by its
own calls, whatever the other one is given and whatever it throws.
-/
namespace Msg801.Tunnel
open Stage TwoWayProcessor

/-- The replies of a chain to calls of its two methods, on the left those of local data. -/
def chainReplies (chain : ProcessorChain ProcessorPtr) (calls : List (ByteSpan ⊕ ByteSpan)) :
    List (Reply Byte Abort ⊕ Reply Byte Abort) :=
  replies ProcessorChain.onLocalData ProcessorChain.onRemoteData chain calls

def localReplies (chain : ProcessorChain ProcessorPtr) (calls : List (ByteSpan ⊕ ByteSpan)) :
    List (Reply Byte Abort) :=
  (chainReplies chain calls).filterMap Sum.getLeft?

def remoteReplies (chain : ProcessorChain ProcessorPtr) (calls : List (ByteSpan ⊕ ByteSpan)) :
    List (Reply Byte Abort) :=
  (chainReplies chain calls).filterMap Sum.getRight?

theorem localReplies_eq (chain : ProcessorChain ProcessorPtr) (calls : List (ByteSpan ⊕ ByteSpan)) :
    localReplies chain calls = answers ProcessorChain.onLocalData chain (calls.filterMap Sum.getLeft?) :=
  replies_left ProcessorChain.onLocalData_within ProcessorChain.onRemoteData_unseen chain calls

theorem remoteReplies_eq (chain : ProcessorChain ProcessorPtr) (calls : List (ByteSpan ⊕ ByteSpan)) :
    remoteReplies chain calls = answers ProcessorChain.onRemoteData chain (calls.filterMap Sum.getRight?) :=
  replies_right ProcessorChain.onRemoteData_within ProcessorChain.onLocalData_unseen chain calls

/-- Two runs on a chain that was built, with the same calls of local data among whatever
calls of remote data, are answered alike on local data; and the other way round. -/
theorem directions_apart {C : Crypto} {R : RandomEngine} {host : Host} {reverse : Bool} {specs : List ByteSpan}
    {chain : ProcessorChain ProcessorPtr}
    (_hbuild : buildProcessorChain C R host reverse specs = .ok (some chain))
    (calls calls' : List (ByteSpan ⊕ ByteSpan)) :
    (calls.filterMap Sum.getLeft? = calls'.filterMap Sum.getLeft? →
      localReplies chain calls = localReplies chain calls') ∧
    (calls.filterMap Sum.getRight? = calls'.filterMap Sum.getRight? →
      remoteReplies chain calls = remoteReplies chain calls') := by
  constructor
  · intro h
    rw [localReplies_eq, localReplies_eq, h]
  · intro h
    rw [remoteReplies_eq, remoteReplies_eq, h]

/-- A chain of one padding processor throws where the processor does. -/
theorem onRemoteData_padding {R : RandomEngine} {q : PaddingProcessor R} (h : q.reverse = false)
    (x : ByteSpan) :
    (ProcessorChain.onRemoteData [(⟨q⟩ : ProcessorPtr)] x).error = (PaddingProcessor.unpack q x).error := by
  have hcall : Processor.onRemoteData q x = PaddingProcessor.unpack q x := if_neg (ne_true_of_eq_false h)
  rw [ProcessorChain.onRemoteData_eq_through, List.reverse_singleton]
  cases he : (PaddingProcessor.unpack q x).error with
  | none => simp [through, ProcessorPtr.onRemoteData_mapped q x, hcall, he]
  | some e => simp [through, ProcessorPtr.onRemoteData_mapped q x, hcall, he]

/-- A header that says more than the bounds allow comes before the local data. -/
theorem directions_apart_thrown : ∃ chain,
    buildProcessorChain CfbNonceProcessor.knownCrypto zeroEngine zeroHost false
      [text "padding:chunk=4,max=0"] = .ok (some chain) ∧
    (chain.onRemoteData [0xff,0,0,0,0,0,0,0]).error = some (.runtimeError "invalid padding frame header") ∧
    localReplies chain [.inr [0xff,0,0,0,0,0,0,0], .inl (text "hello")] =
      localReplies chain [.inl (text "hello")] := by
  have hbuild : buildProcessorChain CfbNonceProcessor.knownCrypto zeroEngine zeroHost false
      [text "padding:chunk=4,max=0"] =
        .ok (some [⟨(PaddingProcessor.new 4 0 0 false : PaddingProcessor zeroEngine)⟩]) := rfl
  have hloop : (PaddingProcessor.unpackLoop 4 0 [0xff,0,0,0,0,0,0,0] 0 (Nat.zero_le _)).2.2 =
      some (.runtimeError "invalid padding frame header") := by
    rw [PaddingProcessor.unpackLoop, if_neg (by decide), if_pos (by decide)]
  exact ⟨_,hbuild,(onRemoteData_padding rfl _).trans hloop,(directions_apart hbuild _ _).1 rfl⟩

end Msg801.Tunnel
