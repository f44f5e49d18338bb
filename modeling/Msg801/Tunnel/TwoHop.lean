import Msg801.Lib.Duplex
import Msg801.Tunnel.Build

/-! # The two ends of a tunnel

The same specifications are built on both ends, forward on the one and in reverse on the
other. Whatever the two machines draw, the second end decodes what the first one sends
and the first one decodes the replies.
-/
namespace Msg801.Tunnel
open Stage Processor TwoWayProcessor

/-- A specification that asks for nothing the two ends would disagree on: no role of its
own, chunks that are not empty, and a MAC key the library takes. -/
structure Plain (spec : ByteSpan) : Prop where
  noReverse : specKv spec (text "reverse") = none
  chunk : specName spec = text "padding" → ∀ v ∈ specKv spec (text "chunk"),
    ∀ chunk ∈ (stoull v).toOption, 1 ≤ chunk.toNat
  hmacKey : specName spec = text "cfb_nonce" →
    ∀ key ∈ specKv spec (text "hmac_key"), key.length ≤ INT_MAX

-- The bound on the chunk is decided on the one value there is, not over all of `UInt64`.
instance (spec : ByteSpan) : Decidable (Plain spec) :=
  decidable_of_iff (specKv spec (text "reverse") = none ∧
    (specName spec = text "padding" → ∀ v ∈ specKv spec (text "chunk"),
      (stoull v).toOption.all fun chunk => decide (1 ≤ chunk.toNat)) ∧
    (specName spec = text "cfb_nonce" →
      ∀ key ∈ specKv spec (text "hmac_key"), key.length ≤ INT_MAX)) (by
    simp only [Option.all_eq_true, decide_eq_true_eq]
    exact ⟨fun ⟨h₁,h₂,h₃⟩ => ⟨h₁,h₂,h₃⟩,fun ⟨h₁,h₂,h₃⟩ => ⟨h₁,h₂,h₃⟩⟩)

/-- The second decodes what the first makes of local data, the first what the second makes
of remote data. -/
def Paired (p q : ProcessorPtr) : Prop :=
  Decodes onLocalData p onLocalData q ∧ Decodes onRemoteData q onRemoteData p

section Pairs
variable {C : Crypto} {RE RX : RandomEngine}

theorem identity_paired (p q : IdentityProcessor) (hp : p.reverse = false) (hq : q.reverse = false) :
    Paired ⟨p⟩ ⟨q⟩ :=
  ProcessorPtr.decodes ⟨(IdentityProcessor.decodes p q).congr (fun xs => (feed_forward hp xs).1)
      fun ys => (feed_forward hq ys).1,
    (IdentityProcessor.decodes q p).congr (fun xs => (feed_forward hq xs).2)
      fun ys => (feed_forward hp ys).2⟩

theorem cfb_paired (key : ByteSpan) :
    Paired ⟨CfbProcessor.new key false⟩ ⟨CfbProcessor.new key true⟩ :=
  ProcessorPtr.decodes (decodes_roles rfl rfl (CfbProcessor.decodes rfl) (CfbProcessor.decodes rfl))

theorem cfbNonce_paired {iv hmacKey : ByteSpan} {randE randX : ℕ → Option Nonce}
    (hk : hmacKey.length ≤ INT_MAX) (hE : randE 0 ≠ none) (hX : randX 0 ≠ none) :
    Paired ⟨(CfbNonceProcessor.new iv hmacKey false randE : CfbNonceProcessor C)⟩
      ⟨(CfbNonceProcessor.new iv hmacKey true randX : CfbNonceProcessor C)⟩ := by
  obtain ⟨nonceE,hE⟩ := Option.ne_none_iff_exists'.mp hE
  obtain ⟨nonceX,hX⟩ := Option.ne_none_iff_exists'.mp hX
  exact ProcessorPtr.decodes (decodes_roles rfl rfl
    (CfbNonceProcessor.decodes rfl rfl hE rfl rfl rfl rfl rfl hk)
    (CfbNonceProcessor.decodes rfl rfl hX rfl rfl rfl rfl rfl hk))

theorem padding_paired {chunk max : ℕ} {seedE seedX : UInt64} (hc : 1 ≤ chunk)
    (hc' : chunk < 2 ^ 32) (hm : max < 2 ^ 32) :
    Paired ⟨(PaddingProcessor.new chunk max seedE false : PaddingProcessor RE)⟩
      ⟨(PaddingProcessor.new chunk max seedX true : PaddingProcessor RX)⟩ := by
  have hpack : Decodes pack (PaddingProcessor.new chunk max seedE false : PaddingProcessor RE)
      unpack (PaddingProcessor.new chunk max seedX true : PaddingProcessor RX) :=
    PaddingProcessor.decodes hc hc' hm rfl rfl rfl
  have hreply : Decodes pack (PaddingProcessor.new chunk max seedX true : PaddingProcessor RX)
      unpack (PaddingProcessor.new chunk max seedE false : PaddingProcessor RE) :=
    PaddingProcessor.decodes hc hc' hm rfl rfl rfl
  refine ProcessorPtr.decodes ⟨?_,?_⟩
  · exact hpack.congr (fun xs => (feed_forward rfl xs).1) fun ys => (feed_reverse rfl ys).1
  · exact hreply.congr (fun xs => (feed_reverse rfl xs).2) fun ys => (feed_forward rfl ys).2

theorem resolve_plain {spec : ByteSpan} (hs : Plain spec) (reverse : Bool) :
    resolveProcessorReverse (specKv spec) reverse = reverse := by
  rw [resolveProcessorReverse, hs.noReverse]

/-- One specification built on the two ends. -/
theorem buildProcessor_paired {hostE hostX : Host} {i j : ℕ} {spec : ByteSpan} {p q : ProcessorPtr}
    (hs : Plain spec) (hE : ∀ i k, hostE.randBytes i k ≠ none) (hX : ∀ i k, hostX.randBytes i k ≠ none)
    (hp : buildProcessor C RE hostE false i spec = .ok (some p))
    (hq : buildProcessor C RX hostX true j spec = .ok (some q)) : Paired p q := by
  have hrole := resolve_plain hs
  obtain ⟨hn,rfl⟩ | ⟨hn,key,hk,rfl⟩ | ⟨hn,iv,hmacKey,hi,hk,-,rfl⟩ | ⟨hn,a,ha,rfl⟩ :=
    buildProcessor_some hp
  all_goals
    obtain ⟨hn',rfl⟩ | ⟨hn',key',hk',rfl⟩ | ⟨hn',iv',hmacKey',hi',hk',-,rfl⟩ | ⟨hn',b,hb,rfl⟩ :=
      buildProcessor_some hq
  all_goals first | exact absurd (hn.symm.trans hn') (by decide) | skip
  · exact identity_paired _ _ rfl rfl
  · obtain rfl := Option.some.inj (hk.symm.trans hk')
    rw [hrole, hrole]
    exact cfb_paired key
  · obtain rfl := Option.some.inj (hi.symm.trans hi')
    obtain rfl := Option.some.inj (hk.symm.trans hk')
    rw [hrole, hrole]
    exact cfbNonce_paired (hs.hmacKey hn _ hk) (hE i 0) (hX j 0)
  · obtain ⟨c,m,hc,hm,h₁,h₂,hlimit,-⟩ := paddingArgs_some ha
    obtain ⟨c',m',hc',hm',h₁',h₂',-⟩ := paddingArgs_some hb
    obtain rfl := Option.some.inj (hc.symm.trans hc')
    obtain rfl := Option.some.inj (hm.symm.trans hm')
    rw [hrole, hrole, ← Except.ok.inj (h₁.symm.trans h₁'), ← Except.ok.inj (h₂.symm.trans h₂')]
    have hpos := hs.chunk hn c hc a.chunk (by rw [h₁]; rfl)
    rw [U32_MAX_AS_SIZE_T] at hlimit
    exact padding_paired hpos (by omega) (by omega)

end Pairs

/-- Lists built in step with a third are in step with each other. -/
theorem forall₂_of_common {α β γ : Type*} {r : α → β → Prop} {s : α → γ → Prop} {t : β → γ → Prop}
    {as : List α} {bs : List β} {cs : List γ} (hb : List.Forall₂ r as bs)
    (hc : List.Forall₂ s as cs) (h : ∀ a b c, r a b → s a c → t b c) : List.Forall₂ t bs cs := by
  induction hb generalizing cs with
  | nil =>
    cases hc
    exact .nil
  | cons hab _ ih =>
    cases hc with
    | cons hac hrest => exact .cons (h _ _ _ hab hac) (ih hrest)

/-- The chains built from the same specifications pair up, the reverse one from its end. -/
theorem buildProcessorChain_paired {C : Crypto} {RE : RandomEngine} (RX : RandomEngine) {hostE hostX : Host}
    {specs : List ByteSpan} {E : ProcessorChain ProcessorPtr} (hs : ∀ spec ∈ specs, Plain spec)
    (hE : ∀ i k, hostE.randBytes i k ≠ none) (hX : ∀ i k, hostX.randBytes i k ≠ none)
    (h : buildProcessorChain C RE hostE false specs = .ok (some E)) :
    ∃ X, buildProcessorChain C RX hostX true specs = .ok (some X) ∧ List.Forall₂ Paired E X.reverse := by
  rw [buildProcessorChain] at h
  by_cases hempty : specs.isEmpty = true
  · rw [if_pos hempty] at h
    obtain rfl := Option.some.inj (Except.ok.inj h)
    refine ⟨_,if_pos hempty,.cons (identity_paired _ _ rfl rfl) .nil⟩
  rw [if_neg hempty] at h
  obtain ⟨_,rfl,hbuilt⟩ := addProcessors_some h
  have haccepted : ∀ spec ∈ specs, ∃ i p, buildProcessor C RE hostE false i spec = .ok (some p) := by
    have hboth : List.Forall₂ (fun spec (_ : ProcessorPtr) =>
        (∃ i p, buildProcessor C RE hostE false i spec = .ok (some p)) ∧ True) specs _ :=
      hbuilt.imp fun _ p hb => ⟨hb.imp fun _ hb => ⟨p,hb⟩,trivial⟩
    exact ((List.forall₂_and_left _ _).mp hboth).1
  have hpairs : ∀ spec ∈ specs.reverse, ∀ j, ∃ q, buildProcessor C RX hostX true j spec = .ok (some q) ∧
      ∀ p, (∃ i, buildProcessor C RE hostE false i spec = .ok (some p)) → Paired p q := by
    intro spec hspec j
    obtain ⟨i,p,hp⟩ := haccepted spec (List.mem_reverse.mp hspec)
    obtain ⟨q,hq⟩ := buildProcessor_accepts hp RX hostX true j
    refine ⟨q,hq,?_⟩
    rintro p' ⟨_,hp'⟩
    exact buildProcessor_paired (hs spec (List.mem_reverse.mp hspec)) hE hX hp' hq
  obtain ⟨qs,hqs,hgood⟩ := addProcessors_of hpairs 0 []
  refine ⟨qs,?_,?_⟩
  · rw [buildProcessorChain, if_neg hempty]
    exact hqs
  · have hrev := List.forall₂_reverse_iff.mpr hgood
    rw [List.reverse_reverse] at hrev
    exact forall₂_of_common hbuilt hrev fun _ _ _ hp hg => hg _ hp

/-- The remote direction is the local one of the chain read backwards. -/
theorem onRemoteData_mapped : Mapped List.reverse
    (fun ps x => through onRemoteData ps [x]) (ProcessorChain.onRemoteData (P := ProcessorPtr)) := by
  intro ps x
  rw [ProcessorChain.onRemoteData_eq_through, List.reverse_reverse]

theorem chains_decode {E X : ProcessorChain ProcessorPtr} (h : List.Forall₂ Paired E X.reverse) :
    Decodes ProcessorChain.onLocalData E ProcessorChain.onLocalData X ∧
    Decodes ProcessorChain.onRemoteData X ProcessorChain.onRemoteData E := by
  have hlocal := Decodes.chain (h.imp fun _ _ h => h.1)
  have hremote := Decodes.chain (h.imp fun _ _ h => h.2).flip
  rw [List.reverse_reverse] at hlocal
  have heq : ProcessorChain.onLocalData (P := ProcessorPtr) = fun ps x => through onLocalData ps [x] :=
    funext fun ps => funext fun x => ProcessorChain.onLocalData_eq_through ps x
  rw [heq]
  refine ⟨hlocal,?_⟩
  have hm := hremote.mapped onRemoteData_mapped onRemoteData_mapped
  rwa [List.reverse_reverse, List.reverse_reverse] at hm

/-- The tunnel between two chains: local data goes up and remote data comes down. -/
def tunnel : Duplex.Methods (ProcessorChain ProcessorPtr) (ProcessorChain ProcessorPtr) Byte Abort where
  sendUp := ProcessorChain.onLocalData
  receiveUp := ProcessorChain.onLocalData
  sendDown := ProcessorChain.onRemoteData
  receiveDown := ProcessorChain.onRemoteData

theorem tunnel_separated : Duplex.Separated tunnel (List.map localHalf) (List.map remoteHalf)
    (List.map localHalf) (List.map remoteHalf) where
  sendUp := ProcessorChain.onLocalData_within
  sendUp_unseen := ProcessorChain.onLocalData_unseen
  receiveUp := ProcessorChain.onLocalData_within
  receiveUp_unseen := ProcessorChain.onLocalData_unseen
  sendDown := ProcessorChain.onRemoteData_within
  sendDown_unseen := ProcessorChain.onRemoteData_unseen
  receiveDown := ProcessorChain.onRemoteData_within
  receiveDown_unseen := ProcessorChain.onRemoteData_unseen

/-- Specifications the forward end accepts are accepted by the reverse end, and between the
two chains every interleaving of inputs and deliveries runs without an exception, delivers
beginnings of the inputs, and all of them once the wires are empty. -/
theorem two_hop_transparent (C : Crypto) (RE RX : RandomEngine) (hostE hostX : Host)
    (specs : List ByteSpan) (E : ProcessorChain ProcessorPtr) (hs : ∀ spec ∈ specs, Plain spec)
    (hE : ∀ i k, hostE.randBytes i k ≠ none) (hX : ∀ i k, hostX.randBytes i k ≠ none)
    (h : buildProcessorChain C RE hostE false specs = .ok (some E)) :
    ∃ X, buildProcessorChain C RX hostX true specs = .ok (some X) ∧
      ∀ events : List (Duplex.Event Byte), ∃ l,
        events.foldlM (Duplex.step tunnel) (Duplex.Link.fresh E X) = .ok l ∧
        l.upGot <+: l.upSent ∧ (l.up = [] → l.upGot = l.upSent) ∧
        l.downGot <+: l.downSent ∧ (l.down = [] → l.downGot = l.downSent) := by
  obtain ⟨X,hbuild,hpairs⟩ := buildProcessorChain_paired RX hs hE hX h
  obtain ⟨hlocal,hremote⟩ := chains_decode hpairs
  exact ⟨X,hbuild,Duplex.transparent tunnel_separated hlocal hremote⟩

def stackedSpecs : List ByteSpan :=
  [text "padding:chunk=4,max=0", text "cfb_nonce:iv=v,hmac_key=k", text "identity"]

theorem two_hop_transparent_stacked : ∃ E X l,
    buildProcessorChain CfbNonceProcessor.knownCrypto zeroEngine zeroHost false stackedSpecs = .ok (some E) ∧
    buildProcessorChain CfbNonceProcessor.knownCrypto zeroEngine zeroHost true stackedSpecs = .ok (some X) ∧
    [Duplex.Event.sendUp (text "hello"), .deliverUp 20, .sendDown (text "ok"), .deliverDown 9,
      .deliverUp 900].foldlM (Duplex.step tunnel) (Duplex.Link.fresh E X) = .ok l ∧
    l.upGot <+: l.upSent ∧ (l.up = [] → l.upGot = l.upSent) := by
  have hplain : ∀ spec ∈ stackedSpecs, Plain spec := by decide +kernel
  obtain ⟨E,hE⟩ : ∃ E, buildProcessorChain CfbNonceProcessor.knownCrypto zeroEngine zeroHost false stackedSpecs =
      .ok (some E) := ⟨_,rfl⟩
  obtain ⟨X,hX,hrun⟩ := two_hop_transparent CfbNonceProcessor.knownCrypto zeroEngine zeroEngine zeroHost zeroHost
    stackedSpecs E hplain (fun _ _ => Option.some_ne_none _) (fun _ _ => Option.some_ne_none _) hE
  obtain ⟨l,hl,hgot,hall,-⟩ := hrun [.sendUp (text "hello"), .deliverUp 20, .sendDown (text "ok"),
    .deliverDown 9, .deliverUp 900]
  exact ⟨E,X,l,hE,hX,hl,hgot,hall⟩

end Msg801.Tunnel
