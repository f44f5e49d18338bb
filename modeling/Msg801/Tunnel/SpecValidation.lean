import Msg801.Address

/-! # Which specifications are accepted

A specification is well-formed when its arguments are complete and its numbers are numerals.
What is not is refused, or read as something else, or ends the build with an exception.
-/
namespace Msg801.Tunnel

/-- The form of a specification that the manual asks for. -/
inductive WellFormed (spec : ByteSpan) : Prop where
  | identity (h : specName spec = text "identity")
  | cfb (h : specName spec = text "cfb") {key : ByteVector} (hk : specKv spec (text "key") = some key)
  | cfbNonce (h : specName spec = text "cfb_nonce") {iv hmacKey : ByteVector}
      (hi : specKv spec (text "iv") = some iv) (hk : specKv spec (text "hmac_key") = some hmacKey)
      (hne : iv ≠ [] ∧ hmacKey ≠ [])
  | padding (h : specName spec = text "padding") {chunkText maxText : ByteVector} {chunk max : ℕ}
      (hc : specKv spec (text "chunk") = some chunkText) (hm : specKv spec (text "max") = some maxText)
      (hchunk : Numeral chunkText chunk) (hmax : Numeral maxText max)
      (hb : chunk ≤ U32_MAX_AS_SIZE_T ∧ max ≤ U32_MAX_AS_SIZE_T)
      (hs : ∀ v ∈ specKv spec (text "seed"), ∃ seed < 2 ^ 64, Numeral v seed)

/-- The numbers of a padding specification that are refused: one is missing, or they can be
read and one is too large. -/
inductive PaddingRefused (kv : KeyValues) : Prop where
  | missing (h : kv (text "chunk") = none ∨ kv (text "max") = none)
  | large {chunkText maxText : ByteVector} {chunk max : UInt64} (hc : kv (text "chunk") = some chunkText)
      (hm : kv (text "max") = some maxText) (hchunk : Scans chunkText chunk) (hmax : Scans maxText max)
      (hb : chunk.toNat > U32_MAX_AS_SIZE_T ∨ max.toNat > U32_MAX_AS_SIZE_T)

/-- The numbers that end the build with an exception: one cannot be read. -/
inductive PaddingThrows (kv : KeyValues) : Prop where
  | number {chunkText maxText : ByteVector} (hc : kv (text "chunk") = some chunkText)
      (hm : kv (text "max") = some maxText) (h : (∀ n, ¬Scans chunkText n) ∨ ∀ n, ¬Scans maxText n)
  | seed {chunkText maxText seedText : ByteVector} {chunk max : UInt64}
      (hc : kv (text "chunk") = some chunkText) (hm : kv (text "max") = some maxText)
      (hchunk : Scans chunkText chunk) (hmax : Scans maxText max)
      (hb : ¬(chunk.toNat > U32_MAX_AS_SIZE_T ∨ max.toNat > U32_MAX_AS_SIZE_T))
      (hs : kv (text "seed") = some seedText) (h : ∀ n, ¬Scans seedText n)

inductive Refused (spec : ByteSpan) : Prop where
  | unknown (h : specName spec ∉ [text "identity", text "cfb", text "cfb_nonce", text "padding"])
  | cfb (h : specName spec = text "cfb") (hk : specKv spec (text "key") = none)
  | cfbNonce (h : specName spec = text "cfb_nonce")
      (hv : (∀ iv ∈ specKv spec (text "iv"), iv = []) ∨ ∀ key ∈ specKv spec (text "hmac_key"), key = [])
  | padding (h : specName spec = text "padding") (hp : PaddingRefused (specKv spec))

def Throws (spec : ByteSpan) : Prop := specName spec = text "padding" ∧ PaddingThrows (specKv spec)

/-- Some specification is refused, and none before it throws. -/
inductive RefusedFirst : List ByteSpan → Prop where
  | here {spec : ByteSpan} {specs : List ByteSpan} (h : Refused spec) : RefusedFirst (spec :: specs)
  | there {spec : ByteSpan} {specs : List ByteSpan} (h : ¬Throws spec) (hs : RefusedFirst specs) :
      RefusedFirst (spec :: specs)

section Configuration
variable (C : Crypto) (R : RandomEngine) (host : Host) (reverse : Bool)

/-- The processor that a specification denotes at its place in the chain. -/
inductive Configured (index : ℕ) (spec : ByteSpan) : ProcessorPtr → Prop where
  | identity (h : specName spec = text "identity") : Configured index spec ⟨({} : IdentityProcessor)⟩
  | cfb (h : specName spec = text "cfb") {key : ByteVector} (hk : specKv spec (text "key") = some key) :
      Configured index spec ⟨CfbProcessor.new key (resolveProcessorReverse (specKv spec) reverse)⟩
  | cfbNonce (h : specName spec = text "cfb_nonce") {iv hmacKey : ByteVector}
      (hi : specKv spec (text "iv") = some iv) (hk : specKv spec (text "hmac_key") = some hmacKey) :
      Configured index spec ⟨(CfbNonceProcessor.new iv hmacKey (resolveProcessorReverse (specKv spec) reverse)
        (host.randBytes index) : CfbNonceProcessor C)⟩
  | padding (h : specName spec = text "padding") {chunkText maxText : ByteVector} {chunk max : ℕ} {seed : UInt64}
      (hc : specKv spec (text "chunk") = some chunkText) (hm : specKv spec (text "max") = some maxText)
      (hchunk : Numeral chunkText chunk) (hmax : Numeral maxText max)
      (hs : (∃ v, specKv spec (text "seed") = some v ∧ Numeral v seed.toNat) ∨
        specKv spec (text "seed") = none ∧ seed = host.autoSeed index) :
      Configured index spec ⟨(PaddingProcessor.new chunk max seed (resolveProcessorReverse (specKv spec) reverse) :
        PaddingProcessor R)⟩

/-- The processors of successive specifications, from a place in the chain on. -/
inductive ConfiguredFrom : ℕ → List ByteSpan → ProcessorChain ProcessorPtr → Prop where
  | nil (index : ℕ) : ConfiguredFrom index [] []
  | cons {index : ℕ} {spec : ByteSpan} {specs : List ByteSpan} {p : ProcessorPtr}
      {ps : ProcessorChain ProcessorPtr} (h : Configured C R host reverse index spec p)
      (hs : ConfiguredFrom (index + 1) specs ps) : ConfiguredFrom index (spec :: specs) (p :: ps)

/-- The order in which the specifications are built. -/
def ordered (specs : List ByteSpan) : List ByteSpan := if reverse then specs.reverse else specs

/-- The chain that a list of specifications denotes, which for none of them is the identity. -/
def ConfiguredChain (specs : List ByteSpan) (chain : ProcessorChain ProcessorPtr) : Prop :=
  if specs.isEmpty then chain = [⟨({} : IdentityProcessor)⟩]
  else ConfiguredFrom C R host reverse 0 (ordered reverse specs) chain

/-- The build returns, with the chain denoted when all specifications are well-formed and
with none otherwise, which the tunnel reports before it opens a socket. -/
structure Validates {IpAddress : Type} (makeAddress : ByteSpan → Except Abort IpAddress)
    (specs : List ByteSpan) : Prop where
  returns : ∀ e, buildProcessorChain C R host reverse specs ≠ .error e
  accepts : (∃ chain, buildProcessorChain C R host reverse specs = .ok (some chain)) ↔
    ∀ spec ∈ specs, WellFormed spec
  configured : ∀ chain, buildProcessorChain C R host reverse specs = .ok (some chain) →
    ConfiguredChain C R host reverse specs chain
  reports : (¬∀ spec ∈ specs, WellFormed spec) →
    ∀ listenAddr remoteAddr listenIp listenPort remoteIp remotePort ports,
      cutLast listenAddr 58 = some (listenIp,listenPort) → cutLast remoteAddr 58 = some (remoteIp,remotePort) →
      readPorts listenPort remotePort = .ok ports →
      runTunnel makeAddress C R host listenAddr remoteAddr specs reverse =
        .reported (text "invalid processor configuration")

end Configuration

/-- What the parsing of the numbers comes to. -/
inductive PaddingOutcome (host : Host) (kv : KeyValues) (index : ℕ) : Except Abort (Option PaddingArgs) → Prop where
  | refused (h : PaddingRefused kv) : PaddingOutcome host kv index (.ok none)
  | thrown (h : PaddingThrows kv) (e : Abort) : PaddingOutcome host kv index (.error e)
  | accepted {chunkText maxText : ByteVector} {a : PaddingArgs} (hc : kv (text "chunk") = some chunkText)
      (hm : kv (text "max") = some maxText) (hchunk : Scans chunkText a.chunk) (hmax : Scans maxText a.max)
      (hs : paddingSeed host kv index = .ok a.seed) : PaddingOutcome host kv index (.ok (some a))

section Build
variable {C : Crypto} {R : RandomEngine} {host : Host} {reverse : Bool}

theorem paddingArgs_outcome (host : Host) (kv : KeyValues) (index : ℕ) :
    PaddingOutcome host kv index (paddingArgs host kv index) := by
  rw [paddingArgs]
  cases hc : kv (text "chunk") with
  | none => exact .refused (.missing (.inl hc))
  | some chunkText =>
    cases hm : kv (text "max") with
    | none => exact .refused (.missing (.inr hm))
    | some maxText =>
      cases h₁ : stoull chunkText with
      | error e =>
        simp only [bind, Except.bind, h₁]
        exact .thrown (.number hc hm (.inl (stoull_error.mp ⟨e,h₁⟩))) e
      | ok chunk =>
        cases h₂ : stoull maxText with
        | error e =>
          simp only [bind, Except.bind, h₁, h₂]
          exact .thrown (.number hc hm (.inr (stoull_error.mp ⟨e,h₂⟩))) e
        | ok max =>
          have hchunk := stoull_eq_ok.mp h₁
          have hmax := stoull_eq_ok.mp h₂
          by_cases hb : chunk.toNat > U32_MAX_AS_SIZE_T ∨ max.toNat > U32_MAX_AS_SIZE_T
          · simp only [bind, Except.bind, h₁, h₂, if_pos hb]
            exact .refused (.large hc hm hchunk hmax hb)
          simp only [bind, Except.bind, h₁, h₂, if_neg hb]
          cases hs : paddingSeed host kv index with
          | ok seed => exact @PaddingOutcome.accepted _ _ _ _ _ ⟨chunk,max,seed⟩ hc hm hchunk hmax hs
          | error e =>
            refine .thrown ?_ e
            rw [paddingSeed] at hs
            cases hv : kv (text "seed") with
            | none => simp [hv] at hs
            | some seedText =>
              rw [hv] at hs
              exact .seed hc hm hchunk hmax hb hv (stoull_error.mp ⟨e,hs⟩)

theorem PaddingRefused.paddingArgs {kv : KeyValues} (h : PaddingRefused kv) (index : ℕ) :
    paddingArgs host kv index = .ok none := by
  rw [Tunnel.paddingArgs]
  cases h with
  | missing h =>
    rcases h with h | h
    · simp [h, pure, Except.pure]
    · cases kv (text "chunk") <;> simp [h, pure, Except.pure]
  | large hc hm hchunk hmax hb =>
    simp only [hc, hm, bind, Except.bind, stoull_eq_ok.mpr hchunk, stoull_eq_ok.mpr hmax, if_pos hb]
    rfl

theorem PaddingThrows.paddingArgs {kv : KeyValues} (h : PaddingThrows kv) (index : ℕ) :
    ∃ e, paddingArgs host kv index = .error e := by
  rw [Tunnel.paddingArgs]
  cases h with
  | number hc hm h =>
    rcases h with h | h
    · obtain ⟨e,he⟩ := stoull_error.mpr h
      exact ⟨e,by simp only [hc, hm, bind, Except.bind, he]⟩
    · obtain ⟨e,he⟩ := stoull_error.mpr h
      simp only [hc, hm, bind, Except.bind, he]
      cases stoull _ with
      | error e' => exact ⟨e',rfl⟩
      | ok _ => exact ⟨e,rfl⟩
  | seed hc hm hchunk hmax hb hs h =>
    obtain ⟨e,he⟩ := stoull_error.mpr h
    refine ⟨e,?_⟩
    simp only [hc, hm, bind, Except.bind, stoull_eq_ok.mpr hchunk, stoull_eq_ok.mpr hmax, if_neg hb,
      paddingSeed, hs, he]

theorem buildPadding_none_iff {kv : KeyValues} {index : ℕ} :
    buildPadding R host reverse kv index = .ok none ↔ PaddingRefused kv := by
  rw [buildPadding]
  constructor
  · intro h
    have ho := paddingArgs_outcome host kv index
    generalize paddingArgs host kv index = r at h ho
    cases ho with
    | refused hr => exact hr
    | thrown | accepted => cases h
  · intro h
    rw [h.paddingArgs]

theorem buildPadding_error_iff {kv : KeyValues} {index : ℕ} :
    (∃ e, buildPadding R host reverse kv index = .error e) ↔ PaddingThrows kv := by
  rw [buildPadding]
  constructor
  · rintro ⟨e,h⟩
    have ho := paddingArgs_outcome host kv index
    generalize paddingArgs host kv index = r at h ho
    cases ho with
    | thrown ht => exact ht
    | refused | accepted => cases h
  · intro h
    obtain ⟨e,he⟩ := h.paddingArgs index
    exact ⟨e,by rw [he]⟩

/-- A specification is refused exactly for its text, wherever it stands. -/
theorem buildProcessor_none_iff (C : Crypto) (R : RandomEngine) (host : Host) (reverse : Bool) (index : ℕ)
    (spec : ByteSpan) :
    buildProcessor C R host reverse index spec = .ok none ↔ Refused spec := by
  constructor
  · intro h
    rw [buildProcessor] at h
    split_ifs at h with h₁ h₂ h₃ h₄
    · cases h
    · refine .cfb h₂ ?_
      rw [buildCfb] at h
      cases hk : specKv spec (text "key") with
      | none => rfl
      | some key => simp [hk] at h
    · refine .cfbNonce h₃ ?_
      rw [buildCfbNonce] at h
      cases hi : specKv spec (text "iv") with
      | none => simp
      | some iv =>
        cases hk : specKv spec (text "hmac_key") with
        | none => simp
        | some hmacKey => simpa [hi, hk, or_iff_not_imp_left] using h
    · exact .padding h₄ (buildPadding_none_iff.mp h)
    · exact .unknown (by simp [h₁, h₂, h₃, h₄])
  · intro h
    rw [buildProcessor]
    cases h with
    | unknown h =>
      simp only [List.mem_cons, List.not_mem_nil, or_false, not_or] at h
      simp [h]
    | cfb h hk =>
      rw [h, buildCfb, hk]
      rfl
    | cfbNonce h hv =>
      rw [h, buildCfbNonce]
      cases hi : specKv spec (text "iv") with
      | none => rfl
      | some iv =>
        cases hk : specKv spec (text "hmac_key") with
        | none => rfl
        | some hmacKey =>
          have hne : iv = [] ∨ hmacKey = [] := by simpa [hi, hk] using hv
          simp only [if_pos hne]
          rfl
    | padding h hp =>
      rw [h, buildPadding_none_iff.mpr hp]
      rfl

theorem buildProcessor_error_iff (C : Crypto) (R : RandomEngine) (host : Host) (reverse : Bool) (index : ℕ)
    (spec : ByteSpan) :
    (∃ e, buildProcessor C R host reverse index spec = .error e) ↔ Throws spec := by
  constructor
  · rintro ⟨e,h⟩
    rw [buildProcessor] at h
    split_ifs at h with h₁ h₂ h₃ h₄
    exact ⟨h₄,buildPadding_error_iff.mp ⟨e,h⟩⟩
  · rintro ⟨h,hp⟩
    rw [buildProcessor, h]
    exact buildPadding_error_iff.mpr hp

/-- A well-formed specification gives the processor it denotes. -/
theorem WellFormed.build {spec : ByteSpan} (h : WellFormed spec) (C : Crypto) (R : RandomEngine) (host : Host)
    (reverse : Bool) (index : ℕ) : ∃ p, buildProcessor C R host reverse index spec = .ok (some p) ∧
      Configured C R host reverse index spec p := by
  cases h with
  | identity h => exact ⟨_,if_pos h,.identity h⟩
  | cfb h hk =>
    refine ⟨_,?_,.cfb h hk⟩
    rw [buildProcessor, h, buildCfb, hk]
    rfl
  | cfbNonce h hi hk hne =>
    refine ⟨_,?_,.cfbNonce h hi hk⟩
    simp only [buildProcessor, h, buildCfbNonce, hi, hk, if_neg (not_or.mpr hne)]
    rfl
  | @padding h chunkText maxText chunk max hc hm hchunk hmax hb hs =>
    rw [U32_MAX_AS_SIZE_T] at hb
    have hchunk' : chunk % 2 ^ 64 = chunk := Nat.mod_eq_of_lt (by omega)
    have hmax' : max % 2 ^ 64 = max := Nat.mod_eq_of_lt (by omega)
    obtain ⟨seed,hseed,hdenoted⟩ : ∃ seed, paddingSeed host (specKv spec) index = .ok seed ∧
        ((∃ v, specKv spec (text "seed") = some v ∧ Numeral v seed.toNat) ∨
          specKv spec (text "seed") = none ∧ seed = host.autoSeed index) := by
      rw [paddingSeed]
      cases hv : specKv spec (text "seed") with
      | none => exact ⟨_,rfl,.inr ⟨rfl,rfl⟩⟩
      | some v =>
        obtain ⟨n,hn,hnum⟩ := hs v hv
        refine ⟨UInt64.ofNat n,stoull_eq_ok.mpr (hnum.scans hn),.inl ⟨v,rfl,?_⟩⟩
        rwa [UInt64.toNat_ofNat', Nat.mod_eq_of_lt hn]
    have hargs : paddingArgs host (specKv spec) index =
        .ok (some ⟨UInt64.ofNat chunk,UInt64.ofNat max,seed⟩) := by
      refine paddingArgs_of hc hm (stoull_eq_ok.mpr (hchunk.scans (by omega)))
        (stoull_eq_ok.mpr (hmax.scans (by omega))) ?_ hseed
      rw [UInt64.toNat_ofNat', UInt64.toNat_ofNat', hchunk', hmax', U32_MAX_AS_SIZE_T]
      omega
    refine ⟨_,?_,.padding h hc hm hchunk hmax hdenoted⟩
    rw [buildProcessor, h, buildPadding, hargs]
    simp only [UInt64.toNat_ofNat', hchunk', hmax']
    rfl

theorem addProcessors_configured (C : Crypto) (R : RandomEngine) (host : Host) (reverse : Bool)
    {specs : List ByteSpan} (h : ∀ spec ∈ specs, WellFormed spec) (index : ℕ) (chain : ProcessorChain ProcessorPtr) : ∃ ps,
      addProcessors C R host reverse index specs chain = .ok (some (chain ++ ps)) ∧
      ConfiguredFrom C R host reverse index specs ps := by
  induction specs generalizing index chain with
  | nil => exact ⟨[],by simp [addProcessors],.nil index⟩
  | cons spec specs ih =>
    obtain ⟨hspec,hspecs⟩ := List.forall_mem_cons.mp h
    obtain ⟨p,hp,hconf⟩ := hspec.build C R host reverse index
    obtain ⟨ps,hps,hrest⟩ := ih hspecs (index + 1) (chain ++ [p])
    refine ⟨p :: ps,?_,.cons hconf hrest⟩
    rw [addProcessors, hp]
    simpa using hps

/-- The list is refused exactly when a specification is refused before one throws. -/
theorem addProcessors_none_iff {specs : List ByteSpan} {index : ℕ} {chain : ProcessorChain ProcessorPtr} :
    addProcessors C R host reverse index specs chain = .ok none ↔ RefusedFirst specs := by
  induction specs generalizing index chain with
  | nil =>
    constructor
    · rintro ⟨⟩
    · rintro ⟨⟩
  | cons spec specs ih =>
    have hnone := buildProcessor_none_iff C R host reverse index spec
    have herror := buildProcessor_error_iff C R host reverse index spec
    rw [addProcessors]
    rcases hb : buildProcessor C R host reverse index spec with e | _ | p
    · simp only [hb] at hnone herror
      have ht : Throws spec := herror.mp ⟨e,rfl⟩
      have hr : ¬Refused spec := by simpa using hnone
      constructor
      · rintro ⟨⟩
      · rintro (h | ⟨h,-⟩)
        · exact absurd h hr
        · exact absurd ht h
    · exact ⟨fun _ => .here (hnone.mp hb),fun _ => rfl⟩
    · simp only [hb] at hnone herror
      have ht : ¬Throws spec := by simpa using herror
      have hr : ¬Refused spec := by simpa using hnone
      refine ih.trans ⟨.there ht,?_⟩
      rintro (h | ⟨-,h⟩)
      · exact absurd h hr
      · exact h

theorem mem_ordered {reverse : Bool} {spec : ByteSpan} {specs : List ByteSpan} :
    spec ∈ ordered reverse specs ↔ spec ∈ specs := by
  rw [ordered]
  split
  · exact List.mem_reverse
  · rfl

theorem RefusedFirst.exists_refused {specs : List ByteSpan} (h : RefusedFirst specs) :
    ∃ spec ∈ specs, Refused spec := by
  induction h with
  | here h => exact ⟨_,by simp,h⟩
  | there _ _ ih =>
    obtain ⟨spec,hmem,h⟩ := ih
    exact ⟨spec,List.mem_cons_of_mem _ hmem,h⟩

theorem WellFormed.not_refused {spec : ByteSpan} (h : WellFormed spec) : ¬Refused spec := by
  intro hr
  obtain ⟨p,hp,-⟩ := h.build CfbNonceProcessor.knownCrypto zeroEngine zeroHost false 0
  have hnone := (buildProcessor_none_iff CfbNonceProcessor.knownCrypto zeroEngine zeroHost false 0 spec).mpr hr
  cases hp.symm.trans hnone

theorem buildProcessorChain_none_iff (C : Crypto) (R : RandomEngine) (host : Host) (reverse : Bool)
    (specs : List ByteSpan) :
    buildProcessorChain C R host reverse specs = .ok none ↔ RefusedFirst (ordered reverse specs) := by
  cases specs with
  | nil =>
    constructor
    · rintro ⟨⟩
    · intro h
      obtain ⟨spec,hmem,-⟩ := h.exists_refused
      cases mem_ordered.mp hmem
  | cons spec specs => exact addProcessors_none_iff

theorem buildProcessorChain_configured (C : Crypto) (R : RandomEngine) (host : Host) (reverse : Bool)
    {specs : List ByteSpan} (h : ∀ spec ∈ specs, WellFormed spec) :
    ∃ chain, buildProcessorChain C R host reverse specs = .ok (some chain) ∧
      ConfiguredChain C R host reverse specs chain := by
  cases specs with
  | nil => exact ⟨_,rfl,rfl⟩
  | cons spec specs =>
    obtain ⟨ps,hps,hconf⟩ := addProcessors_configured C R host reverse
      (fun s hs => h s (mem_ordered.mp hs)) 0 []
    exact ⟨ps,hps,hconf⟩

/-- The tunnel reports a list that is refused. -/
theorem runTunnel_refused {IpAddress : Type} (makeAddress : ByteSpan → Except Abort IpAddress)
    {specs : List ByteSpan} (h : buildProcessorChain C R host reverse specs = .ok none)
    {listenAddr remoteAddr listenIp listenPort remoteIp remotePort : ByteSpan} {ports : UInt16 × UInt16}
    (hl : cutLast listenAddr 58 = some (listenIp,listenPort)) (hr : cutLast remoteAddr 58 = some (remoteIp,remotePort))
    (hp : readPorts listenPort remotePort = .ok ports) :
    runTunnel makeAddress C R host listenAddr remoteAddr specs reverse =
      .reported (text "invalid processor configuration") := by
  simp only [runTunnel, hl, hr, hp, h]

/-- The build validates its specifications exactly when they are all well-formed, or one of
them is refused before another throws. -/
theorem validates_iff (C : Crypto) (R : RandomEngine) (host : Host) (reverse : Bool) {IpAddress : Type}
    (makeAddress : ByteSpan → Except Abort IpAddress) (specs : List ByteSpan) :
    Validates C R host reverse makeAddress specs ↔
      (∀ spec ∈ specs, WellFormed spec) ∨ RefusedFirst (ordered reverse specs) := by
  constructor
  · intro h
    rcases hb : buildProcessorChain C R host reverse specs with e | _ | chain
    · exact absurd hb (h.returns e)
    · exact .inr ((buildProcessorChain_none_iff C R host reverse specs).mp hb)
    · exact .inl (h.accepts.mp ⟨chain,hb⟩)
  · rintro (h | h)
    · obtain ⟨chain,hb,hconf⟩ := buildProcessorChain_configured C R host reverse h
      refine ⟨by simp [hb],⟨fun _ => h,fun _ => ⟨chain,hb⟩⟩,?_,fun hn => absurd h hn⟩
      intro chain' hb'
      obtain rfl := Option.some.inj (Except.ok.inj (hb.symm.trans hb'))
      exact hconf
    · have hb := (buildProcessorChain_none_iff C R host reverse specs).mpr h
      obtain ⟨spec,hmem,hr⟩ := h.exists_refused
      have hill : ¬∀ spec ∈ specs, WellFormed spec :=
        fun hw => (hw spec (mem_ordered.mp hmem)).not_refused hr
      refine ⟨by simp [hb],by simp [hb, hill],by simp [hb],?_⟩
      intro _ listenAddr remoteAddr listenIp listenPort remoteIp remotePort ports hl hrem hports
      exact runTunnel_refused makeAddress hb hl hrem hports

end Build

/-- A text that is no number ends the build with an exception, which the tunnel does not
catch; and numbers are taken from texts that are no numerals. -/
theorem validation_fails :
    buildProcessorChain CfbNonceProcessor.knownCrypto zeroEngine zeroHost false
      [text "padding:chunk=abc,max=1"] = .error (.invalidArgument "stoull") ∧
    runTunnel knownAddress CfbNonceProcessor.knownCrypto zeroEngine zeroHost (text "127.0.0.1:80")
      (text "127.0.0.1:81") [text "padding:chunk=abc,max=1"] false = .thrown (.invalidArgument "stoull") ∧
    ¬Validates CfbNonceProcessor.knownCrypto zeroEngine zeroHost false knownAddress
      [text "padding:chunk=abc,max=1"] ∧
    buildProcessorChain CfbNonceProcessor.knownCrypto zeroEngine zeroHost false
      [text "padding:chunk=12abc,max=-18446744073709551615"] =
        .ok (some [⟨(PaddingProcessor.new 12 1 0 false : PaddingProcessor zeroEngine)⟩]) ∧
    ¬Validates CfbNonceProcessor.knownCrypto zeroEngine zeroHost false knownAddress
      [text "padding:chunk=12abc,max=-18446744073709551615"] := by
  have hthrown : buildProcessorChain CfbNonceProcessor.knownCrypto zeroEngine zeroHost false
      [text "padding:chunk=abc,max=1"] = .error (.invalidArgument "stoull") := rfl
  have htaken : buildProcessorChain CfbNonceProcessor.knownCrypto zeroEngine zeroHost false
      [text "padding:chunk=12abc,max=-18446744073709551615"] =
        .ok (some [⟨(PaddingProcessor.new 12 1 0 false : PaddingProcessor zeroEngine)⟩]) := rfl
  have hill : ¬WellFormed (text "padding:chunk=12abc,max=-18446744073709551615") := by
    intro h
    cases h with
    | identity h | cfb h | cfbNonce h => exact absurd h (by decide)
    | padding _ hc _ hchunk =>
      obtain rfl : text "12abc" = _ := Option.some.inj hc
      exact absurd (numeral_iff.mp hchunk).2.1 (by decide)
  refine ⟨hthrown,?_,fun h => h.returns _ hthrown,htaken,?_⟩
  · decide +kernel
  · intro h
    exact hill (h.accepts.mp ⟨_,htaken⟩ _ (by simp))

end Msg801.Tunnel
