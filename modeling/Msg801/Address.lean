import Msg801.Tunnel.Numeral

/-! # The addresses given to the tunnel and to the nodes

Three functions cut an address at its last colon, read the port with `std::stoul` and keep
its lower sixteen bits. The parser of the part in front is a parameter.
-/
namespace Msg801
open Tunnel

/-- The text before and after the last occurrence of a character. -/
def cutLast (s : ByteSpan) (c : Byte) : Option (ByteVector × ByteVector) :=
  match s.reverse.idxOf? c with
  | none => none
  | some i => some (s.take (s.length - i - 1),s.drop (s.length - i))

/-- `std::stoul`, on a machine whose `unsigned long` has 64 bits. -/
def stoul (s : ByteSpan) : Except Abort UInt64 :=
  match stoull s with
  | .error (.invalidArgument _) => .error (.invalidArgument "stoul")
  | .error (.outOfRange _) => .error (.outOfRange "stoul")
  | r => r

structure Endpoint (IpAddress : Type*) where
  address : IpAddress
  port : UInt16
  deriving DecidableEq

/-- How a call ends before there is a socket, or the endpoints it opens sockets with. -/
inductive Setup (E : Type*) where
  | reported (what : ByteVector)
  | thrown (e : Abort)
  | opened (endpoints : E)
  deriving DecidableEq

/-- What is seen of it from outside. -/
inductive Seen (E : Type*) where
  | error
  | nothing
  | opened (endpoints : E)
  deriving DecidableEq

/-- Of a function the caller sees the exception too. -/
def Setup.called {E : Type*} : Setup E → Seen E
  | .reported _ => .error
  | .thrown _ => .error
  | .opened endpoints => .opened endpoints

/-- `co_spawn` with `detached`, as `run_node` starts its role: an exception that ends the
coroutine is dropped. -/
def Setup.detached {E : Type*} : Setup E → Seen E
  | .reported _ => .error
  | .thrown _ => .nothing
  | .opened endpoints => .opened endpoints

/-- What is opened is as it should be, or there is an error to be seen. -/
def Seen.Exact {E : Type*} (exact : E → Prop) : Seen E → Prop
  | .error => True
  | .nothing => False
  | .opened endpoints => exact endpoints

theorem Setup.called_exact {E : Type*} {exact : E → Prop} {r : Setup E} :
    r.called.Exact exact ↔ ∀ endpoints, r = .opened endpoints → exact endpoints := by
  cases r <;> simp [called, Seen.Exact]

section Parsers
variable {IpAddress : Type} (makeAddress : ByteSpan → Except Abort IpAddress)

/-- The beginning of the two roles of a node. -/
def nodeSetup (complaint addr : ByteSpan) : Setup (Endpoint IpAddress) :=
  match cutLast addr 58 with
  | none => .reported (complaint ++ addr)
  | some (ip,portText) =>
    match stoul portText with
    | .error e => .thrown e
    | .ok port =>
      match makeAddress ip with
      | .error e => .thrown e
      | .ok a => .opened ⟨a,port.toUInt16⟩

def runVisitor (listenAddr : ByteSpan) : Setup (Endpoint IpAddress) :=
  nodeSetup makeAddress (text "relay B: invalid listen address ") listenAddr

def runProvider (targetAddr : ByteSpan) : Setup (Endpoint IpAddress) :=
  nodeSetup makeAddress (text "relay C: invalid target address ") targetAddr

/-- The two ports, read inside one `try`. -/
def readPorts (listenPort remotePort : ByteSpan) : Except Abort (UInt16 × UInt16) := do
  let l ← stoul listenPort
  let r ← stoul remotePort
  return (l.toUInt16,r.toUInt16)

variable (C : Crypto) (R : RandomEngine) (host : Host)

/-- `run_tunnel` up to its acceptor. -/
def runTunnel (listenAddr remoteAddr : ByteSpan) (processorSpecs : List ByteSpan) (reverse : Bool) :
    Setup (Endpoint IpAddress × Endpoint IpAddress) :=
  match cutLast listenAddr 58, cutLast remoteAddr 58 with
  | some (listenIp,listenPort), some (remoteIp,remotePort) =>
    match readPorts listenPort remotePort with
    | .error _ => .reported (text "Invalid port number")
    | .ok (l,r) =>
      match buildProcessorChain C R host reverse processorSpecs with
      | .error e => .thrown e
      | .ok none => .reported (text "invalid processor configuration")
      | .ok (some _) =>
        match makeAddress listenIp, makeAddress remoteIp with
        | .error e, _ => .thrown e
        | .ok _, .error e => .thrown e
        | .ok a, .ok b => .opened (⟨a,l⟩,⟨b,r⟩)
  | _, _ => .reported (text "Invalid address format, expected ip:port")

end Parsers

theorem cutLast_append {c : Byte} {post : ByteSpan} (h : c ∉ post) (pre : ByteSpan) :
    cutLast (pre ++ c :: post) c = some (pre,post) := by
  have hrev : (pre ++ c :: post).reverse = post.reverse ++ c :: pre.reverse := by simp
  have hlen : (pre ++ c :: post).length - post.reverse.length = pre.length + 1 := by
    simp only [List.length_append, List.length_cons, List.length_reverse]
    omega
  rw [cutLast, hrev, idxOf?_append_cons (by simpa using h)]
  dsimp only
  rw [hlen, Nat.add_sub_cancel]
  simp

theorem cutLast_eq_some {s pre post : ByteSpan} {c : Byte} :
    cutLast s c = some (pre,post) ↔ s = pre ++ c :: post ∧ c ∉ post := by
  constructor
  · intro h
    by_cases hc : c ∈ s
    · obtain ⟨post',pre',hrev,hpost⟩ := List.eq_append_cons_of_mem (List.mem_reverse.mpr hc)
      have hs : s = pre'.reverse ++ c :: post'.reverse := by
        rw [← List.reverse_inj, hrev]
        simp
      have hmem : c ∉ post'.reverse := by simpa using hpost
      rw [hs, cutLast_append hmem] at h
      obtain ⟨rfl,rfl⟩ := Prod.mk.inj (Option.some.inj h)
      exact ⟨hs,hmem⟩
    · rw [cutLast, List.idxOf?_eq_none_iff.mpr (by simpa using hc)] at h
      cases h
  · rintro ⟨rfl,h⟩
    exact cutLast_append h pre

theorem stoul_eq_ok {s : ByteSpan} {n : UInt64} : stoul s = .ok n ↔ Scans s n := by
  rw [← stoull_eq_ok, stoul]
  rcases stoull s with e | m
  · cases e <;> simp
  · simp

/-- An address that the three functions accept, and the endpoint they make of it. -/
inductive Accepted {IpAddress : Type} (makeAddress : ByteSpan → Except Abort IpAddress) :
    ByteSpan → Endpoint IpAddress → Prop where
  | intro {ip portText : ByteSpan} {a : IpAddress} {n : UInt64} (hc : 58 ∉ portText)
      (ha : makeAddress ip = .ok a) (hn : Scans portText n) :
      Accepted makeAddress (ip ++ 58 :: portText) ⟨a,n.toUInt16⟩

/-- The port is the one that the text behind the last colon denotes. -/
inductive PortDenoted : ByteSpan → UInt16 → Prop where
  | intro {portText : ByteSpan} {port : UInt16} (ip : ByteSpan) (hc : 58 ∉ portText)
      (hn : Numeral portText port.toNat) : PortDenoted (ip ++ 58 :: portText) port

section Parsers
variable {IpAddress : Type} {makeAddress : ByteSpan → Except Abort IpAddress}

theorem nodeSetup_opened {complaint addr : ByteSpan} {ep : Endpoint IpAddress} :
    nodeSetup makeAddress complaint addr = .opened ep ↔ Accepted makeAddress addr ep := by
  constructor
  · intro h
    rw [nodeSetup] at h
    split at h
    case h_1 => cases h
    case h_2 ip portText hcut =>
      obtain ⟨rfl,hc⟩ := cutLast_eq_some.mp hcut
      split at h
      case h_1 => cases h
      case h_2 n hn =>
        split at h
        case h_1 => cases h
        case h_2 a ha =>
          obtain rfl := Setup.opened.inj h
          exact .intro hc ha (stoul_eq_ok.mp hn)
  · intro h
    cases h with
    | intro hc ha hn => simp only [nodeSetup, cutLast_append hc, stoul_eq_ok.mpr hn, ha]

theorem runVisitor_opened {addr : ByteSpan} {ep : Endpoint IpAddress} :
    runVisitor makeAddress addr = .opened ep ↔ Accepted makeAddress addr ep := nodeSetup_opened

theorem runProvider_opened {addr : ByteSpan} {ep : Endpoint IpAddress} :
    runProvider makeAddress addr = .opened ep ↔ Accepted makeAddress addr ep := nodeSetup_opened

theorem readPorts_eq_ok {listenPort remotePort : ByteSpan} {l r : UInt16} :
    readPorts listenPort remotePort = .ok (l,r) ↔
      ∃ n m, Scans listenPort n ∧ Scans remotePort m ∧ l = n.toUInt16 ∧ r = m.toUInt16 := by
  simp only [← stoul_eq_ok, readPorts, bind, Except.bind, pure, Except.pure]
  rcases stoul listenPort with e | n
  · simp
  rcases stoul remotePort with e | m
  · simp
  · simp [eq_comm]

section Tunnel
variable {C : Crypto} {R : RandomEngine} {host : Host} {specs : List ByteSpan} {reverse : Bool}

theorem runTunnel_opened {listenAddr remoteAddr : ByteSpan} {l r : Endpoint IpAddress} :
    runTunnel makeAddress C R host listenAddr remoteAddr specs reverse = .opened (l,r) ↔
      Accepted makeAddress listenAddr l ∧ Accepted makeAddress remoteAddr r ∧
      ∃ chain, buildProcessorChain C R host reverse specs = .ok (some chain) := by
  constructor
  · intro h
    rw [runTunnel] at h
    split at h
    case h_2 => cases h
    case h_1 listenIp listenPort remoteIp remotePort hl hr =>
      obtain ⟨rfl,hlc⟩ := cutLast_eq_some.mp hl
      obtain ⟨rfl,hrc⟩ := cutLast_eq_some.mp hr
      split at h
      case h_1 => cases h
      case h_2 p q hports =>
        obtain ⟨n,m,hn,hm,rfl,rfl⟩ := readPorts_eq_ok.mp hports
        split at h
        case h_1 => cases h
        case h_2 => cases h
        case h_3 chain hchain =>
          split at h
          case h_1 => cases h
          case h_2 => cases h
          case h_3 a b ha hb =>
            obtain ⟨rfl,rfl⟩ := Prod.mk.inj (Setup.opened.inj h)
            exact ⟨.intro hlc ha hn,.intro hrc hb hm,chain,hchain⟩
  · rintro ⟨hl,hr,chain,hchain⟩
    cases hl with
    | intro hlc ha hn =>
      cases hr with
      | intro hrc hb hm =>
        have hports := readPorts_eq_ok.mpr ⟨_,_,hn,hm,rfl,rfl⟩
        simp only [runTunnel, cutLast_append hlc, cutLast_append hrc, hports, hchain, ha, hb]

end Tunnel

end Parsers

section Ports
variable {IpAddress : Type} (makeAddress : ByteSpan → Except Abort IpAddress) (C : Crypto) (R : RandomEngine)
  (host : Host)

/-- Who is given an address, and which of the two in the case of `run_tunnel`. -/
inductive AddressUse where
  | visitor
  | provider
  | tunnelListen
  | tunnelRemote
  deriving DecidableEq

/-- Who is given the address opens its sockets with the port it denotes, or refuses it with an
error to be seen. -/
def PortExact (addr : ByteSpan) : AddressUse → Prop
  | .visitor => (runVisitor makeAddress addr).detached.Exact fun ep => PortDenoted addr ep.port
  | .provider => (runProvider makeAddress addr).detached.Exact fun ep => PortDenoted addr ep.port
  | .tunnelListen => ∀ remoteAddr specs reverse,
      (runTunnel makeAddress C R host addr remoteAddr specs reverse).called.Exact fun eps => PortDenoted addr eps.1.port
  | .tunnelRemote => ∀ listenAddr specs reverse,
      (runTunnel makeAddress C R host listenAddr addr specs reverse).called.Exact fun eps => PortDenoted addr eps.2.port

/-- Who accepts the address does not depend on who is given it. -/
structure SameAccepted (addr : ByteSpan) : Prop where
  roles : ∀ ep, runVisitor makeAddress addr = .opened ep ↔ runProvider makeAddress addr = .opened ep
  tunnel : ∀ other ep specs reverse chain, runVisitor makeAddress other = .opened ep →
    buildProcessorChain C R host reverse specs = .ok (some chain) →
    ∀ l, (runVisitor makeAddress addr = .opened l ↔
        runTunnel makeAddress C R host addr other specs reverse = .opened (l,ep)) ∧
      (runVisitor makeAddress addr = .opened l ↔
        runTunnel makeAddress C R host other addr specs reverse = .opened (ep,l))

/-- Where there is a colon, an address stands in front of it and a complete numeral of sixteen bits behind it. -/
def Complete (addr : ByteSpan) : Prop :=
  ∀ ip portText, addr = ip ++ 58 :: portText → 58 ∉ portText →
    (∃ a, makeAddress ip = .ok a) ∧ ∃ v < 65536, Numeral portText v

/-- Where the port can be read and the part in front is an address, the port is written as a
complete numeral of sixteen bits. -/
def PortPlain (addr : ByteSpan) : Prop :=
  ∀ ip portText a n, addr = ip ++ 58 :: portText → 58 ∉ portText → makeAddress ip = .ok a → Scans portText n →
    ∃ v < 65536, Numeral portText v

/-- What an address has to be like for the one who is given it. -/
def Suits (addr : ByteSpan) : AddressUse → Prop
  | .visitor | .provider => Complete makeAddress addr
  | .tunnelListen | .tunnelRemote => PortPlain makeAddress addr

variable {makeAddress}

theorem PortPlain.denoted {addr : ByteSpan} (h : PortPlain makeAddress addr) {ep : Endpoint IpAddress}
    (ha : Accepted makeAddress addr ep) : PortDenoted addr ep.port := by
  obtain @⟨ip,portText,a,n,hc,ha,hn⟩ := ha
  obtain ⟨v,hv,hnum⟩ := h ip portText a n rfl hc ha hn
  have hscan := hnum.scans (by omega)
  have hsame := Except.ok.inj ((stoull_eq_ok.mpr hn).symm.trans (stoull_eq_ok.mpr hscan))
  have hport : n.toUInt16.toNat = v := by
    rw [hsame, UInt64.toNat_toUInt16, UInt64.toNat_ofNat']
    omega
  refine .intro ip hc ?_
  rwa [hport]

theorem PortDenoted.numeral {ip portText : ByteSpan} {port : UInt16} (h : PortDenoted (ip ++ 58 :: portText) port)
    (hc : 58 ∉ portText) : ∃ v < 65536, Numeral portText v := by
  generalize haddr : ip ++ 58 :: portText = addr at h
  obtain @⟨portText',port,ip',hc',hn⟩ := h
  have hcut := cutLast_append hc ip
  rw [haddr, cutLast_append hc' ip'] at hcut
  obtain ⟨-,rfl⟩ := Prod.mk.inj (Option.some.inj hcut)
  exact ⟨_,port.toNat_lt,hn⟩

theorem Complete.plain {addr : ByteSpan} (h : Complete makeAddress addr) : PortPlain makeAddress addr :=
  fun ip portText _ _ he hc _ _ => (h ip portText he hc).2

theorem nodeSetup_exact {complaint addr : ByteSpan} :
    ((nodeSetup makeAddress complaint addr).detached.Exact fun ep => PortDenoted addr ep.port) ↔
      Complete makeAddress addr := by
  constructor
  · rintro h ip portText rfl hc
    rw [nodeSetup, cutLast_append hc] at h
    dsimp only at h
    -- what is thrown is seen by nobody, so that the port was read and the address as well
    cases hn : stoul portText with
    | error e => simp [hn, Setup.detached, Seen.Exact] at h
    | ok n =>
      cases ha : makeAddress ip with
      | error e => simp [hn, ha, Setup.detached, Seen.Exact] at h
      | ok a =>
        simp only [hn, ha, Setup.detached, Seen.Exact] at h
        exact ⟨⟨a,rfl⟩,h.numeral hc⟩
  · intro h
    cases hcut : cutLast addr 58 with
    | none => simp [nodeSetup, hcut, Setup.detached, Seen.Exact]
    | some cut =>
      obtain ⟨rfl,hc⟩ := cutLast_eq_some.mp hcut
      obtain ⟨⟨a,ha⟩,v,hv,hnum⟩ := h _ _ rfl hc
      have hopen : nodeSetup makeAddress complaint (cut.1 ++ 58 :: cut.2) = .opened ⟨a,(UInt64.ofNat v).toUInt16⟩ :=
        nodeSetup_opened.mpr (.intro hc ha (hnum.scans (by omega)))
      rw [hopen]
      exact h.plain.denoted (nodeSetup_opened.mp hopen)

/-- Without processors the chain is built. -/
theorem exists_chain : ∃ chain, buildProcessorChain C R host false [] = .ok (some chain) := ⟨_,rfl⟩

theorem portExact_iff (addr : ByteSpan) (u : AddressUse) :
    PortExact makeAddress C R host addr u ↔ Suits makeAddress addr u := by
  cases u with
  | visitor => exact nodeSetup_exact
  | provider => exact nodeSetup_exact
  | tunnelListen =>
    constructor
    · rintro h ip portText a n rfl hc ha hn
      have haddr : Accepted makeAddress (ip ++ 58 :: portText) ⟨a,n.toUInt16⟩ := .intro hc ha hn
      have hopen := runTunnel_opened.mpr ⟨haddr,haddr,exists_chain C R host⟩
      exact (Setup.called_exact.mp (h _ [] false) _ hopen).numeral hc
    · intro h remoteAddr specs reverse
      exact Setup.called_exact.mpr fun ⟨l,r⟩ hopen => h.denoted (runTunnel_opened.mp hopen).1
  | tunnelRemote =>
    constructor
    · rintro h ip portText a n rfl hc ha hn
      have haddr : Accepted makeAddress (ip ++ 58 :: portText) ⟨a,n.toUInt16⟩ := .intro hc ha hn
      have hopen := runTunnel_opened.mpr ⟨haddr,haddr,exists_chain C R host⟩
      exact (Setup.called_exact.mp (h _ [] false) _ hopen).numeral hc
    · intro h listenAddr specs reverse
      exact Setup.called_exact.mpr fun ⟨l,r⟩ hopen => h.denoted (runTunnel_opened.mp hopen).2.1

theorem sameAccepted (addr : ByteSpan) : SameAccepted makeAddress C R host addr := by
  refine ⟨fun ep => ?_,fun other ep specs reverse chain hother hchain l => ?_⟩
  · rw [runVisitor_opened, runProvider_opened]
  · have hep := runVisitor_opened.mp hother
    rw [runVisitor_opened, runTunnel_opened, runTunnel_opened]
    constructor
    · exact ⟨fun hl => ⟨hl,hep,chain,hchain⟩,And.left⟩
    · exact ⟨fun hl => ⟨hep,hl,chain,hchain⟩,fun hl => hl.2.1⟩

/-- All accept the same addresses. Who is given one uses its port exactly or refuses it with an
error exactly in these cases: `run_tunnel` where nothing but a complete numeral of sixteen
bits can be read behind the last colon, and a node, which shows no error of its parsers,
where such a numeral does stand there, behind an address. -/
theorem ports_exact_iff (addr : ByteSpan) (u : AddressUse) :
    PortExact makeAddress C R host addr u ∧ SameAccepted makeAddress C R host addr ↔ Suits makeAddress addr u := by
  rw [and_iff_left (sameAccepted C R host addr)]
  exact portExact_iff C R host addr u

end Ports

/-- The loopback address in the form that the parser of the library gives it. -/
def knownAddress (s : ByteSpan) : Except Abort UInt32 :=
  if s = text "127.0.0.1" then .ok 0x7f000001 else .error (.runtimeError "Invalid argument")

/-- All three take port 4464 where the text asks for port 70000, and port 65535 for "-1"; of a
port that is no number a node shows nothing. -/
theorem port_wraps :
    runVisitor knownAddress (text "127.0.0.1:70000") = .opened ⟨0x7f000001,4464⟩ ∧
    runProvider knownAddress (text "127.0.0.1:70000") = .opened ⟨0x7f000001,4464⟩ ∧
    runTunnel knownAddress CfbNonceProcessor.knownCrypto zeroEngine zeroHost (text "127.0.0.1:70000")
      (text "127.0.0.1:-1") [] false = .opened (⟨0x7f000001,4464⟩,⟨0x7f000001,65535⟩) ∧
    (∀ u, ¬PortExact knownAddress CfbNonceProcessor.knownCrypto zeroEngine zeroHost (text "127.0.0.1:70000") u) ∧
    (runVisitor knownAddress (text "127.0.0.1:abc")).detached = .nothing ∧
    ¬PortExact knownAddress CfbNonceProcessor.knownCrypto zeroEngine zeroHost (text "127.0.0.1:abc") .visitor := by
  have hvisitor : runVisitor knownAddress (text "127.0.0.1:70000") = .opened ⟨0x7f000001,4464⟩ := by
    decide +kernel
  have hnothing : (runVisitor knownAddress (text "127.0.0.1:abc")).detached = .nothing := by decide +kernel
  have hplain : ¬PortPlain knownAddress (text "127.0.0.1:70000") := by
    intro h
    have hport : PortDenoted (text "127.0.0.1" ++ 58 :: text "70000") 4464 := h.denoted (runVisitor_opened.mp hvisitor)
    obtain ⟨v,hv,hn⟩ := hport.numeral (by decide)
    have hvalue : 70000 = v := (numeral_iff.mp hn).2.2
    omega
  refine ⟨hvisitor,by decide +kernel,by decide +kernel,fun u h => ?_,hnothing,fun h => ?_⟩
  · have hsuits := (portExact_iff _ _ _ _ u).mp h
    cases u with
    | visitor | provider => exact hplain (Complete.plain hsuits)
    | tunnelListen | tunnelRemote => exact hplain hsuits
  · rw [PortExact, hnothing] at h
    exact h

end Msg801
