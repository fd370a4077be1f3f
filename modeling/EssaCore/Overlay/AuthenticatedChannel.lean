import EssaCore.Overlay.PeerInvariant

/-!
# The authenticated channel

Honest processes and the network between them. The attacker is the network: it
delivers any bytes to any connection, at any time and in any order. What it cannot
do is to make a MAC under a key of two honest ends, or a certificate of an honest
node; both are taken from what some connection has written.

- `Network.Step` — one call on one connection, or a new connection;
- `SysInv` — every connection keeps its invariant, and nonces are not reused;
- `SysInv.sender` — the sender of a key is one connection of the other end;
- `authenticated_channel` — what is dispatched is a prefix of what was sent;
- `reused_sequence` — this ends when the sequence numbers start again.
-/

open List Option Function

namespace EssaCore.Overlay

open Ledger (Uint256)

variable {Party Key Mac Body : Type} {cr : PeerCrypto Party Key Mac Body}

/-! ## The network -/

/-- The connections of all honest processes, by number. -/
abbrev Network (Party Key Mac Body : Type) := Nat → Option (Peer Party Key Mac Body)

namespace Network

variable {net net' : Network Party Key Mac Body} {i j : Nat}
  {c d : Peer Party Key Mac Body}

/-- Some connection has written `msg` with the number `seq` and a MAC under `key`. -/
def Written (net : Network Party Key Mac Body) (key : Key) (seq : UInt64)
    (msg : EssaBlockChainMessage Body) : Prop :=
  ∃ i c, net i = some c ∧ c.mSendMacKey = key ∧
    ∃ am ∈ c.out, am.message.hasMac = true ∧ am.sequence = seq ∧ am.message = msg

/-- A process of the node `id` has sent a HELLO with the ECDH key `pub`. -/
def Certified (cr : PeerCrypto Party Key Mac Body) (net : Network Party Key Mac Body)
    (id : NodeID) (pub : Curve25519Public) : Prop :=
  ∃ i c, net i = some c ∧ cr.nodeID c.owner = id ∧ cr.ecdhPublic c.owner = pub ∧ c.HelloSent

/-- The calls on a connection. -/
inductive Call [DecidableEq Mac] (cr : PeerCrypto Party Key Mac Body)
    (net : Network Party Key Mac Body) (c : Peer Party Key Mac Body) :
    Peer Party Key Mac Body → Prop
  | connectHandler (env : PeerEnv Body) (error : Bool) (pending : c.connectPending = true) :
    Call cr net c (c.connectHandler cr env error)
  | sendMessage (msg : EssaBlockChainMessage Body) (state : c.mState.pastHello = true)
    (app : msg.isApp = true) : Call cr net c (c.sendMessage cr msg)
  -- any bytes, but neither a MAC under a key of two honest ends nor a certificate
  -- of an honest node is forged
  | recvMessage (env : PeerEnv Body) (am : AuthenticatedMessage Body Mac)
    (state : c.mState ≠ .CONNECTING)
    (mac : (∃ q, c.remotePublic = some (cr.ecdhPublic q)) →
      am.mac = cr.hmacSha256 c.mRecvMacKey am.sequence am.message →
      net.Written c.mRecvMacKey am.sequence am.message)
    (cert : ∀ elo, am.message = .HELLO elo →
      Peer.verifyRemoteAuthCert cr env elo.peerID elo.cert = true →
      (∃ p, cr.nodeID p = elo.peerID) → net.Certified cr elo.peerID elo.cert.pubkey) :
    Call cr net c (c.recvMessage cr env am)
  | drop (env : PeerEnv Body) : Call cr net c (c.drop env)
  | dropWithError (env : PeerEnv Body) (err : ErrorCode) (msg : String) :
    Call cr net c (c.dropWithError cr env err msg)

/-- A new connection, with a nonce that has not been used, or a call. -/
inductive Step [DecidableEq Mac] (cr : PeerCrypto Party Key Mac Body)
    (net : Network Party Key Mac Body) : Network Party Key Mac Body → Prop
  | new (i : Nat) (owner : Party) (role : PeerRole) (nonce : Uint256) (unused : net i = none)
    (fresh : ∀ j d, net j = some d → d.mSendNonce ≠ nonce) :
    Step cr net (Function.update net i (some (Peer.new cr owner role nonce)))
  | call (i : Nat) (c c' : Peer Party Key Mac Body) (open' : net i = some c)
    (call : Call cr net c c') : Step cr net (Function.update net i (some c'))

/-- A network without connections. -/
def init : Network Party Key Mac Body := fun _ => none

/-- The networks that are reached from one without connections. -/
def Reachable [DecidableEq Mac] (cr : PeerCrypto Party Key Mac Body)
    (net : Network Party Key Mac Body) : Prop :=
  Relation.ReflTransGen (Step cr) init net

/-! ## The invariant -/

/-- The invariant of the network. -/
structure SysInv (cr : PeerCrypto Party Key Mac Body) (net : Network Party Key Mac Body) :
    Prop where
  peers : ∀ i c, net i = some c → c.Inv cr net.Written (net.Certified cr)
  nonces : ∀ i j c d, net i = some c → net j = some d → c.mSendNonce = d.mSendNonce → i = j

theorem eq_of_update_eq_some (h : Function.update net i (some c) j = some d) :
    j = i ∧ c = d ∨ j ≠ i ∧ net j = some d := by
  by_cases hji : j = i
  · subst hji
    rw [update_self] at h
    exact .inl ⟨rfl, some.inj h⟩
  · rw [update_of_ne hji] at h
    exact .inr ⟨hji, h⟩

/-- What has been written stays written, when every connection grows. -/
theorem Written.mono (hinv : SysInv cr net)
    (hgrows : ∀ i c, net i = some c → ∃ c', net' i = some c' ∧ c.Grows c')
    {key : Key} {seq : UInt64} {msg : EssaBlockChainMessage Body}
    (h : net.Written key seq msg) : net'.Written key seq msg := by
  obtain ⟨i, c, hi, rfl, am, ham, hmac, hseq, hmsg⟩ := h
  obtain ⟨c', hi', hg⟩ := hgrows i c hi
  -- a connection that has written a MAC has its keys
  have hkeyed : c.remotePublic ≠ none := by
    rcases (hinv.peers i c hi).phase with hf | ⟨_, hk⟩
    · rw [hf.noMac am ham] at hmac
      cases hmac
    · rw [hk.remote]
      nofun
  exact ⟨i, c', hi', (hg.keyed hkeyed).2, am, hg.out.subset ham, hmac, hseq, hmsg⟩

theorem Certified.mono (hgrows : ∀ i c, net i = some c → ∃ c', net' i = some c' ∧ c.Grows c')
    {id : NodeID} {pub : Curve25519Public} (h : net.Certified cr id pub) :
    net'.Certified cr id pub := by
  obtain ⟨i, c, hi, hid, hpub, hhello⟩ := h
  obtain ⟨c', hi', hg⟩ := hgrows i c hi
  exact ⟨i, c', hi', by rw [hg.owner, hid], by rw [hg.owner, hpub], hg.helloSent hhello⟩

section Steps

variable [DecidableEq Mac]

theorem Call.inv {c' : Peer Party Key Mac Body} (h : Call cr net c c')
    (hinv : c.Inv cr net.Written (net.Certified cr)) :
    c'.Inv cr net.Written (net.Certified cr) := by
  cases h with
  | connectHandler env error pending => exact hinv.connectHandler env pending error
  | sendMessage msg state app =>
    refine hinv.sendMac state ?_
    cases msg <;> simp_all [EssaBlockChainMessage.isApp, EssaBlockChainMessage.hasMac,
      EssaBlockChainMessage.isHello, EssaBlockChainMessage.isError]
  | recvMessage env am state mac cert => exact hinv.recvMessage state env am cert mac
  | drop env => exact hinv.drop env
  | dropWithError env err msg => exact hinv.dropWithError env err msg

theorem Call.grows {c' : Peer Party Key Mac Body} (h : Call cr net c c')
    (hinv : c.Inv cr net.Written (net.Certified cr)) : c.Grows c' := by
  cases h with
  | connectHandler env error pending => exact Peer.grows_connectHandler env error c
  | sendMessage msg state app => exact Peer.grows_sendMessage msg c
  | recvMessage env am state mac cert =>
    exact Peer.grows_recvMessage env am hinv.remote_of_not_pastHello
  | drop env => exact Peer.grows_drop env c
  | dropWithError env err msg => exact Peer.grows_dropWithError env err msg c

/-- No connection loses what it has. -/
theorem Step.grows (h : Step cr net net') (hinv : SysInv cr net) :
    ∀ i c, net i = some c → ∃ c', net' i = some c' ∧ c.Grows c' := by
  intro j d hj
  cases h with
  | new i owner role nonce unused fresh =>
    have hne : j ≠ i := by
      rintro rfl
      rw [unused] at hj
      cases hj
    exact ⟨d, by rw [update_of_ne hne, hj], .refl d⟩
  | call i c c' hi call =>
    by_cases hji : j = i
    · subst hji
      obtain rfl : c = d := some.inj (hi.symm.trans hj)
      exact ⟨c', update_self .., call.grows (hinv.peers _ _ hi)⟩
    · exact ⟨d, by rw [update_of_ne hji, hj], .refl d⟩

theorem Step.sysInv (h : Step cr net net') (hinv : SysInv cr net) : SysInv cr net' := by
  have hgrows := h.grows hinv
  have hmono : ∀ c : Peer Party Key Mac Body, c.Inv cr net.Written (net.Certified cr) →
      c.Inv cr net'.Written (net'.Certified cr) := fun c hc =>
    hc.mono (fun _ _ _ => Written.mono hinv hgrows) (fun _ _ => Certified.mono hgrows)
  cases h with
  | new i owner role nonce unused fresh =>
    constructor
    · intro j d hj
      rcases eq_of_update_eq_some hj with ⟨-, rfl⟩ | ⟨-, hj⟩
      · exact Peer.inv_new owner role nonce
      · exact hmono d (hinv.peers j d hj)
    · intro j k d e hj hk hnonce
      rcases eq_of_update_eq_some hj with ⟨rfl, rfl⟩ | ⟨-, hj'⟩ <;>
        rcases eq_of_update_eq_some hk with ⟨rfl, rfl⟩ | ⟨-, hk'⟩
      · rfl
      · exact absurd hnonce.symm (fresh k e hk')
      · exact absurd hnonce (fresh j d hj')
      · exact hinv.nonces j k d e hj' hk' hnonce
  | call i c c' hi call =>
    have hcall := hinv.peers i c hi
    constructor
    · intro j d hj
      rcases eq_of_update_eq_some hj with ⟨-, rfl⟩ | ⟨-, hj⟩
      · exact hmono _ (call.inv hcall)
      · exact hmono d (hinv.peers j d hj)
    · have hold : ∀ j d, update net i (some c') j = some d →
          ∃ d₀, net j = some d₀ ∧ d.mSendNonce = d₀.mSendNonce := by
        intro j d hj
        rcases eq_of_update_eq_some hj with ⟨rfl, rfl⟩ | ⟨-, hj⟩
        · exact ⟨c, hi, (call.grows hcall).nonce⟩
        · exact ⟨d, hj, rfl⟩
      intro j k d e hj hk hnonce
      obtain ⟨d₀, hj, hd⟩ := hold j d hj
      obtain ⟨e₀, hk, he⟩ := hold k e hk
      exact hinv.nonces j k d₀ e₀ hj hk (by rw [← hd, ← he, hnonce])

/-- Every reachable network keeps the invariant. -/
theorem sysInv_of_reachable (h : Reachable cr net) : SysInv cr net := by
  induction h with
  | refl => exact ⟨fun _ _ h => (some_ne_none _ h.symm).elim,
      fun _ _ _ _ h => (some_ne_none _ h.symm).elim⟩
  | tail _ hstep ih => exact hstep.sysInv ih

end Steps

end Network

/-! ## One sender -/

namespace PeerCrypto

variable {p q : Party} {pub : Curve25519Public} {n m n' m' : Uint256} {role role' : PeerRole}

/-- A key for receiving is a key for sending only at the other end, with the nonces
the other way round. -/
theorem eq_of_getSendingMacKey_eq {p' : Party} (h : cr.getSendingMacKey p' pub n' m' role' =
      cr.getReceivingMacKey q (cr.ecdhPublic p) n m role) : p' = p ∧ n' = m := by
  cases role <;> cases role' <;>
    simp only [getSendingMacKey] at h
  · obtain ⟨-, hdir, -, -⟩ := cr.hkdfExpand_injective h
    cases hdir
  · obtain ⟨hkey, -, hnonce, -⟩ := cr.hkdfExpand_injective h
    exact ⟨cr.ecdhPublic_injective (cr.hkdfExtract_injective hkey).1, hnonce⟩
  · obtain ⟨hkey, -, hnonce, -⟩ := cr.hkdfExpand_injective h
    exact ⟨cr.ecdhPublic_injective (cr.hkdfExtract_injective hkey).2, hnonce⟩
  · obtain ⟨-, hdir, -, -⟩ := cr.hkdfExpand_injective h
    cases hdir

end PeerCrypto

namespace Network

variable {net net' : Network Party Key Mac Body} {i j : Nat}
  {c d : Peer Party Key Mac Body}

/-- Numbers that are compared modulo 2^64 find their places in a shorter list. -/
private theorem prefix_of_sequence {α : Type} {xs ys : List α} (hys : ys.length < 2 ^ 64)
    (h : ∀ k x, xs[k]? = some x →
      ∃ l, ys[l]? = some x ∧ UInt64.ofNat k = UInt64.ofNat l) : xs <+: ys := by
  have hplace : ∀ k, k < 2 ^ 64 → k < xs.length → ys[k]? = xs[k]? := by
    intro k hk hlen
    obtain ⟨l, hl, hkl⟩ := h k _ (List.getElem?_eq_getElem hlen)
    have hl' : l < ys.length := (List.getElem?_eq_some_iff.mp hl).1
    have hkl : k % 2 ^ 64 = l % 2 ^ 64 := congrArg UInt64.toNat hkl
    rw [Nat.mod_eq_of_lt hk, Nat.mod_eq_of_lt (hl'.trans hys)] at hkl
    rw [hkl, hl, ← hkl, List.getElem?_eq_getElem hlen]
  have hlen : xs.length ≤ ys.length := by
    by_contra hlt
    have hnone := hplace ys.length hys (by omega)
    rw [List.getElem?_eq_none le_rfl, List.getElem?_eq_getElem (by omega)] at hnone
    cases hnone
  rw [prefix_iff_getElem?]
  intro k hk
  rw [hplace k (by omega) hk, List.getElem?_eq_getElem hk]

/-- Every dispatched message was sent, with that number, by the other end, on the
connection with the nonce of the accepted HELLO. -/
theorem SysInv.sender (hinv : SysInv cr net) {q : Party}
    (hk : c.Keyed cr net.Written (net.Certified cr) (cr.ecdhPublic q)) {k : Nat}
    {m : EssaBlockChainMessage Body} (hm : c.dispatched[k]? = some m) :
    ∃ j d, net j = some d ∧ d.owner = q ∧ d.mSendNonce = c.mRecvNonce ∧
      ∃ l, d.sentAfterHello[l]? = some m ∧ UInt64.ofNat k = UInt64.ofNat l := by
  obtain ⟨j, d, hj, hkey, am, ham, hmac, hseq, rfl⟩ := hk.known ⟨q, rfl⟩ k m hm
  obtain hf | ⟨pub, hd⟩ := (hinv.peers j d hj).phase
  · rw [hf.noMac am ham] at hmac
    cases hmac
  · rw [hd.sendKey, hk.recvKey] at hkey
    obtain ⟨howner, hnonce⟩ := PeerCrypto.eq_of_getSendingMacKey_eq hkey
    obtain ⟨l, hl, hal⟩ := hd.sent am ham hmac
    exact ⟨j, d, hj, howner, hnonce, l, hl, hseq ▸ hal⟩

/-! ## Two connected peers -/

section Pair

variable {a b a' b' : Peer Party Key Mac Body}

/-- Two connections. -/
def pair (a b : Peer Party Key Mac Body) : Network Party Key Mac Body
  | 0 => some a
  | 1 => some b
  | _ => none

theorem update_pair_zero : Function.update (pair a b) 0 (some a') = pair a' b := by
  funext i
  match i with
  | 0 => rfl
  | 1 => rfl
  | _ + 2 => rfl

theorem update_pair_one : Function.update (pair a b) 1 (some b') = pair a b' := by
  funext i
  match i with
  | 0 => rfl
  | 1 => rfl
  | _ + 2 => rfl

variable [DecidableEq Mac]

theorem Reachable.fst (h : Reachable cr (pair a b)) (hcall : Call cr (pair a b) a a') :
    Reachable cr (pair a' b) :=
  update_pair_zero ▸ h.tail (.call 0 a a' rfl hcall)

theorem Reachable.snd (h : Reachable cr (pair a b)) (hcall : Call cr (pair a b) b b') :
    Reachable cr (pair a b') :=
  update_pair_one ▸ h.tail (.call 1 b b' rfl hcall)

/-- A caller and an acceptor that have just been created. -/
theorem reachable_pair_new (p q : Party) {m n : Uint256} (hmn : m ≠ n) :
    Reachable cr (pair (Peer.new cr p .WE_CALLED_REMOTE m)
      (Peer.new cr q .REMOTE_CALLED_US n)) := by
  have hfst : Reachable cr (update init 0 (some (Peer.new cr p .WE_CALLED_REMOTE m))) :=
    .single (.new 0 p .WE_CALLED_REMOTE m rfl fun _ _ h => (some_ne_none _ h.symm).elim)
  have hpair : pair (Peer.new cr p .WE_CALLED_REMOTE m) (Peer.new cr q .REMOTE_CALLED_US n) =
      update (update init 0 (some (Peer.new cr p .WE_CALLED_REMOTE m))) 1
        (some (Peer.new cr q .REMOTE_CALLED_US n)) := by
    funext i
    match i with
    | 0 => rfl
    | 1 => rfl
    | _ + 2 => rfl
  rw [hpair]
  refine hfst.tail (.new 1 q .REMOTE_CALLED_US n rfl fun j d hj => ?_)
  rcases eq_of_update_eq_some hj with ⟨-, rfl⟩ | ⟨-, hj⟩
  · exact hmn
  · cases hj

/-- Delivering what a connection has written to one whose keys fit. -/
theorem Call.relay (env : PeerEnv Body) (hj : net j = some d)
    {am : AuthenticatedMessage Body Mac} (ham : am ∈ d.out) (hs : c.mState ≠ .CONNECTING)
    (hkey : c.remotePublic = none ∨ am.message.hasMac = true ∧ d.mSendMacKey = c.mRecvMacKey)
    (hcert : ∀ elo, am.message = .HELLO elo → cr.nodeID d.owner = elo.peerID ∧
      cr.ecdhPublic d.owner = elo.cert.pubkey) :
    Call cr net c (c.recvMessage cr env am) := by
  refine .recvMessage env am hs ?_ ?_
  · rintro ⟨q, hq⟩ -
    rcases hkey with hnone | ⟨hmac, hkey⟩
    · rw [hnone] at hq
      cases hq
    · exact ⟨j, d, hj, hkey, am, ham, hmac, rfl, rfl⟩
  · intro elo helo _ _
    obtain ⟨hid, hpub⟩ := hcert elo helo
    exact ⟨j, d, hj, hid, hpub, am, ham, by rw [helo]; rfl⟩

end Pair

end Network

/-! ## A symbolic instance -/

/-- Keys as terms -/
inductive SymbolicKey where
  | zero
  | extract (q : Uint256) (publicA publicB : Curve25519Public)
  | expand (k : SymbolicKey) (direction : UInt8) (m n : Uint256)
  deriving DecidableEq

/-- Two nodes, whose keys and MACs are terms. -/
def symbolic : PeerCrypto Bool SymbolicKey
    (Option (SymbolicKey × UInt64 × EssaBlockChainMessage Bool)) Bool where
  nodeID p := if p then 2 else 1
  ecdhPublic p := if p then 4 else 3
  ecdhPublic_injective := by
    intro p q
    cases p <;> cases q <;> decide
  scalarmult p pub := (if p then 4 else 3) * pub
  scalarmult_comm p q := BitVec.mul_comm _ _
  hkdfExtract := .extract
  hkdfExtract_injective h := by
    injection h with _ ha hb
    exact ⟨ha, hb⟩
  hkdfExpand := .expand
  hkdfExpand_injective h := by
    injection h with hk hd hm hn
    exact ⟨hk, hd, hm, hn⟩
  hmacSha256 key seq msg := some (key, seq, msg)
  verifySig id _ _ _ pub := (id = 1 && pub = 3) || (id = 2 && pub = 4)
  zeroKey := .zero
  zeroMac := none

namespace symbolic

/-- An environment that accepts every peer -/
def env : PeerEnv Bool where
  isShuttingDown := false
  timeNow := 0
  networkID := 0
  LEDGER_PROTOCOL_VERSION := 10
  OVERLAY_PROTOCOL_VERSION := 7
  OVERLAY_PROTOCOL_MIN_VERSION := 7
  VERSION_STR := ""
  PEER_PORT := 11625
  certExpiration := 0
  certSig := []
  isBanned _ := false
  ipEmpty := false
  alreadyConnected _ := false
  acceptAuthenticatedPeer := true
  peersToSend := false
  scpStateRequest := false

/-- The connections of the instance -/
abbrev Conn := Peer Bool SymbolicKey
  (Option (SymbolicKey × UInt64 × EssaBlockChainMessage Bool)) Bool

/-- Receiving the message that `d` has written at place `k` -/
def relay (k : Nat) (d c : Conn) : Conn :=
  match d.out[k]? with
  | some am => c.recvMessage symbolic env am
  | none => c

/-- The message that `d` has written at place `k` is for `c`. -/
def Fits (k : Nat) (d c : Conn) : Prop :=
  ∃ am ∈ d.out[k]?, c.mState ≠ .CONNECTING ∧
    (c.remotePublic = none ∨ am.message.hasMac = true ∧ d.mSendMacKey = c.mRecvMacKey) ∧
    ∀ elo, am.message = .HELLO elo → symbolic.nodeID d.owner = elo.peerID ∧
      symbolic.ecdhPublic d.owner = elo.cert.pubkey

theorem call_relay {net : Network Bool SymbolicKey
      (Option (SymbolicKey × UInt64 × EssaBlockChainMessage Bool)) Bool} {j k : Nat}
    {c d : Conn} (hj : net j = some d) (h : Fits k d c) :
    Network.Call symbolic net c (relay k d c) := by
  obtain ⟨_, ham, hs, hkey, hcert⟩ := h
  rw [relay, mem_def.mp ham]
  exact .relay env hj (mem_of_getElem? ham) hs hkey hcert

/-- A call of node 1 to node 2 up to the first message of the application -/
def callerHello : Conn :=
  (Peer.new symbolic false .WE_CALLED_REMOTE 10).connectHandler symbolic env false

def acceptorHello : Conn := relay 0 callerHello (Peer.new symbolic true .REMOTE_CALLED_US 20)

def callerAuth : Conn := relay 0 acceptorHello callerHello

def acceptor : Conn := relay 1 callerAuth acceptorHello

def caller : Conn := relay 1 acceptor callerAuth

/-- Every message of the handshake is delivered. -/
theorem reachable_handshake : Network.Reachable symbolic (Network.pair caller acceptor) := by
  have hnew : Network.Reachable symbolic (Network.pair
      (Peer.new symbolic false .WE_CALLED_REMOTE 10)
      (Peer.new symbolic true .REMOTE_CALLED_US 20)) :=
    Network.reachable_pair_new false true (by decide)
  have hcaller : Network.Reachable symbolic (Network.pair callerHello _) :=
    hnew.fst (.connectHandler env false rfl)
  have hacceptor : Network.Reachable symbolic (Network.pair callerHello acceptorHello) :=
    hcaller.snd (call_relay (j := 0) rfl
      ⟨_, rfl, by decide, .inl rfl, fun _ h => by cases h; decide⟩)
  have hcaller : Network.Reachable symbolic (Network.pair callerAuth acceptorHello) :=
    hacceptor.fst (call_relay (j := 1) rfl
      ⟨_, rfl, by decide, .inl rfl, fun _ h => by cases h; decide⟩)
  have hacceptor : Network.Reachable symbolic (Network.pair callerAuth acceptor) :=
    hcaller.snd (call_relay (j := 0) rfl
      ⟨_, rfl, by decide, .inr (by decide), fun _ h => by cases h⟩)
  exact hacceptor.fst (call_relay (j := 1) rfl
    ⟨_, rfl, by decide, .inr (by decide), fun _ h => by cases h⟩)

end symbolic

/-! ## The channel -/

namespace Network

variable {net : Network Party Key Mac Body} {i : Nat} {c : Peer Party Key Mac Body}

/-- On a connection that has accepted the HELLO of an honest node, the messages that
are dispatched are a prefix of those that the node has sent after its HELLO, on one
connection, as long as it sends fewer than 2^64 of them on a connection; and
messages of the application are processed in state GOT_AUTH only. -/
theorem authenticated_channel [DecidableEq Mac] (h : Reachable cr net) (hi : net i = some c) :
    (c.remotePublic ≠ none → (∃ q, cr.nodeID q = c.mPeerID) →
      (∀ j d, net j = some d → cr.nodeID d.owner = c.mPeerID → d.sentAfterHello.length < 2 ^ 64) →
      ∃ j d, net j = some d ∧ cr.nodeID d.owner = c.mPeerID ∧ c.dispatched <+: d.sentAfterHello) ∧
    ∀ x ∈ c.processed, x.2.isApp = true → x.1 = .GOT_AUTH := by
  have hinv := sysInv_of_reachable h
  refine ⟨fun hkeyed hid hbound => ?_, (hinv.peers i c hi).handshake⟩
  obtain hf | ⟨pub, hk⟩ := (hinv.peers i c hi).phase
  · exact absurd hf.remote hkeyed
  obtain ⟨j₀, d₀, hj₀, hid₀, rfl, -⟩ := hk.certified hid
  cases hdisp : c.dispatched with
  | nil => exact ⟨j₀, d₀, hj₀, hid₀, nil_prefix⟩
  | cons m ms =>
    obtain ⟨j, d, hj, howner, hnonce, -⟩ := hinv.sender hk (k := 0) (m := m) (by simp [hdisp])
    have hidd : cr.nodeID d.owner = c.mPeerID := by rw [howner, hid₀]
    refine ⟨j, d, hj, hidd, hdisp ▸ prefix_of_sequence (hbound j d hj hidd) fun k x hx => ?_⟩
    obtain ⟨j', d', hj', -, hnonce', hsent⟩ := hinv.sender hk hx
    -- the nonce of the accepted HELLO belongs to one connection
    obtain rfl := hinv.nonces j j' d d' hj hj' (hnonce.trans hnonce'.symm)
    obtain rfl : d = d' := some.inj (hj.symm.trans hj')
    exact hsent

end Network

namespace symbolic

theorem authenticated_channel_handshake : ∃ j d, Network.pair caller acceptor j = some d ∧
      symbolic.nodeID d.owner = acceptor.mPeerID ∧ acceptor.dispatched <+: d.sentAfterHello := by
  refine (Network.authenticated_channel reachable_handshake (i := 1) rfl).1 (by decide)
    ⟨false, by decide⟩ fun j d hj _ => ?_
  match j with
  | 0 =>
    cases hj
    decide
  | 1 =>
    cases hj
    decide

/-! ### Sequence numbers that start again -/

/-- A message of the application -/
def message (body : Bool) : EssaBlockChainMessage Bool := .app .TRANSACTION body

/-- The caller after `n` messages -/
def sending : Nat → Conn
  | 0 => caller
  | n + 1 => (sending n).sendMessage symbolic (message false)

theorem sending_mState (n : Nat) : (sending n).mState = .GOT_AUTH := by
  induction n with
  | zero => rfl
  | succ n ih => rw [sending, Peer.sendMessage_mState, ih]

theorem sending_succ (n : Nat) (body : Bool) : (sending n).sendMessage symbolic (message body) =
      { sending n with
        mSendMacSeq := (sending n).mSendMacSeq + 1
        out := (sending n).out ++ [⟨(sending n).mSendMacSeq, message body,
          symbolic.hmacSha256 (sending n).mSendMacKey (sending n).mSendMacSeq
            (message body)⟩] } := by
  have hopen : (sending n).mState ≠ .CLOSING := by
    rw [sending_mState]
    nofun
  exact if_neg hopen

theorem sending_mSendMacSeq (n : Nat) : (sending n).mSendMacSeq = UInt64.ofNat (n + 2) := by
  induction n with
  | zero => rfl
  | succ n ih =>
    rw [sending, sending_succ, ih, UInt64.ofNat_add (n + 2) 1]
    rfl

theorem sending_mSendMacKey (n : Nat) : (sending n).mSendMacKey = caller.mSendMacKey := by
  induction n with
  | zero => rfl
  | succ n ih => rw [sending, sending_succ, ih]

theorem grows_sending (n : Nat) : caller.Grows (sending n) := by
  induction n with
  | zero => exact .refl caller
  | succ n ih => exact ih.trans (Peer.grows_sendMessage _ _)

theorem reachable_sending (n : Nat) :
    Network.Reachable symbolic (Network.pair (sending n) acceptor) := by
  induction n with
  | zero => exact reachable_handshake
  | succ n ih =>
    refine ih.fst (.sendMessage (message false) ?_ rfl)
    rw [sending_mState]
    rfl

/-- After 2^64 messages a number is used again, and the acceptor takes the later
message in place of the earlier one. -/
theorem reused_sequence :
    ∃ net i c, Network.Reachable symbolic net ∧ net i = some c ∧ c.remotePublic ≠ none ∧
      (∃ q, symbolic.nodeID q = c.mPeerID ∧ symbolic.nodeID q ≠ symbolic.nodeID c.owner) ∧
      ¬ ∃ j d, net j = some d ∧ symbolic.nodeID d.owner = c.mPeerID ∧
        c.dispatched <+: d.sentAfterHello := by
  obtain ⟨n, hn⟩ : ∃ n, UInt64.ofNat (n + 2) = 1 := ⟨2 ^ 64 - 1, by decide⟩
  have hseq : (sending n).mSendMacSeq = 1 := (sending_mSendMacSeq n).trans hn
  have hsent : Network.Reachable symbolic
      (Network.pair ((sending n).sendMessage symbolic (message true)) acceptor) := by
    refine (reachable_sending n).fst (.sendMessage (message true) ?_ rfl)
    rw [sending_mState]
    rfl
  have hgrows : caller.Grows ((sending n).sendMessage symbolic (message true)) :=
    (grows_sending n).trans (Peer.grows_sendMessage _ _)
  refine ⟨_, 1, acceptor.recvMessage symbolic env ⟨1, message true,
    symbolic.hmacSha256 acceptor.mRecvMacKey 1 (message true)⟩,
    hsent.snd (.relay env (j := 0) rfl ?_ (by decide) (.inr ⟨rfl, ?_⟩)
      (fun _ h => by cases h)), rfl,
    by decide, ⟨false, by decide⟩, ?_⟩
  · rw [sending_succ, hseq, sending_mSendMacKey]
    exact mem_append_right _ (mem_singleton.mpr rfl)
  · rw [sending_succ, sending_mSendMacKey]
    rfl
  · rintro ⟨j, d, hj, hid, hprefix⟩
    match j with
    | 0 =>
      cases hj
      have hcaller := hgrows.sentAfterHello (by exact ⟨_, mem_cons_self, rfl⟩)
      exact absurd (prefix_of_prefix_length_le hprefix hcaller (by decide)) (by decide)
    | 1 =>
      cases hj
      exact absurd hid (by decide)

end symbolic

end EssaCore.Overlay
