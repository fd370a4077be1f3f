import EssaCore.Overlay.Peer

/-!
# What a connection guarantees

A connection derives its keys once, from the only HELLO it accepts; it sends its
own HELLO once, and numbers what it sends afterwards; and it processes a message
after HELLO only with the next number and a MAC under its receiving key.

- `sentAfterHello`, `dispatched` — the two sequences of a connection;
- `Grows` — what a connection never takes back;
- `Inv` — the invariant of a connection, relative to the MACs that may be known;
- `Inv.recvMessage`, `Inv.sendMac`, ... — every call keeps the invariant.
-/

open List

namespace EssaCore.Overlay

variable {Party Key Mac Body : Type} {cr : PeerCrypto Party Key Mac Body}

/-! ## What is sent and dispatched -/

/-- The messages after the first HELLO that are not errors. -/
def afterHello (msgs : List (EssaBlockChainMessage Body)) :
    List (EssaBlockChainMessage Body) :=
  (msgs.dropWhile (!·.isHello)).tail.filter (!·.isError)

theorem afterHello_of_not_hello {msgs : List (EssaBlockChainMessage Body)}
    (h : ∀ m ∈ msgs, m.isHello = false) (m : EssaBlockChainMessage Body) :
    afterHello (msgs ++ [m]) = [] := by
  have hdrop : msgs.dropWhile (!·.isHello) = [] :=
    dropWhile_eq_nil_iff.mpr fun m hm => by simp [h m hm]
  rw [afterHello, dropWhile_append, hdrop]
  cases hm : m.isHello <;> simp [hm]

theorem afterHello_append {msgs : List (EssaBlockChainMessage Body)}
    {h : EssaBlockChainMessage Body} (hmem : h ∈ msgs) (hh : h.isHello = true)
    (more : List (EssaBlockChainMessage Body)) :
    afterHello (msgs ++ more) = afterHello msgs ++ more.filter (!·.isError) := by
  have hne : msgs.dropWhile (!·.isHello) ≠ [] := by
    intro hnil
    have := dropWhile_eq_nil_iff.mp hnil h hmem
    simp [hh] at this
  obtain ⟨x, _, hx⟩ := exists_cons_of_ne_nil hne
  rw [afterHello, afterHello, dropWhile_append, hx]
  simp

namespace Peer

variable {c c' c₁ c₂ : Peer Party Key Mac Body}

/-- The messages, other than errors, that were written after HELLO. -/
def sentAfterHello (c : Peer Party Key Mac Body) : List (EssaBlockChainMessage Body) :=
  afterHello (c.out.map (·.message))

/-- The messages, other than errors, that were processed after HELLO. -/
def dispatched (c : Peer Party Key Mac Body) : List (EssaBlockChainMessage Body) :=
  (c.processed.filter fun x => x.1.pastHello && !x.2.isError).map Prod.snd

/-- A HELLO has been written. -/
def HelloSent (c : Peer Party Key Mac Body) : Prop :=
  ∃ am ∈ c.out, am.message.isHello = true

/-! ## What is never taken back -/

/-- A later state of a connection: it has written more, and its keys, once they are
set, are the same. -/
structure Grows (c c' : Peer Party Key Mac Body) : Prop where
  owner : c'.owner = c.owner
  role : c'.mRole = c.mRole
  nonce : c'.mSendNonce = c.mSendNonce
  out : c.out <+: c'.out
  keyed : c.remotePublic ≠ none → c'.remotePublic = c.remotePublic ∧
    c'.mSendMacKey = c.mSendMacKey

theorem Grows.refl (c : Peer Party Key Mac Body) : Grows c c :=
  ⟨rfl, rfl, rfl, prefix_rfl, fun _ => ⟨rfl, rfl⟩⟩

theorem Grows.trans (h₁ : Grows c c₁) (h₂ : Grows c₁ c₂) : Grows c c₂ where
  owner := h₂.owner.trans h₁.owner
  role := h₂.role.trans h₁.role
  nonce := h₂.nonce.trans h₁.nonce
  out := h₁.out.trans h₂.out
  keyed hne := by
    obtain ⟨hr, hk⟩ := h₁.keyed hne
    obtain ⟨hr', hk'⟩ := h₂.keyed (hr ▸ hne)
    exact ⟨hr'.trans hr, hk'.trans hk⟩

theorem Grows.helloSent (h : Grows c c') (hs : c.HelloSent) : c'.HelloSent := by
  obtain ⟨am, hmem, hh⟩ := hs
  exact ⟨am, h.out.subset hmem, hh⟩

/-- What was sent after HELLO stays at its place. -/
theorem Grows.sentAfterHello (h : Grows c c') (hs : c.HelloSent) :
    c.sentAfterHello <+: c'.sentAfterHello := by
  obtain ⟨am, hmem, hh⟩ := hs
  obtain ⟨_, hmore⟩ := h.out
  have hmem' : am.message ∈ c.out.map (·.message) := mem_map_of_mem hmem
  rw [Peer.sentAfterHello, Peer.sentAfterHello, ← hmore, map_append,
    afterHello_append hmem' hh]
  exact prefix_append _ _

theorem grows_write (am : AuthenticatedMessage Body Mac) (c : Peer Party Key Mac Body) :
    Grows c (c.write am) := by
  unfold write
  split
  · exact .refl c
  · exact ⟨rfl, rfl, rfl, prefix_append _ _, fun _ => ⟨rfl, rfl⟩⟩

theorem grows_sendMessage (msg : EssaBlockChainMessage Body)
    (c : Peer Party Key Mac Body) : Grows c (sendMessage cr msg c) := by
  unfold sendMessage
  split
  · have hseq : Grows c { c with mSendMacSeq := c.mSendMacSeq + 1 } :=
      ⟨rfl, rfl, rfl, prefix_rfl, fun _ => ⟨rfl, rfl⟩⟩
    exact hseq.trans (grows_write _ _)
  · exact grows_write _ c

variable (env : PeerEnv Body)

theorem grows_drop (c : Peer Party Key Mac Body) : Grows c (drop env c) := by
  unfold drop
  split
  · exact .refl c
  · exact ⟨rfl, rfl, rfl, prefix_rfl, fun _ => ⟨rfl, rfl⟩⟩

theorem grows_dropWithError (err : ErrorCode) (msg : String)
    (c : Peer Party Key Mac Body) : Grows c (dropWithError cr env err msg c) :=
  (grows_sendMessage _ c).trans (grows_drop env _)

theorem grows_connectHandler (error : Bool)
    (c : Peer Party Key Mac Body) : Grows c (connectHandler cr env error c) := by
  have hdone : Grows c { c with connectPending := false } :=
    ⟨rfl, rfl, rfl, prefix_rfl, fun _ => ⟨rfl, rfl⟩⟩
  have hconnected : Grows c { c with connectPending := false, mState := .CONNECTED } :=
    ⟨rfl, rfl, rfl, prefix_rfl, fun _ => ⟨rfl, rfl⟩⟩
  unfold connectHandler
  split
  · exact hdone.trans (grows_drop env _)
  · exact hconnected.trans (grows_sendMessage _ _)

theorem grows_recvHelloRest (elo : Hello)
    (c : Peer Party Key Mac Body) : Grows c (recvHelloRest cr env elo c) := by
  unfold recvHelloRest
  repeat' split
  all_goals first
    | exact grows_dropWithError env _ _ c
    | exact grows_sendMessage _ c
    | exact .refl c

/-- A HELLO is accepted only by a connection without keys. -/
theorem grows_recvHello (elo : Hello)
    (h : c.mState.pastHello = false → c.remotePublic = none) :
    Grows c (recvHello cr env elo c) := by
  unfold recvHello
  split
  · exact grows_drop env c
  · rename_i hpast
    have hnone : c.remotePublic = none := h (by simpa using hpast)
    split
    · exact grows_drop env c
    · split
      · exact grows_drop env c
      · have hkeys : Grows c (setKeys cr elo c) :=
          ⟨rfl, rfl, rfl, prefix_rfl, fun hne => absurd hnone hne⟩
        dsimp only
        split
        · exact (hkeys.trans (grows_sendMessage _ _)).trans (grows_recvHelloRest env elo _)
        · exact hkeys.trans (grows_recvHelloRest env elo _)

theorem grows_recvAuth (c : Peer Party Key Mac Body) :
    Grows c (recvAuth cr env c) := by
  unfold recvAuth
  split
  · exact grows_dropWithError env _ _ c
  · have hauth : Grows c { c with mState := .GOT_AUTH } :=
      ⟨rfl, rfl, rfl, prefix_rfl, fun _ => ⟨rfl, rfl⟩⟩
    dsimp only
    have hanswer : Grows c (if c.mRole = .REMOTE_CALLED_US then
        sendMessage cr (.app .PEERS env.peersToSend)
          (sendMessage cr .AUTH { c with mState := .GOT_AUTH })
        else { c with mState := .GOT_AUTH }) := by
      split
      · exact hauth.trans ((grows_sendMessage _ _).trans (grows_sendMessage _ _))
      · exact hauth
    split
    · exact hanswer.trans (grows_dropWithError env _ _ _)
    · exact hanswer.trans (grows_sendMessage _ _)

theorem grows_recvEssaMessage (msg : EssaBlockChainMessage Body)
    (h : c.mState.pastHello = false → c.remotePublic = none) :
    Grows c (recvEssaMessage cr env msg c) := by
  unfold recvEssaMessage
  split
  · exact .refl c
  · split
    · exact grows_drop env c
    · have hlog : Grows c { c with processed := c.processed ++ [(c.mState, msg)] } :=
        ⟨rfl, rfl, rfl, prefix_rfl, fun _ => ⟨rfl, rfl⟩⟩
      cases msg with
      | ERROR_MSG code text => exact hlog.trans (grows_drop env _)
      | HELLO elo =>
        refine hlog.trans (grows_recvHello env elo ?_)
        exact h
      | AUTH => exact hlog.trans (grows_recvAuth env _)
      | app type body => exact hlog

theorem grows_recvMessage [DecidableEq Mac]
    (am : AuthenticatedMessage Body Mac)
    (h : c.mState.pastHello = false → c.remotePublic = none) :
    Grows c (recvMessage cr env am c) := by
  have hseq : Grows c { c with mRecvMacSeq := c.mRecvMacSeq + 1 } :=
    ⟨rfl, rfl, rfl, prefix_rfl, fun _ => ⟨rfl, rfl⟩⟩
  unfold recvMessage
  split
  · exact .refl c
  · split
    · split
      · exact hseq.trans (grows_dropWithError env _ _ _)
      · split
        · exact hseq.trans (grows_dropWithError env _ _ _)
        · refine hseq.trans (grows_recvEssaMessage env _ ?_)
          exact h
    · exact grows_recvEssaMessage env _ h

/-! ## The invariant -/

/-- A connection that has not accepted a HELLO. It has sent its own one if and only
if it is a caller that has been connected. -/
structure Fresh (c : Peer Party Key Mac Body) : Prop where
  remote : c.remotePublic = none
  state : c.mState ≠ .GOT_HELLO ∧ c.mState ≠ .GOT_AUTH
  noMac : ∀ am ∈ c.out, am.message.hasMac = false
  sent : c.sentAfterHello = []
  dispatched : c.dispatched = []
  acceptor : c.mRole = .REMOTE_CALLED_US → ¬ c.HelloSent
  pending : c.connectPending = true → c.mRole = .WE_CALLED_REMOTE ∧ ¬ c.HelloSent
  caller : c.mRole = .WE_CALLED_REMOTE → c.mState = .CONNECTED → c.HelloSent

/-- A connection that has accepted a HELLO with the ECDH key `pub`. `Known` are the
MACs that exist, `Certified` the ECDH keys of honest nodes. -/
structure Keyed (cr : PeerCrypto Party Key Mac Body)
    (Known : Key → UInt64 → EssaBlockChainMessage Body → Prop)
    (Certified : NodeID → Curve25519Public → Prop) (pub : Curve25519Public)
    (c : Peer Party Key Mac Body) : Prop where
  remote : c.remotePublic = some pub
  state : c.mState.pastHello = true
  connected : c.connectPending = false
  hello : c.HelloSent
  sendKey : c.mSendMacKey =
    cr.getSendingMacKey c.owner pub c.mSendNonce c.mRecvNonce c.mRole
  recvKey : c.mRecvMacKey =
    cr.getReceivingMacKey c.owner pub c.mSendNonce c.mRecvNonce c.mRole
  certified : (∃ p, cr.nodeID p = c.mPeerID) → Certified c.mPeerID pub
  sent : ∀ am ∈ c.out, am.message.hasMac = true →
    ∃ i, c.sentAfterHello[i]? = some am.message ∧ am.sequence = UInt64.ofNat i
  live : c.mState ≠ .CLOSING → c.mSendMacSeq = UInt64.ofNat c.sentAfterHello.length ∧
    c.mRecvMacSeq = UInt64.ofNat c.dispatched.length
  known : (∃ q, cr.ecdhPublic q = pub) → ∀ i m, c.dispatched[i]? = some m →
    Known c.mRecvMacKey (UInt64.ofNat i) m

/-- The invariant of a connection. -/
structure Inv (cr : PeerCrypto Party Key Mac Body)
    (Known : Key → UInt64 → EssaBlockChainMessage Body → Prop)
    (Certified : NodeID → Curve25519Public → Prop) (c : Peer Party Key Mac Body) :
    Prop where
  handshake : ∀ x ∈ c.processed, x.2.isApp = true → x.1 = .GOT_AUTH
  phase : Fresh c ∨ ∃ pub, Keyed cr Known Certified pub c

variable {Known Known' : Key → UInt64 → EssaBlockChainMessage Body → Prop}
  {Certified Certified' : NodeID → Curve25519Public → Prop} {pub : Curve25519Public}

theorem Inv.mono (h : Inv cr Known Certified c) (hk : ∀ k s m, Known k s m → Known' k s m)
    (hc : ∀ id pub, Certified id pub → Certified' id pub) :
    Inv cr Known' Certified' c where
  handshake := h.handshake
  phase := h.phase.imp_right fun ⟨pub, hp⟩ => ⟨pub,
    { hp with
      certified := fun hid => hc _ _ (hp.certified hid)
      known := fun hq i m hm => hk _ _ _ (hp.known hq i m hm) }⟩

/-- A connection without keys has not got past HELLO. -/
theorem Inv.remote_of_not_pastHello (h : Inv cr Known Certified c)
    (hs : c.mState.pastHello = false) : c.remotePublic = none := by
  rcases h.phase with hf | ⟨_, hk⟩
  · exact hf.remote
  · rw [hk.state] at hs
    cases hs

theorem inv_new (owner : Party) (role : PeerRole) (nonce : Ledger.Uint256) :
    Inv cr Known Certified (Peer.new cr owner role nonce) where
  handshake x hx := by cases hx
  phase := .inl
    { remote := rfl
      state := by cases role <;> exact ⟨nofun, nofun⟩
      noMac := fun am ham => by cases ham
      sent := rfl
      dispatched := rfl
      acceptor := fun _ ⟨_, ham, _⟩ => by cases ham
      pending := fun hp => ⟨by simpa [Peer.new] using hp, fun ⟨_, ham, _⟩ => by cases ham⟩
      caller := fun hr hs => by
        subst hr
        cases hs }

/-! ## Primitive moves -/

theorem helloSent_append {am : AuthenticatedMessage Body Mac} (hm : am.message.isHello = false) :
    HelloSent { c with out := c.out ++ [am] } ↔ c.HelloSent := by
  unfold HelloSent
  simp [hm]

theorem sentAfterHello_append (hh : c.HelloSent) (am : AuthenticatedMessage Body Mac) :
    sentAfterHello { c with out := c.out ++ [am] } =
      c.sentAfterHello ++ if am.message.isError then [] else [am.message] := by
  obtain ⟨am', hmem, hhello⟩ := hh
  have hmem' : am'.message ∈ c.out.map (·.message) := mem_map_of_mem hmem
  rw [sentAfterHello, map_append, afterHello_append hmem' hhello]
  cases hm : am.message.isError <;> simp [hm, sentAfterHello]

theorem sentAfterHello_append_of_not (hh : ¬ c.HelloSent) (am : AuthenticatedMessage Body Mac) :
    sentAfterHello { c with out := c.out ++ [am] } = [] := by
  have hno : ∀ m ∈ c.out.map (·.message), m.isHello = false := by
    intro m hm
    obtain ⟨am', hmem, rfl⟩ := mem_map.mp hm
    by_contra hne
    exact hh ⟨am', hmem, by simpa using hne⟩
  simpa [sentAfterHello] using afterHello_of_not_hello hno am.message

/-- Closing a connection, whatever its counters are. -/
theorem Inv.close (h : Inv cr Known Certified c) (s r : UInt64) :
    Inv cr Known Certified { c with mState := .CLOSING, mSendMacSeq := s, mRecvMacSeq := r }
    where
  handshake := h.handshake
  phase := by
    rcases h.phase with hf | ⟨pub, hk⟩
    · exact .inl { hf with state := ⟨nofun, nofun⟩, caller := fun _ hs => nomatch hs }
    · exact .inr ⟨pub, { hk with state := rfl, live := fun hne => absurd rfl hne }⟩

/-- Writing an error. -/
theorem Inv.writeError (h : Inv cr Known Certified c) {am : AuthenticatedMessage Body Mac}
    (ham : am.message.isError = true) :
    Inv cr Known Certified { c with out := c.out ++ [am] } where
  handshake := h.handshake
  phase := by
    have hmac : am.message.hasMac = false := by simp [EssaBlockChainMessage.hasMac, ham]
    have hhello : am.message.isHello = false := by
      cases hm : am.message <;> simp_all [EssaBlockChainMessage.isError,
        EssaBlockChainMessage.isHello]
    rcases h.phase with hf | ⟨pub, hk⟩
    · have hsent : sentAfterHello { c with out := c.out ++ [am] } = [] := by
        by_cases hh : c.HelloSent
        · simp [sentAfterHello_append hh, hf.sent, ham]
        · exact sentAfterHello_append_of_not hh am
      exact .inl
        { hf with
          noMac := forall_mem_append.mpr ⟨hf.noMac, by simpa using hmac⟩
          sent := hsent
          acceptor := fun hr => (helloSent_append hhello).not.mpr (hf.acceptor hr)
          pending := fun hp => (hf.pending hp).imp_right (helloSent_append hhello).not.mpr
          caller := fun hr hs => (helloSent_append hhello).mpr (hf.caller hr hs) }
    · have hsent : sentAfterHello { c with out := c.out ++ [am] } = c.sentAfterHello := by
        simp [sentAfterHello_append hk.hello, ham]
      exact .inr ⟨pub,
        { hk with
          hello := (helloSent_append hhello).mpr hk.hello
          sent := forall_mem_append.mpr ⟨by rw [hsent]; exact hk.sent, by simp [hmac]⟩
          live := by rw [hsent]; exact hk.live }⟩

variable {msg : EssaBlockChainMessage Body}

/-- Writing the next authenticated message. -/
theorem Keyed.send (h : Keyed cr Known Certified pub c) (hs : c.mState ≠ .CLOSING)
    (hmac : msg.hasMac = true) (mac : Mac) :
    Keyed cr Known Certified pub { c with
      mSendMacSeq := c.mSendMacSeq + 1
      out := c.out ++ [⟨c.mSendMacSeq, msg, mac⟩] } := by
  obtain ⟨hhello, herror⟩ : msg.isHello = false ∧ msg.isError = false := by
    simpa [EssaBlockChainMessage.hasMac] using hmac
  have hsent : sentAfterHello { c with
      mSendMacSeq := c.mSendMacSeq + 1
      out := c.out ++ [⟨c.mSendMacSeq, msg, mac⟩] } = c.sentAfterHello ++ [msg] := by
    have := sentAfterHello_append h.hello ⟨c.mSendMacSeq, msg, mac⟩
    rwa [herror] at this
  obtain ⟨hseq, hrecv⟩ := h.live hs
  exact
    { h with
      hello := (helloSent_append hhello).mpr h.hello
      sent := by
        rw [hsent]
        refine forall_mem_append.mpr ⟨fun am ham hm => ?_, ?_⟩
        · obtain ⟨i, hi, hai⟩ := h.sent am ham hm
          exact ⟨i, List.getElem?_append_left (List.getElem?_eq_some_iff.mp hi).1 ▸ hi, hai⟩
        · simpa [hmac] using ⟨_, List.getElem?_concat_length, hseq⟩
      live := fun _ => ⟨by rw [hsent, hseq, length_append, UInt64.ofNat_add]; rfl, hrecv⟩ }

private theorem getElem?_concat_eq_some {α : Type} {l : List α} {a b : α} {i : Nat}
    (h : (l ++ [a])[i]? = some b) : l[i]? = some b ∨ i = l.length ∧ a = b := by
  rcases Nat.lt_or_ge i l.length with hi | hi
  · exact .inl (List.getElem?_append_left hi ▸ h)
  · rw [List.getElem?_append_right hi, List.getElem?_singleton] at h
    split at h
    · exact .inr ⟨by omega, Option.some.inj h⟩
    · cases h

/-- Processing the next authenticated message. -/
theorem Keyed.accept (h : Keyed cr Known Certified pub c) (hs : c.mState ≠ .CLOSING)
    (herror : msg.isError = false)
    (hknown : (∃ q, cr.ecdhPublic q = pub) → Known c.mRecvMacKey c.mRecvMacSeq msg) :
    Keyed cr Known Certified pub { c with
      mRecvMacSeq := c.mRecvMacSeq + 1
      processed := c.processed ++ [(c.mState, msg)] } := by
  obtain ⟨hseq, hrecv⟩ := h.live hs
  have hdisp : dispatched { c with
      mRecvMacSeq := c.mRecvMacSeq + 1
      processed := c.processed ++ [(c.mState, msg)] } = c.dispatched ++ [msg] := by
    simp [dispatched, h.state, herror]
  exact
    { h with
      live := fun _ => ⟨hseq, by
        rw [hdisp, hrecv, length_append, UInt64.ofNat_add]
        rfl⟩
      known := fun hq i m hm => by
        rw [hdisp] at hm
        rcases getElem?_concat_eq_some hm with hm | ⟨rfl, rfl⟩
        · exact h.known hq i m hm
        · exact hrecv ▸ hknown hq }

/-- AUTH completes the handshake. -/
theorem Keyed.auth (h : Keyed cr Known Certified pub c) (hs : c.mState ≠ .CLOSING) :
    Keyed cr Known Certified pub { c with mState := .GOT_AUTH } :=
  { h with state := rfl, live := fun _ => h.live hs }

/-- Processing an error, or a message before a HELLO is accepted. -/
theorem Inv.log (h : Inv cr Known Certified c) (happ : msg.isApp = true → c.mState = .GOT_AUTH)
    (hskip : (c.mState.pastHello && !msg.isError) = false) :
    Inv cr Known Certified { c with processed := c.processed ++ [(c.mState, msg)] } where
  handshake := forall_mem_append.mpr ⟨h.handshake, by simpa using happ⟩
  phase := by
    have hdisp : dispatched { c with processed := c.processed ++ [(c.mState, msg)] } =
        c.dispatched := by
      simp [dispatched, hskip]
    rcases h.phase with hf | ⟨pub, hk⟩
    · exact .inl { hf with dispatched := hdisp.trans hf.dispatched }
    · exact .inr ⟨pub,
        { hk with
          live := by rw [hdisp]; exact hk.live
          known := by rw [hdisp]; exact hk.known }⟩

/-! ## Calls -/

@[simp] theorem sendMessage_mState (msg : EssaBlockChainMessage Body)
    (c : Peer Party Key Mac Body) : (sendMessage cr msg c).mState = c.mState := by
  unfold sendMessage write
  repeat' split
  all_goals rfl

variable (h : Inv cr Known Certified c)

include h

theorem Inv.drop (env : PeerEnv Body) :
    Inv cr Known Certified (c.drop env) := by
  unfold Peer.drop
  split
  · exact h
  · exact h.close c.mSendMacSeq c.mRecvMacSeq

theorem Inv.dropWithError (env : PeerEnv Body)
    (err : ErrorCode) (msg : String) :
    Inv cr Known Certified (c.dropWithError cr env err msg) := by
  refine Inv.drop ?_ env
  show Inv cr Known Certified (write ⟨0, .ERROR_MSG err msg, cr.zeroMac⟩ c)
  unfold write
  split
  · exact h
  · exact h.writeError rfl

/-- A connection that is dropped may have counted a message it did not process. -/
theorem Inv.drop_counted {env : PeerEnv Body}
    (hopen : c.shouldAbort env = false) (r : UInt64) :
    Inv cr Known Certified (Peer.drop env { c with mRecvMacSeq := r }) := by
  have hopen' : shouldAbort env { c with mRecvMacSeq := r } = false := hopen
  rw [Peer.drop, hopen']
  exact h.close c.mSendMacSeq r

theorem Inv.dropWithError_counted {env : PeerEnv Body}
    (hopen : c.shouldAbort env = false) (err : ErrorCode) (msg : String) (r : UInt64) :
    Inv cr Known Certified (Peer.dropWithError cr env err msg { c with mRecvMacSeq := r }) := by
  have hstate : c.mState ≠ .CLOSING := by
    intro hs
    simp [shouldAbort, hs] at hopen
  have hwrite : sendMessage cr (.ERROR_MSG err msg) { c with mRecvMacSeq := r } =
      { c with mRecvMacSeq := r, out := c.out ++ [⟨0, .ERROR_MSG err msg, cr.zeroMac⟩] } :=
    if_neg hstate
  rw [Peer.dropWithError, hwrite]
  have herror : Inv cr Known Certified
      { c with out := c.out ++ [⟨0, .ERROR_MSG err msg, cr.zeroMac⟩] } := h.writeError rfl
  exact herror.drop_counted hopen r

/-- `sendMessage` of an authenticated message, in any state after HELLO -/
theorem Inv.sendMac (hs : c.mState.pastHello = true)
    (hmac : msg.hasMac = true) :
    Inv cr Known Certified (sendMessage cr msg c) := by
  rw [sendMessage, if_pos hmac]
  unfold write
  split
  · rename_i hclosing
    have := h.close (c.mSendMacSeq + 1) c.mRecvMacSeq
    rwa [← show c.mState = .CLOSING from hclosing] at this
  · rename_i hopen
    refine ⟨h.handshake, ?_⟩
    rcases h.phase with hf | ⟨pub, hk⟩
    · cases hst : c.mState <;> simp_all [PeerState.pastHello, PeerState.toNat, hf.state]
    · exact .inr ⟨pub, hk.send hopen hmac _⟩

theorem Inv.connectHandler (env : PeerEnv Body)
    (hp : c.connectPending = true) (error : Bool) :
    Inv cr Known Certified (c.connectHandler cr env error) := by
  obtain hf | ⟨pub, hk⟩ := h.phase
  · obtain ⟨hrole, hno⟩ := hf.pending hp
    have hdone : Inv cr Known Certified { c with connectPending := false } :=
      ⟨h.handshake, .inl { hf with pending := nofun }⟩
    unfold Peer.connectHandler
    split
    · exact hdone.drop env
    · refine ⟨h.handshake, .inl ?_⟩
      exact
        { remote := hf.remote
          state := ⟨nofun, nofun⟩
          noMac := forall_mem_append.mpr ⟨hf.noMac, by simp [EssaBlockChainMessage.hasMac,
            EssaBlockChainMessage.isHello]⟩
          sent := sentAfterHello_append_of_not hno _
          dispatched := hf.dispatched
          acceptor := fun hr => by
            rw [show c.mRole = .REMOTE_CALLED_US from hr] at hrole
            cases hrole
          pending := nofun
          caller := fun _ _ => ⟨_, mem_append_right _ mem_cons_self, rfl⟩ }
  · rw [hk.connected] at hp
    cases hp

omit h

/-- The keys of a connection that has written only its HELLO, and errors. -/
theorem Fresh.setKeys (h : Fresh c) (elo : Hello) {out : List (AuthenticatedMessage Body Mac)}
    (hcert : (∃ p, cr.nodeID p = elo.peerID) → Certified elo.peerID elo.cert.pubkey)
    (hconnected : c.connectPending = false)
    (hmac : ∀ am ∈ out, am.message.hasMac = false)
    (hhello : ∃ am ∈ out, am.message.isHello = true)
    (hsent : afterHello (out.map (·.message)) = []) :
    Keyed cr Known Certified elo.cert.pubkey { Peer.setKeys cr elo c with out := out } where
  remote := rfl
  state := rfl
  connected := hconnected
  hello := hhello
  sendKey := rfl
  recvKey := rfl
  certified := hcert
  sent am ham hm := by
    rw [hmac am ham] at hm
    cases hm
  live _ := by
    constructor
    · exact (congrArg (UInt64.ofNat ∘ List.length) hsent).symm
    · exact (congrArg (UInt64.ofNat ∘ List.length) h.dispatched).symm
  known _ i m hm := by
    have hm : c.dispatched[i]? = some m := hm
    rw [h.dispatched] at hm
    cases hm

/-- Accepting a HELLO, with the answer of an acceptor. -/
theorem Fresh.acceptHello (h : Fresh c) (hs : c.mState = .CONNECTED) (env : PeerEnv Body)
    (elo : Hello)
    (hcert : (∃ p, cr.nodeID p = elo.peerID) → Certified elo.peerID elo.cert.pubkey) :
    Keyed cr Known Certified elo.cert.pubkey
      (if (Peer.setKeys cr elo c).mRole = .REMOTE_CALLED_US then
        sendHello cr env (Peer.setKeys cr elo c) else Peer.setKeys cr elo c) := by
  split
  · rename_i hrole
    have hrole : c.mRole = .REMOTE_CALLED_US := hrole
    have hconnected : c.connectPending = false := by
      by_contra hp
      have := (h.pending (by simpa using hp)).1
      rw [hrole] at this
      cases this
    refine h.setKeys elo hcert hconnected ?_ ?_ ?_
    · exact forall_mem_append.mpr ⟨h.noMac, by
        simp [EssaBlockChainMessage.hasMac, EssaBlockChainMessage.isHello]⟩
    · exact ⟨_, mem_append_right _ mem_cons_self, rfl⟩
    · exact sentAfterHello_append_of_not (h.acceptor hrole) _
  · rename_i hrole
    have hrole : c.mRole = .WE_CALLED_REMOTE := by
      cases hr : c.mRole
      · exact absurd hr hrole
      · rfl
    have hhello : c.HelloSent := h.caller hrole hs
    have hconnected : c.connectPending = false := by
      by_contra hp
      exact (h.pending (by simpa using hp)).2 hhello
    exact h.setKeys elo hcert hconnected h.noMac hhello h.sent

variable (h : Inv cr Known Certified c)

include h

theorem Inv.recvHelloRest (hs : c.mState = .GOT_HELLO)
    (env : PeerEnv Body) (elo : Hello) :
    Inv cr Known Certified (c.recvHelloRest cr env elo) := by
  unfold Peer.recvHelloRest
  repeat' split
  all_goals first
    | exact h.dropWithError env _ _
    | exact h.sendMac (by rw [hs]; rfl) rfl
    | exact h

theorem Inv.recvHello (hs : c.mState ≠ .CONNECTING)
    (env : PeerEnv Body) (elo : Hello)
    (hcert : verifyRemoteAuthCert cr env elo.peerID elo.cert = true →
      (∃ p, cr.nodeID p = elo.peerID) → Certified elo.peerID elo.cert.pubkey) :
    Inv cr Known Certified (c.recvHello cr env elo) := by
  unfold Peer.recvHello
  split
  · exact h.drop env
  · rename_i hpast
    split
    · exact h.drop env
    · rename_i hverify
      split
      · exact h.drop env
      · have hconnected : c.mState = .CONNECTED := by
          cases hst : c.mState <;> simp_all [PeerState.pastHello, PeerState.toNat]
        have hf : Fresh c := by
          rcases h.phase with hf | ⟨_, hk⟩
          · exact hf
          · exact absurd hk.state hpast
        have hkeyed : Keyed cr Known Certified elo.cert.pubkey _ :=
          hf.acceptHello hconnected env elo (hcert (by simpa using hverify))
        refine Inv.recvHelloRest ⟨?_, .inr ⟨_, hkeyed⟩⟩ ?_ env elo
        · split
          · rw [sendHello]
            exact h.handshake
          · exact h.handshake
        · split
          · exact sendMessage_mState _ _
          · rfl

theorem Inv.recvAuth (env : PeerEnv Body) :
    Inv cr Known Certified (c.recvAuth cr env) := by
  unfold Peer.recvAuth
  split
  · exact h.dropWithError env _ _
  · rename_i hs
    have hs : c.mState = .GOT_HELLO := by simpa using hs
    have hauth : Inv cr Known Certified { c with mState := .GOT_AUTH } := by
      refine ⟨h.handshake, ?_⟩
      rcases h.phase with hf | ⟨pub, hk⟩
      · exact absurd hs hf.state.1
      · exact .inr ⟨pub, hk.auth (by rw [hs]; nofun)⟩
    have hanswer : Inv cr Known Certified (if c.mRole = .REMOTE_CALLED_US then
        sendMessage cr (.app .PEERS env.peersToSend)
          (sendMessage cr .AUTH { c with mState := .GOT_AUTH })
        else { c with mState := .GOT_AUTH }) := by
      split
      · exact (hauth.sendMac rfl rfl).sendMac (by rfl) rfl
      · exact hauth
    dsimp only
    split
    · exact hanswer.dropWithError env _ _
    · refine hanswer.sendMac ?_ rfl
      split
      · rfl
      · rfl

omit h

/-- The certificate of a HELLO is not forged. -/
def Vouched (cr : PeerCrypto Party Key Mac Body) (Certified : NodeID → Curve25519Public → Prop)
    (env : PeerEnv Body) (msg : EssaBlockChainMessage Body) : Prop :=
  ∀ elo, msg = .HELLO elo → verifyRemoteAuthCert cr env elo.peerID elo.cert = true →
    (∃ p, cr.nodeID p = elo.peerID) → Certified elo.peerID elo.cert.pubkey

/-- The calls that a processed message leads to. -/
private theorem Inv.dispatch (env : PeerEnv Body) (msg : EssaBlockChainMessage Body)
    (h : Inv cr Known Certified { c with processed := c.processed ++ [(c.mState, msg)] })
    (hs : c.mState ≠ .CONNECTING)
    (hcert : Vouched cr Certified env msg)
    (hopen : c.shouldAbort env = false) (happ : (!c.isAuthenticated && msg.isApp) = false) :
    Inv cr Known Certified (c.recvEssaMessage cr env msg) := by
  unfold recvEssaMessage
  rw [hopen, happ]
  cases msg with
  | ERROR_MSG code text => exact h.drop env
  | HELLO elo => exact h.recvHello hs env elo (hcert elo rfl)
  | AUTH => exact h.recvAuth env
  | app type body => exact h

/-- An error, or a message before a HELLO is accepted -/
private theorem Inv.recvPlain (h : Inv cr Known Certified c) (env : PeerEnv Body)
    (hs : c.mState ≠ .CONNECTING)
    (hopen : c.shouldAbort env = false)
    (hskip : (c.mState.pastHello && !msg.isError) = false)
    (hcert : Vouched cr Certified env msg) :
    Inv cr Known Certified (c.recvEssaMessage cr env msg) := by
  cases happ : !c.isAuthenticated && msg.isApp with
  | true =>
    rw [recvEssaMessage, hopen, happ]
    exact h.drop env
  | false =>
    refine Inv.dispatch env msg (h.log ?_ hskip) hs hcert hopen happ
    intro hm
    simpa [hm, isAuthenticated] using happ

/-- A message after HELLO whose number and MAC have been checked -/
private theorem Inv.recvChecked (h : Inv cr Known Certified c) (env : PeerEnv Body)
    (hopen : c.shouldAbort env = false)
    (hpast : c.mState.pastHello = true) (herror : msg.isError = false)
    (hcert : Vouched cr Certified env msg)
    (hknown : (∃ q, c.remotePublic = some (cr.ecdhPublic q)) →
      Known c.mRecvMacKey c.mRecvMacSeq msg) :
    Inv cr Known Certified
      (recvEssaMessage cr env msg { c with mRecvMacSeq := c.mRecvMacSeq + 1 }) := by
  have hstate : c.mState ≠ .CLOSING := by
    intro hs
    simp [shouldAbort, hs] at hopen
  have hs : c.mState ≠ .CONNECTING := by
    intro hs
    rw [hs] at hpast
    cases hpast
  cases happ : !c.isAuthenticated && msg.isApp with
  | true =>
    have hopen' : shouldAbort env { c with mRecvMacSeq := c.mRecvMacSeq + 1 } = false := hopen
    have happ' : (!isAuthenticated { c with mRecvMacSeq := c.mRecvMacSeq + 1 } &&
        msg.isApp) = true := happ
    rw [recvEssaMessage, hopen', happ']
    exact h.drop_counted hopen _
  | false =>
    refine Inv.dispatch env msg ⟨?_, ?_⟩ hs hcert hopen happ
    · refine forall_mem_append.mpr ⟨h.handshake, ?_⟩
      intro x hx hm
      rw [mem_singleton.mp hx] at hm ⊢
      simpa [show msg.isApp = true from hm, isAuthenticated] using happ
    · rcases h.phase with hf | ⟨pub, hk⟩
      · cases hst : c.mState <;> simp_all [PeerState.pastHello, PeerState.toNat, hf.state]
      · refine .inr ⟨pub, hk.accept hstate herror ?_⟩
        rintro ⟨q, rfl⟩
        exact hknown ⟨q, hk.remote⟩

/-- `recvMessage`, when certificates and MACs are not forged -/
theorem Inv.recvMessage [DecidableEq Mac] (h : Inv cr Known Certified c)
    (hs : c.mState ≠ .CONNECTING) (env : PeerEnv Body) (am : AuthenticatedMessage Body Mac)
    (hcert : Vouched cr Certified env am.message)
    (hmac : (∃ q, c.remotePublic = some (cr.ecdhPublic q)) →
      am.mac = cr.hmacSha256 c.mRecvMacKey am.sequence am.message →
      Known c.mRecvMacKey am.sequence am.message) :
    Inv cr Known Certified (c.recvMessage cr env am) := by
  unfold Peer.recvMessage
  split
  · exact h
  · rename_i hopen
    have hopen : c.shouldAbort env = false := by simpa using hopen
    split
    · rename_i hpast
      obtain ⟨hpast, herror⟩ : c.mState.pastHello = true ∧ am.message.isError = false := by
        simpa using hpast
      split
      · exact h.dropWithError_counted hopen _ _ _
      · rename_i hseq
        split
        · exact h.dropWithError_counted hopen _ _ _
        · rename_i hverify
          have hseq : am.sequence = c.mRecvMacSeq := by simpa using hseq
          refine h.recvChecked env hopen hpast herror hcert fun hq => ?_
          exact hseq ▸ hmac hq (by simpa using hverify)
    · rename_i hskip
      exact h.recvPlain env hs hopen (Bool.eq_false_iff.mpr hskip) hcert

end Peer

end EssaCore.Overlay
