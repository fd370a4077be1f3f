import EssaCore.Overlay.AuthenticatedChannel

/-!
# Closing connections (`overlay/TCPPeer.cpp`, `overlay/OverlayManagerImpl.cpp`)

- `closing_absorbing` — a peer that is `CLOSING` stays so, as long as its connecting does not
  succeed afterwards;
- `shutdown_closes_iff` — what `OverlayManagerImpl::shutdown` closes.
-/

namespace EssaCore.Overlay

open Ledger

variable {Party Key Mac Body : Type} (cr : PeerCrypto Party Key Mac Body)

namespace Peer

/-- The completions that reach a peer, and the calls of other parts of the program. Errors of
reading and of writing, and timers, end in `drop`. -/
inductive Completion (Mac Body : Type) where
  | connect (error : Bool)
  | read (am : AuthenticatedMessage Body Mac)
  | drop
  | dropWithError (err : ErrorCode) (msg : String)
  | sendMessage (msg : EssaBlockChainMessage Body)

def Completion.run [DecidableEq Mac] (env : PeerEnv Body) (c : Peer Party Key Mac Body) :
    Completion Mac Body → Peer Party Key Mac Body
  | .connect error => if c.connectPending then c.connectHandler cr env error else c
  | .read am => c.recvMessage cr env am
  | .drop => c.drop env
  | .dropWithError err msg => c.dropWithError cr env err msg
  | .sendMessage msg => c.sendMessage cr msg

/-- A peer is closed after what has happened to it, and has done nothing. -/
structure StaysClosed (c c' : Peer Party Key Mac Body) : Prop where
  mState : c'.mState = .CLOSING
  out : c'.out = c.out
  processed : c'.processed = c.processed
  connected : c.connectPending = false → c'.connectPending = false

variable {c : Peer Party Key Mac Body}

variable (hs : c.mState = .CLOSING)

include hs

theorem StaysClosed.refl : StaysClosed c c := ⟨hs, rfl, rfl, id⟩

theorem sendMessage_closed (msg : EssaBlockChainMessage Body) :
    StaysClosed c (c.sendMessage cr msg) := by
  simp only [sendMessage, write, hs, if_true]
  split
  · exact ⟨rfl, rfl, rfl, id⟩
  · exact .refl hs

theorem drop_closed (env : PeerEnv Body) : c.drop env = c := by
  simp [drop, shouldAbort, hs]

theorem run_closed [DecidableEq Mac] (env : PeerEnv Body)
    (e : Completion Mac Body) (he : e = .connect false → c.connectPending = false) :
    StaysClosed c (e.run cr env c) := by
  cases e with
  | connect error =>
    rw [Completion.run]
    split
    · cases error with
      | true =>
        rw [connectHandler, if_pos rfl, drop_closed (c := { c with connectPending := false }) hs]
        exact ⟨hs, rfl, rfl, fun _ => rfl⟩
      | false => simp_all
    · exact .refl hs
  | read am =>
    rw [Completion.run, recvMessage, if_pos (by simp [shouldAbort, hs])]
    exact .refl hs
  | drop =>
    rw [Completion.run, drop_closed hs]
    exact .refl hs
  | dropWithError err msg =>
    have hsent := sendMessage_closed cr hs (.ERROR_MSG err msg)
    rw [Completion.run, dropWithError, drop_closed hsent.mState]
    exact hsent
  | sendMessage msg => exact sendMessage_closed cr hs msg

omit hs

/-- **`CLOSING` is absorbing**, unless connecting succeeds after the peer was closed. -/
theorem closing_absorbing [DecidableEq Mac] (events : List (PeerEnv Body × Completion Mac Body))
    (hs : c.mState = .CLOSING)
    (hconnect : ∀ e ∈ events, e.2 = .connect false → c.connectPending = false) :
    StaysClosed c (events.foldl (fun c e => e.2.run cr e.1 c) c) := by
  induction events generalizing c with
  | nil => exact .refl hs
  | cons e events ih =>
    have hstep := run_closed cr hs e.1 e.2 (hconnect e List.mem_cons_self)
    have hrest := ih hstep.mState fun f hf h =>
      hstep.connected (hconnect f (List.mem_cons_of_mem _ hf) h)
    exact ⟨hrest.mState, hrest.out.trans hstep.out, hrest.processed.trans hstep.processed,
      hrest.connected ∘ hstep.connected⟩

/-- A peer that waits for its connection -/
def connecting : symbolic.Conn := new symbolic false .WE_CALLED_REMOTE 10

/-- It is dropped, and connecting fails. -/
theorem closing_absorbing_failed : (connecting.drop symbolic.env).mState = .CLOSING ∧
    StaysClosed (connecting.drop symbolic.env) ([(symbolic.env, .connect true)].foldl
      (fun c e => Completion.run symbolic e.1 c e.2) (connecting.drop symbolic.env)) :=
  ⟨rfl, closing_absorbing symbolic [(symbolic.env, .connect true)] rfl (by simp)⟩

/-- It is dropped, and connecting succeeds: it is connected and sends its HELLO. -/
theorem closing_absorbing_connected : (connecting.drop symbolic.env).mState = .CLOSING ∧
    (Completion.run symbolic symbolic.env (connecting.drop symbolic.env)
      (.connect false)).mState = .CONNECTED ∧
    ∃ am ∈ (Completion.run symbolic symbolic.env (connecting.drop symbolic.env)
      (.connect false)).out, am.message.isHello = true :=
  ⟨rfl, rfl, _, List.mem_cons_self, rfl⟩

end Peer

/-! ## The lists of peers -/

/-- `OverlayManagerImpl::PeersList`; peers are numbered. -/
structure PeersList where
  mPending : List Nat
  mAuthenticated : List (NodeID × Nat)

/-- `PeersList::removePeer` -/
def PeersList.removePeer (peer : Nat) (peerID : NodeID) (l : PeersList) : PeersList :=
  if peer ∈ l.mPending then { l with mPending := l.mPending.erase peer }
  else { l with mAuthenticated := l.mAuthenticated.filter (·.1 ≠ peerID) }

/-- `OverlayManagerImpl`, with the peers; the role of a peer says which list it belongs to. -/
structure OverlayManager (Party Key Mac Body : Type) where
  peers : Nat → Peer Party Key Mac Body
  getPeersList : PeerRole → PeersList
  mShuttingDown : Bool

namespace OverlayManager

/-- `OverlayManagerImpl::removePeer` -/
def removePeer (peer : Nat) (m : OverlayManager Party Key Mac Body) :
    OverlayManager Party Key Mac Body :=
  let role := (m.peers peer).mRole
  let l := (m.getPeersList role).removePeer peer (m.peers peer).mPeerID
  { m with getPeersList := Function.update m.getPeersList role l }

/-- `Peer::drop` with an error, and what `TCPPeer::drop` does to the lists -/
def drop (env : PeerEnv Body) (err : ErrorCode) (msg : String)
    (m : OverlayManager Party Key Mac Body) (peer : Nat) : OverlayManager Party Key Mac Body :=
  let env := { env with isShuttingDown := m.mShuttingDown }
  let p := (m.peers peer).dropWithError cr env err msg
  let dropped := { m with peers := Function.update m.peers peer p }
  if (m.peers peer).shouldAbort env then dropped else dropped.removePeer peer

/-- `PeersList::shutdown` -/
def shutdownPeers (env : PeerEnv Body) (role : PeerRole)
    (m : OverlayManager Party Key Mac Body) : OverlayManager Party Key Mac Body :=
  let m := (m.getPeersList role).mPending.foldl (drop cr env .ERR_MISC "peer shutdown") m
  ((m.getPeersList role).mAuthenticated.map (·.2)).foldl
    (drop cr env .ERR_MISC "peer shutdown") m

/-- `OverlayManagerImpl::shutdown` -/
def shutdown (env : PeerEnv Body) (m : OverlayManager Party Key Mac Body) :
    OverlayManager Party Key Mac Body :=
  if m.mShuttingDown then m
  else shutdownPeers cr env .WE_CALLED_REMOTE
    (shutdownPeers cr env .REMOTE_CALLED_US { m with mShuttingDown := true })

/-- The peers of a list -/
def listed (m : OverlayManager Party Key Mac Body) (role : PeerRole) : List Nat :=
  (m.getPeersList role).mPending ++ (m.getPeersList role).mAuthenticated.map (·.2)

variable {m : OverlayManager Party Key Mac Body}

/-- Once the flag is set, `drop` leaves the lists alone. -/
theorem foldl_drop_shuttingDown (hm : m.mShuttingDown = true) (env : PeerEnv Body)
    (err : ErrorCode) (msg : String) (is : List Nat) :
    (is.foldl (drop cr env err msg) m).mShuttingDown = true ∧
    (is.foldl (drop cr env err msg) m).getPeersList = m.getPeersList := by
  induction is generalizing m with
  | nil => exact ⟨hm, rfl⟩
  | cons i is ih =>
    have hstep : (drop cr env err msg m i).mShuttingDown = true ∧
        (drop cr env err msg m i).getPeersList = m.getPeersList := by
      simp [drop, Peer.shouldAbort, hm]
    rw [List.foldl_cons, ← hstep.2]
    exact ih hstep.1

theorem shutdownPeers_shuttingDown (hm : m.mShuttingDown = true) (env : PeerEnv Body)
    (role : PeerRole) : (shutdownPeers cr env role m).mShuttingDown = true ∧
      (shutdownPeers cr env role m).getPeersList = m.getPeersList := by
  obtain ⟨hdown, hlists⟩ := foldl_drop_shuttingDown cr hm env .ERR_MISC "peer shutdown"
    (m.getPeersList role).mPending
  rw [← hlists]
  exact foldl_drop_shuttingDown cr hdown env .ERR_MISC "peer shutdown" _

/-- **What shutdown closes**: `drop` does nothing once the flag is set, so peers are closed and
removed only if there are none. -/
theorem shutdown_closes_iff (hm : m.mShuttingDown = false) (env : PeerEnv Body) :
    (∀ role, (shutdown cr env m).listed role = [] ∧
      ∀ i ∈ m.listed role, ((shutdown cr env m).peers i).mState = .CLOSING) ↔
    ∀ role, m.listed role = [] := by
  have hinbound := shutdownPeers_shuttingDown cr
    (rfl : { m with mShuttingDown := true }.mShuttingDown = true) env .REMOTE_CALLED_US
  have hboth := shutdownPeers_shuttingDown cr hinbound.1 env .WE_CALLED_REMOTE
  have hlists (role : PeerRole) : (shutdown cr env m).listed role = m.listed role := by
    simp only [listed, shutdown, hm, Bool.false_eq_true, if_false, hboth.2, hinbound.2]
  simp only [hlists]
  exact ⟨fun h role => (h role).1, fun h role => ⟨h role, by simp [h role]⟩⟩

/-- A node without peers -/
theorem shutdown_closes_iff_empty : (shutdown symbolic symbolic.env
    ⟨fun _ => Peer.connecting, fun _ => ⟨[], []⟩, false⟩).listed .WE_CALLED_REMOTE = [] :=
  ((shutdown_closes_iff symbolic rfl symbolic.env).mpr (fun _ => rfl) _).1

/-- A node with one pending peer, which stays as it is -/
theorem shutdown_closes_nothing : (shutdown symbolic symbolic.env
      ⟨fun _ => Peer.connecting, fun _ => ⟨[0], []⟩, false⟩).listed .WE_CALLED_REMOTE = [0] ∧
    ((shutdown symbolic symbolic.env
      ⟨fun _ => Peer.connecting, fun _ => ⟨[0], []⟩, false⟩).peers 0).mState = .CONNECTING :=
  ⟨rfl, rfl⟩

end OverlayManager

end EssaCore.Overlay
