import Mathlib

/-!
# Flooding (`overlay/Floodgate.cpp`)

`Floodgate` remembers, under the hash of a message, the addresses of the peers that have sent it
or have been sent it.

- `addRecord`, `broadcast`, `clearBelow` — as the code has them;
- `run_told` — what a call adds to the addresses;
- `broadcast_forced` — whom a forced broadcast reaches;
- `flooded_once` — a message goes to a peer once, and not back.
-/

namespace EssaCore.Overlay

/-- `Floodgate::FloodRecord` -/
structure FloodRecord (Message : Type) where
  mLedgerSeq : UInt32
  mMessage : Message
  mPeersTold : Finset String

structure Floodgate (Hash Message : Type) where
  mFloodMap : Hash → Option (FloodRecord Message)
  mShuttingDown : Bool

namespace Floodgate

variable {Hash Message Peer : Type} [DecidableEq Hash]

/-- The constructor -/
def new : Floodgate Hash Message := ⟨fun _ => none, false⟩

/-- A record is stored. -/
def put (g : Floodgate Hash Message) (i : Hash) (r : FloodRecord Message) :
    Floodgate Hash Message :=
  { g with mFloodMap := Function.update g.mFloodMap i (some r) }

/-- `Floodgate::clearBelow` -/
def clearBelow (currentLedger : UInt32) (g : Floodgate Hash Message) : Floodgate Hash Message :=
  { g with mFloodMap := fun i =>
      (g.mFloodMap i).filter fun r => !(r.mLedgerSeq + 10 < currentLedger) }

-- the hash of a message's XDR, and the address of a peer
variable (index : Message → Hash) (toString : Peer → String)

/-- `Floodgate::addRecord`; the result says whether the record is new. -/
def addRecord (msg : Message) (peer : Peer) (currentLedgerSeq : UInt32)
    (g : Floodgate Hash Message) : Bool × Floodgate Hash Message :=
  if g.mShuttingDown then (false, g)
  else match g.mFloodMap (index msg) with
    | none => (true, g.put (index msg) ⟨currentLedgerSeq, msg, {toString peer}⟩)
    | some r =>
      (false, g.put (index msg) { r with mPeersTold := insert (toString peer) r.mPeersTold })

/-- The loop of `broadcast`: the peers that are sent the message, and the addresses told -/
def tell : List Peer → Finset String → List Peer × Finset String
  | [], peersTold => ([], peersTold)
  | peer :: peers, peersTold =>
    if toString peer ∈ peersTold then tell peers peersTold
    else
      let r := tell peers (insert (toString peer) peersTold)
      (peer :: r.1, r.2)

/-- `Floodgate::broadcast`, and whom it sends the message to -/
def broadcast (msg : Message) (force : Bool) (currentLedgerSeq : UInt32) (peers : List Peer)
    (g : Floodgate Hash Message) : List Peer × Floodgate Hash Message :=
  if g.mShuttingDown then ([], g)
  else
    let result : FloodRecord Message := match g.mFloodMap (index msg), force with
      | none, _ => ⟨currentLedgerSeq, msg, ∅⟩
      | some r, true => r -- `insert` keeps the record that is there
      | some r, false => r
    let r := tell toString peers result.mPeersTold
    (r.1, g.put (index msg) { result with mPeersTold := r.2 })

/-- The calls, with the ledger and the authenticated peers at that time -/
inductive Call (Message Peer : Type) where
  | addRecord (msg : Message) (peer : Peer) (currentLedgerSeq : UInt32)
  | broadcast (msg : Message) (force : Bool) (currentLedgerSeq : UInt32) (peers : List Peer)
  | clearBelow (currentLedger : UInt32)

/-- A message is sent to a peer, or else delivered by it. -/
structure Flow (Message Peer : Type) where
  sent : Bool
  msg : Message
  peer : Peer

/-- What a call does with messages, and the state it leaves -/
def Call.run (g : Floodgate Hash Message) :
    Call Message Peer → List (Flow Message Peer) × Floodgate Hash Message
  | .addRecord msg peer seq => ([⟨false, msg, peer⟩], (g.addRecord index toString msg peer seq).2)
  | .broadcast msg force seq peers =>
    let r := g.broadcast index toString msg force seq peers
    (r.1.map fun peer => ⟨true, msg, peer⟩, r.2)
  | .clearBelow seq => ([], g.clearBelow seq)

/-! ## The addresses -/

/-- The addresses that are recorded for a message -/
def told (g : Floodgate Hash Message) (msg : Message) : Finset String :=
  ((g.mFloodMap (index msg)).map (·.mPeersTold)).getD ∅

variable {g : Floodgate Hash Message} {msg : Message} {log : List (Flow Message Peer)}

@[simp] theorem told_put (i : Hash) (r : FloodRecord Message) :
    (g.put i r).told index msg = if index msg = i then r.mPeersTold else g.told index msg := by
  unfold told put
  by_cases h : index msg = i <;> simp [h]

theorem tell_spec (peers : List Peer) (peersTold : Finset String) :
    (∀ s, s ∈ (tell toString peers peersTold).2 ↔
      s ∈ peersTold ∨ ∃ p ∈ (tell toString peers peersTold).1, toString p = s) ∧
    (∀ p ∈ (tell toString peers peersTold).1, toString p ∉ peersTold) ∧
    (tell toString peers peersTold).1.Pairwise (fun p q => toString p ≠ toString q) ∧
    ∀ p ∈ peers, toString p ∈ (tell toString peers peersTold).2 := by
  induction peers generalizing peersTold with
  | nil => simp [tell]
  | cons p peers ih =>
    rw [tell]
    split
    · have := ih peersTold
      grind
    · obtain ⟨-, _, hpair, _⟩ := ih (insert (toString p) peersTold)
      refine ⟨by grind, by grind, List.pairwise_cons.mpr ⟨by grind, hpair⟩, by grind⟩

theorem tell_subset {peers : List Peer} {peersTold : Finset String} {p : Peer}
    (hp : p ∈ (tell toString peers peersTold).1) : p ∈ peers := by
  induction peers generalizing peersTold with
  | nil => exact hp
  | cons q peers ih =>
    rw [tell] at hp
    split at hp
    · exact .tail _ (ih hp)
    · rcases List.mem_cons.mp hp with rfl | hp
      · exact .head _
      · exact .tail _ (ih hp)

theorem broadcast_eq (msg : Message) (force : Bool) (seq : UInt32) (peers : List Peer)
    (hg : g.mShuttingDown = false) : ∃ r : FloodRecord Message,
      g.broadcast index toString msg force seq peers =
        ((tell toString peers (g.told index msg)).1, g.put (index msg)
          { r with mPeersTold := (tell toString peers (g.told index msg)).2 }) := by
  simp only [broadcast.eq_def, hg, told, Bool.false_eq_true]
  cases g.mFloodMap (index msg) with
  | none => exact ⟨_, rfl⟩
  | some r => cases force <;> exact ⟨r, rfl⟩

theorem addRecord_eq (msg : Message) (peer : Peer) (seq : UInt32) (hg : g.mShuttingDown = false) :
    ∃ r : FloodRecord Message, (g.addRecord index toString msg peer seq).2 = g.put (index msg)
      { r with mPeersTold := insert (toString peer) (g.told index msg) } := by
  simp only [addRecord.eq_def, hg, told, Bool.false_eq_true]
  cases g.mFloodMap (index msg) with
  | none => exact ⟨⟨seq, msg, ∅⟩, rfl⟩
  | some r => exact ⟨r, rfl⟩

/-- **Forced broadcasts**: a forced broadcast reaches all peers if and only if none of them is in
the record that is stored and no two of them share an address. `force` makes no difference. -/
theorem broadcast_forced (seq : UInt32) (peers : List Peer) (hg : g.mShuttingDown = false) :
    (∀ p ∈ peers, p ∈ (g.broadcast index toString msg true seq peers).1) ↔
      (∀ p ∈ peers, toString p ∉ g.told index msg) ∧ Set.InjOn toString {p | p ∈ peers} := by
  obtain ⟨r, hr⟩ := broadcast_eq index toString msg true seq peers hg
  obtain ⟨hmem, hnew, hpair, hall⟩ := tell_spec toString peers (g.told index msg)
  rw [hr]
  constructor
  · intro hsent
    refine ⟨fun p hp => hnew p (hsent p hp), fun p hp q hq heq => ?_⟩
    by_contra hne
    have : Std.Symm fun p q => toString p ≠ toString q := ⟨fun _ _ h => h.symm⟩
    exact hpair.forall (hsent p hp) (hsent q hq) hne heq
  · rintro ⟨hfresh, hinj⟩ p hp
    -- the address of `p` is told in the end, so it is that of a peer that was sent the message
    obtain ⟨q, hq, heq⟩ := ((hmem _).mp (hall p hp)).resolve_left (hfresh p hp)
    exact hinj (tell_subset toString hq) hp heq ▸ hq

/-- The addresses of three peers -/
def addresses : Fin 3 → String
  | 0 => "10.0.0.1:11625"
  | 1 => "10.0.0.2:11625"
  | 2 => "10.0.0.3:11625"

theorem addresses_injective : Function.Injective addresses := by
  unfold Function.Injective
  decide

/-- The first forced broadcast of a message, after another one was delivered and passed on -/
theorem broadcast_forced_first : 2 ∈
    ((((new : Floodgate Nat Nat).addRecord id addresses 7 0 1).2.broadcast id addresses 7 false 1
      [0, 1, 2]).2.broadcast id addresses 0 true 2 [0, 1, 2]).1 :=
  (broadcast_forced id addresses 2 [0, 1, 2] rfl).mpr
    ⟨by decide, addresses_injective.injOn⟩ 2 (by decide)

/-- The second forced broadcast of a message reaches nobody. -/
theorem broadcast_forced_again :
    (((new : Floodgate Nat Nat).broadcast id addresses 0 true 1 [0, 1]).2.broadcast id
      addresses 0 true 2 [0, 1]).1 = [] := by
  decide

/-! ## Once and not back -/

/-- The histories since a message had no record, as long as its record is not dropped, with what
has happened to messages -/
inductive Between (msg : Message) : Floodgate Hash Message → List (Flow Message Peer) → Prop
  | start {g : Floodgate Hash Message} (hg : g.mShuttingDown = false)
      (hnew : g.mFloodMap (index msg) = none) : Between msg g []
  | call {g : Floodgate Hash Message} {log : List (Flow Message Peer)} (h : Between msg g log)
      (c : Call Message Peer) (hkept : ∀ seq, c = .clearBelow seq →
        (g.clearBelow seq).mFloodMap (index msg) = g.mFloodMap (index msg)) :
      Between msg (c.run index toString g).2 (log ++ (c.run index toString g).1)

theorem run_told (hindex : Function.Injective index) (c : Call Message Peer)
    (hg : g.mShuttingDown = false) (hkept : ∀ seq, c = .clearBelow seq →
      (g.clearBelow seq).mFloodMap (index msg) = g.mFloodMap (index msg)) :
    (c.run index toString g).2.mShuttingDown = false ∧
    (∀ s, s ∈ (c.run index toString g).2.told index msg ↔ s ∈ g.told index msg ∨
      ∃ f ∈ (c.run index toString g).1, f.msg = msg ∧ toString f.peer = s) ∧
    (∀ f ∈ (c.run index toString g).1, f.sent → f.msg = msg →
      toString f.peer ∉ g.told index msg) ∧
    (c.run index toString g).1.Pairwise fun a b => b.sent → a.peer ≠ b.peer := by
  cases c with
  | addRecord m peer seq =>
    obtain ⟨r, hr⟩ := addRecord_eq index toString m peer seq hg
    simp only [Call.run, hr]
    refine ⟨hg, fun s => ?_, by simp, by simp⟩
    rw [told_put]
    by_cases hm : msg = m
    · simp [hm, or_comm, eq_comm]
    · simp [hindex.ne hm, Ne.symm hm]
  | broadcast m force seq peers =>
    obtain ⟨r, hr⟩ := broadcast_eq index toString m force seq peers hg
    obtain ⟨hmem, hnew, hpair, -⟩ := tell_spec toString peers (g.told index m)
    simp only [Call.run, hr]
    refine ⟨hg, fun s => ?_, ?_, ?_⟩
    · rw [told_put]
      by_cases hm : msg = m
      · simp [hm, hmem]
      · simp [hindex.ne hm, Ne.symm hm]
    · simp only [List.forall_mem_map]
      rintro p hp - rfl
      exact hnew p hp
    · exact List.pairwise_map.mpr (hpair.imp fun h _ heq => h (congrArg toString heq))
  | clearBelow seq =>
    have hsame : (g.clearBelow seq).told index msg = g.told index msg := by
      rw [told, hkept seq rfl, told]
    simp [Call.run, hsame, show (g.clearBelow seq).mShuttingDown = false from hg]

theorem Between.told_iff (hindex : Function.Injective index)
    (h : Between index toString msg g log) : g.mShuttingDown = false ∧
      ∀ s, s ∈ g.told index msg ↔ ∃ f ∈ log, f.msg = msg ∧ toString f.peer = s := by
  induction h with
  | start hg hnew => simp [hg, told, hnew]
  | call h c hkept ih =>
    obtain ⟨hdown, htold, -⟩ := run_told index toString hindex c ih.1 hkept
    refine ⟨hdown, fun s => ?_⟩
    rw [htold, ih.2]
    simp only [List.mem_append, or_and_right, exists_or]

/-- **Once, and not back**: a message is never sent to a peer that has delivered it or has been
sent it; and if peers have different addresses, then after each broadcast every authenticated
peer has delivered it or has been sent it. -/
theorem flooded_once (hindex : Function.Injective index) (hpeers : Function.Injective toString)
    (h : Between index toString msg g log) :
    (log.Pairwise fun a b => b.sent → a.msg = msg → b.msg = msg → a.peer ≠ b.peer) ∧
    ∀ force seq peers, ∀ p ∈ peers,
      ∃ f ∈ log ++ ((Call.broadcast msg force seq peers).run index toString g).1,
        f.msg = msg ∧ f.peer = p := by
  constructor
  · induction h with
    | start => exact .nil
    | call h c hkept ih =>
      obtain ⟨hg, htold⟩ := h.told_iff index toString hindex
      obtain ⟨-, -, hnew, hpair⟩ := run_told index toString hindex c hg hkept
      refine List.pairwise_append.mpr ⟨ih, hpair.imp fun h hb _ _ => h hb, ?_⟩
      intro a ha b hb hsent hamsg hbmsg heq
      exact hnew b hb hsent hbmsg ((htold _).mpr ⟨a, ha, hamsg, congrArg toString heq⟩)
  · intro force seq peers p hp
    have hcall := h.call (.broadcast msg force seq peers) nofun
    obtain ⟨r, hr⟩ := broadcast_eq index toString msg force seq peers
      (h.told_iff index toString hindex).1
    have hin : toString p ∈ ((Call.broadcast msg force seq peers).run index toString g).2.told
        index msg := by
      simp [Call.run, hr, (tell_spec toString peers (g.told index msg)).2.2.2 p hp]
    obtain ⟨f, hf, hmsg, heq⟩ := ((hcall.told_iff index toString hindex).2 _).mp hin
    exact ⟨f, hf, hmsg, hpeers heq⟩

/-- Peer 0 delivers a message, and it is broadcast to peers 0 and 1. -/
def passedOn : Floodgate Nat Nat :=
  ((new.addRecord id addresses 0 0 1).2.broadcast id addresses 0 false 1 [0, 1]).2

theorem passedOn_between : Between id addresses 0 passedOn [⟨false, 0, 0⟩, ⟨true, 0, 1⟩] :=
  ((Between.start (g := new) rfl rfl).call (.addRecord 0 0 1) (by simp)).call
    (.broadcast 0 false 1 [0, 1]) (by simp)

/-- Of the two only peer 1 is sent the message, and a later broadcast to three peers leaves none
without it. -/
theorem flooded_once_third : ∃ f ∈ [⟨false, 0, 0⟩, ⟨true, 0, 1⟩] ++
    ((Call.broadcast 0 false 2 [0, 1, 2]).run id addresses passedOn).1, f.msg = 0 ∧ f.peer = 2 :=
  (flooded_once id addresses Function.injective_id addresses_injective passedOn_between).2
    false 2 [0, 1, 2] 2 (by decide)

/-- Of two authenticated peers with one address, one is neither sent the message nor has
delivered it. -/
theorem flooded_once_shared :
    Between id (fun _ => "10.0.0.1:11625") 0 (new : Floodgate Nat Nat) ([] : List (Flow Nat Bool)) ∧
    ((new : Floodgate Nat Nat).broadcast id (fun _ => "10.0.0.1:11625") 0 false 1
      [true, false]).1 = [true] :=
  ⟨.start rfl rfl, by decide⟩

end Floodgate

end EssaCore.Overlay
