import EssaCore.Ledger.Entries

/-!
# Upgrades

`herder/Upgrades.cpp`: a node proposes upgrades of the ledger header, and checks those of others;
`herder/HerderSCPDriver.cpp` 315–409: a value has to have its upgrade steps in the order of their
types. Proposals are compared with the header only for inequality, and the steps that are
extracted from a value are not ordered again, so a node may reject what it proposes
(`createUpgradesFor_downgrade`) and what it extracts (`extractValidValue_unordered`).

- `createUpgradesFor_valid`, `extractValidValue_valid` — when it accepts them.
-/

open List

namespace EssaCore.Herder

/-! ## Proposing and checking upgrades -/

/-- `LedgerUpgradeType`, in the order of its numbers; an upgrade of another type does not parse. -/
inductive LedgerUpgradeType where
  | LEDGER_UPGRADE_VERSION
  | LEDGER_UPGRADE_BASE_FEE
  | LEDGER_UPGRADE_MAX_TX_SET_SIZE
  | LEDGER_UPGRADE_BASE_RESERVE
  deriving DecidableEq

/-- `LedgerUpgrade`, with the value of its arm -/
structure LedgerUpgrade where
  type : LedgerUpgradeType
  value : Nat
  deriving DecidableEq

structure LedgerHeader extends Ledger.LedgerHeader where
  maxTxSetSize : Nat

structure UpgradeParameters where
  mUpgradeTime : Nat
  mProtocolVersion : Option Nat
  mBaseFee : Option Nat
  mMaxTxSize : Option Nat
  mBaseReserve : Option Nat

/-- `xdr_to_opaque` and `xdr_from_opaque` at a type -/
structure Xdr (Opaque α : Type) where
  toOpaque : α → Opaque
  fromOpaque : Opaque → Option α
  fromOpaque_toOpaque : ∀ a, fromOpaque (toOpaque a) = some a

/-- A node, with its configuration and the state that values are checked against -/
structure Node (Opaque : Type) where
  xdr : Xdr Opaque LedgerUpgrade
  mParams : UpgradeParameters
  LEDGER_PROTOCOL_VERSION : Nat
  lcl : LedgerHeader

/-- `Upgrades::setParameters` (78–90) -/
def setParameters (params : UpgradeParameters) (supported : Nat) :
    Except String UpgradeParameters :=
  match params.mProtocolVersion with
  | some version =>
    if version > supported then
      throw s!"Protocol version error: supported is up to {supported}, passed is {version}"
    else pure params
  | none => pure params

namespace Node

variable {Opaque : Type} (node : Node Opaque)

def timeForUpgrade : Bool := node.mParams.mUpgradeTime ≤ node.lcl.closeTime

/-- One of the four steps of `createUpgradesFor` -/
def stepFor (type : LedgerUpgradeType) (param : Option Nat) (current : Nat) :
    List LedgerUpgrade :=
  match param with
  | some value => if current ≠ value then [⟨type, value⟩] else []
  | none => []

/-- `createUpgradesFor` (98–129); a step has 8 bytes, and `triggerNextLedger` only leaves out steps
of 128 or more. -/
def createUpgradesFor : List LedgerUpgrade :=
  if node.timeForUpgrade = false then []
  else
    stepFor .LEDGER_UPGRADE_VERSION node.mParams.mProtocolVersion node.lcl.ledgerVersion ++
    stepFor .LEDGER_UPGRADE_BASE_FEE node.mParams.mBaseFee node.lcl.baseFee ++
    stepFor .LEDGER_UPGRADE_MAX_TX_SET_SIZE node.mParams.mMaxTxSize node.lcl.maxTxSetSize ++
    stepFor .LEDGER_UPGRADE_BASE_RESERVE node.mParams.mBaseReserve node.lcl.baseReserve

/-- `Upgrades::isValid` (248–324); the type of an upgrade that is valid -/
def isValid (nomination : Bool) (upgrade : Opaque) : Option LedgerUpgradeType :=
  if nomination && !node.timeForUpgrade then none
  else
    match node.xdr.fromOpaque upgrade with
    | none => none
    | some lupgrade =>
      let wanted (param : Option Nat) : Bool := !nomination || param = some lupgrade.value
      let res := match lupgrade.type with
        | .LEDGER_UPGRADE_VERSION => wanted node.mParams.mProtocolVersion &&
          lupgrade.value ≤ node.LEDGER_PROTOCOL_VERSION && lupgrade.value > node.lcl.ledgerVersion
        | .LEDGER_UPGRADE_BASE_FEE => wanted node.mParams.mBaseFee && lupgrade.value ≠ 0
        | .LEDGER_UPGRADE_MAX_TX_SET_SIZE => wanted node.mParams.mMaxTxSize && lupgrade.value ≠ 0
        | .LEDGER_UPGRADE_BASE_RESERVE => wanted node.mParams.mBaseReserve && lupgrade.value ≠ 0
      if res then some lupgrade.type else none

/-- The loop of `validateValue` (331–358), with `lastUpgradeType` after the first step -/
def stepsValid (nomination : Bool) : List Opaque → Option LedgerUpgradeType → Bool
  | [], _ => true
  | upgrade :: upgrades, lastUpgradeType =>
    match node.isValid nomination upgrade with
    | none => false
    | some thisUpgradeType =>
      lastUpgradeType.all (·.ctorIdx < thisUpgradeType.ctorIdx) &&
        stepsValid nomination upgrades (some thisUpgradeType)

/-- Types that increase strictly -/
def Increasing (types : List LedgerUpgradeType) : Prop :=
  types.Pairwise fun s t => s.ctorIdx < t.ctorIdx

variable {node}

/-- The loop accepts valid steps in the order of their types, and nothing else. -/
theorem stepsValid_iff_of_last {nomination : Bool} {upgrades : List Opaque}
    {last : Option LedgerUpgradeType} : node.stepsValid nomination upgrades last = true ↔
      (∀ u ∈ upgrades, (node.isValid nomination u).isSome = true) ∧
        (last.toList ++ upgrades.filterMap (node.isValid nomination)).IsChain
          fun s t => s.ctorIdx < t.ctorIdx := by
  induction upgrades generalizing last with
  | nil => cases last <;> simp [stepsValid]
  | cons u upgrades ih =>
    unfold stepsValid
    cases htype : node.isValid nomination u with
    | none => simp [htype]
    | some type => cases last <;> simp [ih, htype, filterMap_cons_some htype, and_left_comm]

theorem stepsValid_iff {nomination : Bool} {upgrades : List Opaque} :
    node.stepsValid nomination upgrades none = true ↔
      (∀ u ∈ upgrades, (node.isValid nomination u).isSome = true) ∧
        Increasing (upgrades.filterMap (node.isValid nomination)) := by
  have : IsTrans LedgerUpgradeType fun s t => s.ctorIdx < t.ctorIdx :=
    ⟨fun _ _ _ => Nat.lt_trans⟩
  rw [stepsValid_iff_of_last, isChain_iff_pairwise]
  rfl

/-! ## Proposals -/

theorem mem_stepFor {type : LedgerUpgradeType} {param : Option Nat} {current : Nat}
    {u : LedgerUpgrade} : u ∈ stepFor type param current ↔
      param = some u.value ∧ current ≠ u.value ∧ u.type = type := by
  unfold stepFor
  split
  · split
    · rw [mem_singleton]
      constructor
      · rintro rfl
        exact ⟨rfl, ‹_›, rfl⟩
      · rintro ⟨h, -, rfl⟩
        rw [Option.some.inj h]
    · simp_all
  · simp

theorem stepFor_types (type : LedgerUpgradeType) (param : Option Nat) (current : Nat) :
    ((stepFor type param current).map (·.type)).Sublist [type] := by
  unfold stepFor
  split
  · split <;> simp
  · simp

theorem createUpgradesFor_increasing : Increasing (node.createUpgradesFor.map (·.type)) := by
  unfold createUpgradesFor
  split
  · exact .nil
  · simp only [map_append]
    refine Pairwise.sublist ((((stepFor_types _ _ _).append (stepFor_types _ _ _)).append
      (stepFor_types _ _ _)).append (stepFor_types _ _ _)) ?_
    decide

/-- A step for which a setting is wanted is proposed unless the header has that setting. -/
theorem forall_mem_stepFor {type : LedgerUpgradeType} {param : Option Nat} {current : Nat}
    {P : LedgerUpgrade → Prop} : (∀ u ∈ stepFor type param current, P u) ↔
      ∀ v ∈ param, current ≠ v → P ⟨type, v⟩ := by
  constructor
  · exact fun h v hv hne => h ⟨type, v⟩ (mem_stepFor.mpr ⟨hv, hne, rfl⟩)
  · rintro h ⟨_, v⟩ hu
    obtain ⟨hv, hne, rfl⟩ := mem_stepFor.mp hu
    exact h v hv hne

/-- It is too early for upgrades; or the version that is wanted is not below the ledger's, and a
setting that is wanted to be zero is zero already. -/
def ProposesValid (node : Node Opaque) : Prop :=
  node.timeForUpgrade = false ∨
    (∀ v ∈ node.mParams.mProtocolVersion, node.lcl.ledgerVersion ≤ v) ∧
    (node.mParams.mBaseFee = some 0 → node.lcl.baseFee = 0) ∧
    (node.mParams.mMaxTxSize = some 0 → node.lcl.maxTxSetSize = 0) ∧
    (node.mParams.mBaseReserve = some 0 → node.lcl.baseReserve = 0)

theorem forall_ne_zero_iff {param : Option Nat} {current : Nat} :
    (∀ v ∈ param, current ≠ v → param = some v ∧ v ≠ 0) ↔ (param = some 0 → current = 0) := by
  constructor
  · rintro h rfl
    by_contra hne
    exact (h 0 rfl hne).2 rfl
  · rintro h v hv hne
    refine ⟨hv, ?_⟩
    rintro rfl
    exact hne (h hv)

theorem steps_valid_iff
    (hsupported : ∀ v ∈ node.mParams.mProtocolVersion, v ≤ node.LEDGER_PROTOCOL_VERSION) :
    (∀ u ∈ node.createUpgradesFor, node.isValid true (node.xdr.toOpaque u) = some u.type) ↔
      node.ProposesValid := by
  unfold createUpgradesFor ProposesValid
  by_cases htime : node.timeForUpgrade = false
  · simp [htime]
  · have hvalid (u : LedgerUpgrade) : node.isValid true (node.xdr.toOpaque u) = some u.type ↔
        match u.type with
        | .LEDGER_UPGRADE_VERSION => node.mParams.mProtocolVersion = some u.value ∧
          u.value ≤ node.LEDGER_PROTOCOL_VERSION ∧ u.value > node.lcl.ledgerVersion
        | .LEDGER_UPGRADE_BASE_FEE => node.mParams.mBaseFee = some u.value ∧ u.value ≠ 0
        | .LEDGER_UPGRADE_MAX_TX_SET_SIZE => node.mParams.mMaxTxSize = some u.value ∧ u.value ≠ 0
        | .LEDGER_UPGRADE_BASE_RESERVE =>
          node.mParams.mBaseReserve = some u.value ∧ u.value ≠ 0 := by
      obtain ⟨type, value⟩ := u
      simp only [isValid, htime, node.xdr.fromOpaque_toOpaque]
      cases type <;> simp [and_assoc]
    rw [if_neg htime, or_iff_right htime]
    simp only [forall_mem_append, forall_mem_stepFor, hvalid, and_assoc]
    refine and_congr ?_ (and_congr ?_ (and_congr ?_ ?_))
    · refine forall₂_congr fun v hv => ?_
      have := hsupported v hv
      constructor
      · intro h
        by_contra hlt
        have := (h (by omega)).2
        omega
      · exact fun h hne => ⟨hv, by omega, by omega⟩
    all_goals exact forall_ne_zero_iff

/-- **Proposals**: a node accepts what it proposes, for all parameters that `setParameters` takes,
if and only if `ProposesValid` holds of these parameters and the header. -/
theorem createUpgradesFor_valid {params : UpgradeParameters}
    (hparams : setParameters params node.LEDGER_PROTOCOL_VERSION = .ok node.mParams) :
    (∀ u ∈ node.createUpgradesFor, node.isValid true (node.xdr.toOpaque u) = some u.type) ∧
    Increasing (node.createUpgradesFor.map (·.type)) ∧
    node.stepsValid true (node.createUpgradesFor.map node.xdr.toOpaque) none = true ↔
      node.ProposesValid := by
  have hsupported : ∀ v ∈ node.mParams.mProtocolVersion, v ≤ node.LEDGER_PROTOCOL_VERSION := by
    unfold setParameters at hparams
    split at hparams
    · split at hparams
      · cases hparams
      · cases hparams
        simp_all
    · cases hparams
      simp_all
  rw [← steps_valid_iff hsupported]
  refine ⟨And.left, fun hvalid => ⟨hvalid, createUpgradesFor_increasing, ?_⟩⟩
  rw [stepsValid_iff]
  have htypes : (node.createUpgradesFor.map node.xdr.toOpaque).filterMap (node.isValid true) =
      node.createUpgradesFor.map (·.type) := by
    rw [filterMap_map, ← filterMap_eq_map]
    exact filterMap_congr hvalid
  refine ⟨fun v hv => ?_, htypes ▸ createUpgradesFor_increasing⟩
  obtain ⟨u, hu, rfl⟩ := mem_map.mp hv
  rw [hvalid u hu]
  rfl

/-- Upgrades that are their own encoding -/
def plainNode (mParams : UpgradeParameters) : Node LedgerUpgrade where
  xdr := ⟨id, some, fun _ => rfl⟩
  mParams := mParams
  LEDGER_PROTOCOL_VERSION := 10
  lcl := ⟨⟨9, 5, 1, 0, 0, 0, 0, 100, 5⟩, 50⟩

theorem createUpgradesFor_valid_version :
    let node := plainNode ⟨0, some 10, some 100, none, some 7⟩
    node.createUpgradesFor.length = 2 ∧
      node.stepsValid true (node.createUpgradesFor.map node.xdr.toOpaque) none = true := by
  have h := (@createUpgradesFor_valid _ (plainNode ⟨0, some 10, some 100, none, some 7⟩)
    ⟨0, some 10, some 100, none, some 7⟩ rfl).mpr (.inr (by decide))
  exact ⟨by decide, h.2.2⟩

/-- The parameters are accepted, but version 8 is proposed to a ledger of version 9. -/
theorem createUpgradesFor_downgrade :
    let params : UpgradeParameters := ⟨0, some 8, none, none, none⟩
    let node := plainNode params
    setParameters params node.LEDGER_PROTOCOL_VERSION = .ok params ∧
      node.createUpgradesFor = [⟨.LEDGER_UPGRADE_VERSION, 8⟩] ∧
      node.isValid true ⟨.LEDGER_UPGRADE_VERSION, 8⟩ = none := by
  exact ⟨rfl, by decide, by decide⟩

end Node

/-! ## Values -/

/-- `EssaBlockChainValue`; its extension is empty -/
structure EssaBlockChainValue (Opaque : Type) where
  txSetHash : BitVec 256
  closeTime : Nat
  upgrades : List Opaque

/-- `SCPDriver::ValidationLevel` -/
inductive ValidationLevel where
  | kInvalidValue
  | kFullyValidatedValue
  | kMaybeValidValue
  deriving DecidableEq

/-- What the driver knows: `mTrackingSCP` as the index and the close time of the last consensus,
and for a transaction set in the cache whether it is valid -/
structure Driver (Opaque Value : Type) extends Node Opaque where
  values : Xdr Value (EssaBlockChainValue Opaque)
  isSynced : Bool
  mTrackingSCP : Option (Nat × Nat)
  timeNow : Nat
  txSetValid : BitVec 256 → Option Bool

namespace Driver

variable {Opaque Value : Type} (d : Driver Opaque Value) (slotIndex : Nat)

/-- `checkCloseTime` (150–172) -/
def checkCloseTime (lastCloseTime : Nat) (b : EssaBlockChainValue Opaque) : Bool :=
  lastCloseTime < b.closeTime && b.closeTime ≤ d.timeNow + 60

/-- The first check of the close time, on a slot that is not the next one (195–220) -/
def closeTimeBad (b : EssaBlockChainValue Opaque) : Bool :=
  if slotIndex = d.lcl.ledgerSeq then b.closeTime ≠ d.lcl.closeTime
  else if slotIndex < d.lcl.ledgerSeq then b.closeTime ≥ d.lcl.closeTime
  else !d.checkCloseTime d.lcl.closeTime b

/-- `validateValueHelper` (174–313) -/
def validateValueHelper (b : EssaBlockChainValue Opaque) : ValidationLevel :=
  if d.isSynced && slotIndex = d.lcl.ledgerSeq + 1 then
    if d.checkCloseTime d.lcl.closeTime b = false then .kInvalidValue
    else if d.txSetValid b.txSetHash = some true then .kFullyValidatedValue
    else .kInvalidValue
  else if d.closeTimeBad slotIndex b then .kInvalidValue
  else
    match d.mTrackingSCP with
    | none => .kMaybeValidValue
    | some (index, closeTime) =>
      if index + 1 > slotIndex then .kMaybeValidValue
      else if index + 1 < slotIndex then .kInvalidValue
      else if d.checkCloseTime closeTime b = false then .kInvalidValue
      else .kMaybeValidValue

/-- `validateValue` (315–371) -/
def validateValue (value : Value) (nomination : Bool) : ValidationLevel :=
  match d.values.fromOpaque value with
  | none => .kInvalidValue
  | some b =>
    let res := d.validateValueHelper slotIndex b
    if res ≠ .kInvalidValue ∧ d.stepsValid nomination b.upgrades none = false then .kInvalidValue
    else res

/-- `extractValidValue` (373–409); `none` for the empty value -/
def extractValidValue (value : Value) : Option Value :=
  match d.values.fromOpaque value with
  | none => none
  | some b =>
    if d.validateValueHelper slotIndex b = .kFullyValidatedValue then
      some (d.values.toOpaque { b with upgrades := b.upgrades.filter (d.isValid true · |>.isSome) })
    else none

variable {d slotIndex}

/-- **Extracted values**: a value is extracted to nothing or to one that the node validates if and
only if the helper does not find it fully valid or its valid steps have increasing types. -/
theorem extractValidValue_valid (v : Value) :
    (∀ w, d.extractValidValue slotIndex v = some w →
      d.validateValue slotIndex w true = .kFullyValidatedValue) ↔
    ∀ b, d.values.fromOpaque v = some b →
      d.validateValueHelper slotIndex b = .kFullyValidatedValue →
      Node.Increasing (b.upgrades.filterMap (d.isValid true)) := by
  unfold extractValidValue
  cases hb : d.values.fromOpaque v with
  | none => simp
  | some b =>
    by_cases hfull : d.validateValueHelper slotIndex b = .kFullyValidatedValue
    · have hsteps : d.stepsValid true (b.upgrades.filter (d.isValid true · |>.isSome)) none =
          true ↔ Node.Increasing (b.upgrades.filterMap (d.isValid true)) := by
        rw [Node.stepsValid_iff, filterMap_filter]
        refine (and_iff_right fun u hu => (mem_filter.mp hu).2).trans (Eq.to_iff ?_)
        congr 1
        refine filterMap_congr fun u _ => ?_
        cases d.isValid true u <;> rfl
      -- the helper does not look at the steps
      have hfull' : d.validateValueHelper slotIndex
          { b with upgrades := b.upgrades.filter (d.isValid true · |>.isSome) } =
          .kFullyValidatedValue := hfull
      simp [hfull, validateValue, d.values.fromOpaque_toOpaque, hfull', ← hsteps]
    · simp [hfull]

/-- Values that are their own encoding, for slot 2 -/
def plainDriver : Driver LedgerUpgrade (EssaBlockChainValue LedgerUpgrade) where
  toNode := Node.plainNode ⟨0, some 10, some 200, none, none⟩
  values := ⟨id, some, fun _ => rfl⟩
  isSynced := true
  mTrackingSCP := none
  timeNow := 10
  txSetValid _ := some true

/-- Both steps are valid, so they are kept as they are; the fee does not come after the version. -/
theorem extractValidValue_unordered :
    let v : EssaBlockChainValue LedgerUpgrade :=
      ⟨0, 6, [⟨.LEDGER_UPGRADE_BASE_FEE, 200⟩, ⟨.LEDGER_UPGRADE_VERSION, 10⟩]⟩
    plainDriver.extractValidValue 2 v = some v ∧
      plainDriver.validateValue 2 v true = .kInvalidValue := by
  exact ⟨rfl, rfl⟩
end Driver

end EssaCore.Herder
