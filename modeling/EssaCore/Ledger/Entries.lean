import Mathlib

/-!
# Ledger entries

The data of the ledger (`xdr/EssaBlockChain-ledger-entries.x`,
`xdr/EssaBlockChain-ledger.x`): what is stored, under which key, and the part
of the ledger header that transactions read and write.

- `Asset`, `Signer`, `Liabilities` — parts of entries;
- `AccountEntry`, `TrustLineEntry`, `OfferEntry`, `DataEntry` — the four kinds
  of entry, gathered in `LedgerEntryData`;
- `LedgerEntry` — a kind of entry with the ledger it was last modified in;
- `LedgerKey`, `LedgerEntryKey` — the key of an entry (`util/types.cpp` 17–49);
- `LedgerHeader` — the header fields that change inside a ledger;
- `InflationWinner` — what the query for inflation returns.

Signed 64-bit quantities (amounts, sequence numbers) are integers and unsigned
ones are natural numbers; the bounds the code checks are written out where it
checks them.
-/

namespace EssaCore.Ledger

/-! ## Identities and assets -/

/-- A 256-bit string (`uint256`, `Hash`). -/
abbrev Uint256 := BitVec 256

/-- `PublicKey` has one kind of key only, ed25519. -/
abbrev AccountID := Uint256

/-- `SequenceNumber` is an `int64`. -/
abbrev SequenceNumber := Int

/-- `Asset` -/
inductive Asset where
  | native
  | alphaNum4 (assetCode : Vector UInt8 4) (issuer : AccountID)
  | alphaNum12 (assetCode : Vector UInt8 12) (issuer : AccountID)
  deriving DecidableEq, Repr

/-- `Price`: a fraction of two `int32`. -/
structure Price where
  n : Int
  d : Int
  deriving DecidableEq, Repr

/-- `Liabilities` -/
structure Liabilities where
  buying : Int
  selling : Int
  deriving DecidableEq, Repr

/-- `SignerKey` -/
inductive SignerKey where
  | ed25519 (key : Uint256)
  | preAuthTx (hash : Uint256)
  | hashX (hash : Uint256)
  deriving DecidableEq, Repr

/-- `Signer` -/
structure Signer where
  key : SignerKey
  weight : Nat
  deriving DecidableEq, Repr

/-- `Thresholds`: four unsigned bytes, [weight of master|low|medium|high]. -/
structure Thresholds where
  masterWeight : Nat
  low : Nat
  med : Nat
  high : Nat
  deriving DecidableEq, Repr

/-! ## Entries -/

/-- `AccountEntry`; `ext` is `none` for `v = 0` and the liabilities for
`v = 1`. -/
structure AccountEntry where
  accountID : AccountID
  balance : Int
  seqNum : SequenceNumber
  numSubEntries : Nat
  inflationDest : Option AccountID
  flags : Nat
  homeDomain : String
  thresholds : Thresholds
  signers : List Signer
  ext : Option Liabilities
  deriving DecidableEq, Repr

/-- `TrustLineEntry`; `ext` as in `AccountEntry`. -/
structure TrustLineEntry where
  accountID : AccountID
  asset : Asset
  balance : Int
  limit : Int
  flags : Nat
  ext : Option Liabilities
  deriving DecidableEq, Repr

/-- `OfferEntry` -/
structure OfferEntry where
  sellerID : AccountID
  offerID : Nat
  selling : Asset
  buying : Asset
  amount : Int
  price : Price
  flags : Nat
  deriving DecidableEq, Repr

/-- `DataEntry` -/
structure DataEntry where
  accountID : AccountID
  dataName : String
  dataValue : List UInt8
  deriving DecidableEq, Repr

/-- `LedgerEntryType` -/
inductive LedgerEntryType where
  | ACCOUNT
  | TRUSTLINE
  | OFFER
  | DATA
  deriving DecidableEq, Repr

/-- The union `LedgerEntry.data`. -/
inductive LedgerEntryData where
  | account (entry : AccountEntry)
  | trustLine (entry : TrustLineEntry)
  | offer (entry : OfferEntry)
  | data (entry : DataEntry)
  deriving DecidableEq, Repr

/-- `LedgerEntry` -/
structure LedgerEntry where
  lastModifiedLedgerSeq : Nat
  data : LedgerEntryData
  deriving DecidableEq, Repr

/-! ## Keys -/

/-- `LedgerKey` -/
inductive LedgerKey where
  | account (accountID : AccountID)
  | trustLine (accountID : AccountID) (asset : Asset)
  | offer (sellerID : AccountID) (offerID : Nat)
  | data (accountID : AccountID) (dataName : String)
  deriving DecidableEq, Repr

/-- The discriminant of the union `LedgerKey`. -/
def LedgerKey.type : LedgerKey → LedgerEntryType
  | .account _ => .ACCOUNT
  | .trustLine _ _ => .TRUSTLINE
  | .offer _ _ => .OFFER
  | .data _ _ => .DATA

/-- The key of the contents of an entry. -/
def LedgerEntryData.key : LedgerEntryData → LedgerKey
  | .account a => .account a.accountID
  | .trustLine t => .trustLine t.accountID t.asset
  | .offer o => .offer o.sellerID o.offerID
  | .data d => .data d.accountID d.dataName

/-- `LedgerEntryKey` (`util/types.cpp` 17–49) -/
def LedgerEntryKey (e : LedgerEntry) : LedgerKey := e.data.key

/-! ## The ledger header -/

/-- The fields of `LedgerHeader` that are read or written while a ledger is
closed; `closeTime` is `scpValue.closeTime`. -/
structure LedgerHeader where
  ledgerVersion : Nat
  closeTime : Nat
  ledgerSeq : Nat
  totalCoins : Int
  feePool : Int
  inflationSeq : Nat
  idPool : Nat
  baseFee : Nat
  baseReserve : Nat
  deriving DecidableEq, Repr

/-! ## Inflation -/

/-- `InflationWinner` (`ledger/LedgerTxn.h`) -/
structure InflationWinner where
  accountID : AccountID
  votes : Int
  deriving DecidableEq, Repr

end EssaCore.Ledger
