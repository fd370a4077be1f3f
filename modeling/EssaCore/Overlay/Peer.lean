import EssaCore.Ledger.Entries

/-!
# Peers

`overlay/Peer.cpp`, `overlay/PeerAuth.cpp`: two nodes that connect exchange HELLO
messages with a certificate of an ECDH key and a nonce, derive one MAC key for
each direction from them, and confirm this with AUTH. From then on every message
carries a sequence number and a MAC; only errors do not.

- `PeerCrypto` — the cryptographic functions, and what is assumed of keys;
- `EssaBlockChainMessage`, `AuthenticatedMessage` — what is sent;
- `Peer` — a connection, with what it has sent and processed;
- `sendMessage`, `recvMessage`, `recvHello`, `recvAuth` — as the code has them.
-/

namespace EssaCore.Overlay

open Ledger (Uint256)

/-! ## Messages -/

/-- `NodeID` is a `PublicKey`. -/
abbrev NodeID := Uint256

/-- `Curve25519Public` -/
abbrev Curve25519Public := Uint256

/-- `ErrorCode` -/
inductive ErrorCode where
  | ERR_MISC
  | ERR_DATA
  | ERR_CONF
  | ERR_AUTH
  | ERR_LOAD
  deriving DecidableEq

/-- `AuthCert` -/
structure AuthCert where
  pubkey : Curve25519Public
  expiration : Nat
  sig : List UInt8
  deriving DecidableEq

/-- `Hello` -/
structure Hello where
  ledgerVersion : Nat
  overlayVersion : Nat
  overlayMinVersion : Nat
  networkID : Uint256
  versionStr : String
  listeningPort : Int
  peerID : NodeID
  cert : AuthCert
  nonce : Uint256
  deriving DecidableEq

/-- The values of `MessageType` that need a completed handshake. -/
inductive AppMessageType where
  | DONT_HAVE
  | GET_PEERS
  | PEERS
  | GET_TX_SET
  | TX_SET
  | TRANSACTION
  | GET_SCP_QUORUMSET
  | SCP_QUORUMSET
  | SCP_MESSAGE
  | GET_SCP_STATE
  deriving DecidableEq

/-- `EssaBlockChainMessage`; `Body` is what the messages of the application
carry. -/
inductive EssaBlockChainMessage (Body : Type) where
  | ERROR_MSG (code : ErrorCode) (msg : String)
  | HELLO (hello : Hello)
  | AUTH
  | app (type : AppMessageType) (body : Body)
  deriving DecidableEq

namespace EssaBlockChainMessage

variable {Body : Type}

/-- `msg.type() == ERROR_MSG` -/
def isError : EssaBlockChainMessage Body → Bool
  | .ERROR_MSG _ _ => true
  | _ => false

/-- `msg.type() == HELLO` -/
def isHello : EssaBlockChainMessage Body → Bool
  | .HELLO _ => true
  | _ => false

/-- The messages that need a completed handshake. -/
def isApp : EssaBlockChainMessage Body → Bool
  | .app _ _ => true
  | _ => false

/-- The messages that `sendMessage` authenticates. -/
def hasMac (msg : EssaBlockChainMessage Body) : Bool := !msg.isHello && !msg.isError

end EssaBlockChainMessage

/-- `AuthenticatedMessage`, version 0 -/
structure AuthenticatedMessage (Body Mac : Type) where
  sequence : UInt64
  message : EssaBlockChainMessage Body
  mac : Mac

/-! ## Cryptography -/

/-- `Peer::PeerRole` -/
inductive PeerRole where
  | REMOTE_CALLED_US
  | WE_CALLED_REMOTE
  deriving DecidableEq

/-- The cryptographic functions. A `Party` is an honest process: a run of a node,
with the node's key and an ECDH key of its own. Keys that are derived from
different public keys, directions or nonces are different. -/
structure PeerCrypto (Party Key Mac Body : Type) where
  nodeID : Party → NodeID
  ecdhPublic : Party → Curve25519Public
  ecdhPublic_injective : Function.Injective ecdhPublic
  /-- `crypto_scalarmult` with the secret of a party -/
  scalarmult : Party → Curve25519Public → Uint256
  scalarmult_comm : ∀ p q, scalarmult p (ecdhPublic q) = scalarmult q (ecdhPublic p)
  hkdfExtract : Uint256 → Curve25519Public → Curve25519Public → Key
  hkdfExtract_injective : ∀ {q a b q' a' b'},
    hkdfExtract q a b = hkdfExtract q' a' b' → a = a' ∧ b = b'
  hkdfExpand : Key → UInt8 → Uint256 → Uint256 → Key
  hkdfExpand_injective : ∀ {k d m n k' d' m' n'},
    hkdfExpand k d m n = hkdfExpand k' d' m' n' → k = k' ∧ d = d' ∧ m = m' ∧ n = n'
  hmacSha256 : Key → UInt64 → EssaBlockChainMessage Body → Mac
  verifySig : NodeID → List UInt8 → Uint256 → Nat → Curve25519Public → Bool
  /-- A MAC key and a MAC that have not been set. -/
  zeroKey : Key
  zeroMac : Mac

namespace PeerCrypto

variable {Party Key Mac Body : Type} (cr : PeerCrypto Party Key Mac Body)

/-- `EcdhDeriveSharedKey`, with the secret and the public key of `local` -/
def ecdhDeriveSharedKey (localParty : Party) (remotePublic : Curve25519Public)
    (localFirst : Bool) : Key :=
  let publicA := if localFirst then cr.ecdhPublic localParty else remotePublic
  let publicB := if localFirst then remotePublic else cr.ecdhPublic localParty
  cr.hkdfExtract (cr.scalarmult localParty remotePublic) publicA publicB

/-- `PeerAuth::getSharedKey` -/
def getSharedKey (localParty : Party) (remotePublic : Curve25519Public)
    (role : PeerRole) : Key :=
  cr.ecdhDeriveSharedKey localParty remotePublic (role = .WE_CALLED_REMOTE)

/-- `PeerAuth::getSendingMacKey` -/
def getSendingMacKey (localParty : Party) (remotePublic : Curve25519Public)
    (localNonce remoteNonce : Uint256) (role : PeerRole) : Key :=
  let k := cr.getSharedKey localParty remotePublic role
  if role = .WE_CALLED_REMOTE then cr.hkdfExpand k 0 localNonce remoteNonce
  else cr.hkdfExpand k 1 localNonce remoteNonce

/-- `PeerAuth::getReceivingMacKey` -/
def getReceivingMacKey (localParty : Party) (remotePublic : Curve25519Public)
    (localNonce remoteNonce : Uint256) (role : PeerRole) : Key :=
  let k := cr.getSharedKey localParty remotePublic role
  if role = .WE_CALLED_REMOTE then cr.hkdfExpand k 1 remoteNonce localNonce
  else cr.hkdfExpand k 0 remoteNonce localNonce

end PeerCrypto

/-! ## Connections -/

/-- `Peer::PeerState` -/
inductive PeerState where
  | CONNECTING
  | CONNECTED
  | GOT_HELLO
  | GOT_AUTH
  | CLOSING
  deriving DecidableEq

/-- The number of a state, for comparisons -/
def PeerState.toNat : PeerState → Nat
  | .CONNECTING => 0
  | .CONNECTED => 1
  | .GOT_HELLO => 2
  | .GOT_AUTH => 3
  | .CLOSING => 4

/-- `mState >= GOT_HELLO` -/
def PeerState.pastHello (st : PeerState) : Bool := PeerState.toNat .GOT_HELLO ≤ st.toNat

/-- What the application, the configuration and the clock say while a peer is
called. -/
structure PeerEnv (Body : Type) where
  isShuttingDown : Bool
  timeNow : Nat
  networkID : Uint256
  LEDGER_PROTOCOL_VERSION : Nat
  OVERLAY_PROTOCOL_VERSION : Nat
  OVERLAY_PROTOCOL_MIN_VERSION : Nat
  VERSION_STR : String
  PEER_PORT : Int
  /-- The expiration and the signature of the certificate in use -/
  certExpiration : Nat
  certSig : List UInt8
  isBanned : NodeID → Bool
  ipEmpty : Bool
  alreadyConnected : NodeID → Bool
  acceptAuthenticatedPeer : Bool
  peersToSend : Body
  scpStateRequest : Body

/-- `Peer`, and what is known about it from outside: the party it belongs to,
whether the result of connecting is still to come, the ECDH key of the HELLO it
has accepted, what has been queued for the socket (`mWriteQueue` from the start, in
its order), and the messages that have been processed, with the state at that time. -/
structure Peer (Party Key Mac Body : Type) where
  owner : Party
  mRole : PeerRole
  mState : PeerState
  mPeerID : NodeID
  mSendNonce : Uint256
  mRecvNonce : Uint256
  mSendMacKey : Key
  mSendMacSeq : UInt64
  mRecvMacKey : Key
  mRecvMacSeq : UInt64
  connectPending : Bool
  remotePublic : Option Curve25519Public
  out : List (AuthenticatedMessage Body Mac)
  processed : List (PeerState × EssaBlockChainMessage Body)

namespace Peer

variable {Party Key Mac Body : Type} (cr : PeerCrypto Party Key Mac Body)

/-- The constructor of `Peer`; `mSendNonce` is random. -/
def new (owner : Party) (role : PeerRole) (mSendNonce : Uint256) :
    Peer Party Key Mac Body where
  owner := owner
  mRole := role
  mState := if role = .WE_CALLED_REMOTE then .CONNECTING else .CONNECTED
  mPeerID := 0
  mSendNonce := mSendNonce
  mRecvNonce := 0
  mSendMacKey := cr.zeroKey
  mSendMacSeq := 0
  mRecvMacKey := cr.zeroKey
  mRecvMacSeq := 0
  connectPending := role = .WE_CALLED_REMOTE
  remotePublic := none
  out := []
  processed := []

/-- `Peer::isAuthenticated` -/
def isAuthenticated (c : Peer Party Key Mac Body) : Bool := c.mState = .GOT_AUTH

/-- `Peer::shouldAbort` -/
def shouldAbort (env : PeerEnv Body) (c : Peer Party Key Mac Body) : Bool :=
  c.mState = .CLOSING || env.isShuttingDown

/-! ## Sending -/

/-- `TCPPeer::sendMessage`: nothing is queued after a drop. -/
def write (am : AuthenticatedMessage Body Mac) (c : Peer Party Key Mac Body) :
    Peer Party Key Mac Body :=
  if c.mState = .CLOSING then c else { c with out := c.out ++ [am] }

/-- `Peer::sendMessage` -/
def sendMessage (msg : EssaBlockChainMessage Body) (c : Peer Party Key Mac Body) :
    Peer Party Key Mac Body :=
  if msg.hasMac then
    write ⟨c.mSendMacSeq, msg, cr.hmacSha256 c.mSendMacKey c.mSendMacSeq msg⟩
      { c with mSendMacSeq := c.mSendMacSeq + 1 }
  else write ⟨0, msg, cr.zeroMac⟩ c

/-- `TCPPeer::drop` -/
def drop (env : PeerEnv Body) (c : Peer Party Key Mac Body) : Peer Party Key Mac Body :=
  if c.shouldAbort env then c else { c with mState := .CLOSING }

/-- `Peer::drop` with an error -/
def dropWithError (env : PeerEnv Body) (err : ErrorCode) (msg : String)
    (c : Peer Party Key Mac Body) : Peer Party Key Mac Body :=
  drop env (sendMessage cr (.ERROR_MSG err msg) c)

/-- `Peer::sendHello` -/
def sendHello (env : PeerEnv Body) (c : Peer Party Key Mac Body) :
    Peer Party Key Mac Body :=
  sendMessage cr (.HELLO
    { ledgerVersion := env.LEDGER_PROTOCOL_VERSION
      overlayVersion := env.OVERLAY_PROTOCOL_VERSION
      overlayMinVersion := env.OVERLAY_PROTOCOL_MIN_VERSION
      networkID := env.networkID
      versionStr := env.VERSION_STR
      listeningPort := env.PEER_PORT
      peerID := cr.nodeID c.owner
      cert := ⟨cr.ecdhPublic c.owner, env.certExpiration, env.certSig⟩
      nonce := c.mSendNonce }) c

/-- `Peer::connectHandler`, called once -/
def connectHandler (env : PeerEnv Body) (error : Bool) (c : Peer Party Key Mac Body) :
    Peer Party Key Mac Body :=
  let c := { c with connectPending := false }
  if error then drop env c
  else sendHello cr env { c with mState := .CONNECTED }

/-! ## Receiving -/

/-- `PeerAuth::verifyRemoteAuthCert` -/
def verifyRemoteAuthCert (env : PeerEnv Body) (remoteNode : NodeID) (cert : AuthCert) :
    Bool :=
  !(cert.expiration < env.timeNow) &&
    cr.verifySig remoteNode cert.sig env.networkID cert.expiration cert.pubkey

/-- The fields that `Peer::recvHello` sets -/
def setKeys (elo : Hello) (c : Peer Party Key Mac Body) : Peer Party Key Mac Body :=
  { c with
    mPeerID := elo.peerID
    mRecvNonce := elo.nonce
    mSendMacSeq := 0
    mRecvMacSeq := 0
    mSendMacKey := cr.getSendingMacKey c.owner elo.cert.pubkey c.mSendNonce elo.nonce c.mRole
    mRecvMacKey := cr.getReceivingMacKey c.owner elo.cert.pubkey c.mSendNonce elo.nonce c.mRole
    mState := .GOT_HELLO
    remotePublic := some elo.cert.pubkey }

/-- The part of `Peer::recvHello` after the answer, and the errors it ends in -/
def recvHelloRest (env : PeerEnv Body) (elo : Hello) (c : Peer Party Key Mac Body) :
    Peer Party Key Mac Body :=
  if elo.overlayMinVersion > elo.overlayVersion ∨
      elo.overlayVersion < env.OVERLAY_PROTOCOL_MIN_VERSION ∨
      elo.overlayMinVersion > env.OVERLAY_PROTOCOL_VERSION then
    dropWithError cr env .ERR_CONF "wrong protocol version" c
  else if elo.peerID = cr.nodeID c.owner then
    dropWithError cr env .ERR_CONF "connecting to self" c
  else if elo.networkID ≠ env.networkID then
    dropWithError cr env .ERR_CONF "wrong network passphrase" c
  else if elo.listeningPort ≤ 0 ∨ elo.listeningPort > 65535 ∨ env.ipEmpty then
    dropWithError cr env .ERR_CONF "bad address" c
  else if env.alreadyConnected elo.peerID then
    dropWithError cr env .ERR_CONF "connecting already-connected peer" c
  else if c.mRole = .WE_CALLED_REMOTE then sendMessage cr .AUTH c
  else c

/-- `Peer::recvHello` -/
def recvHello (env : PeerEnv Body) (elo : Hello) (c : Peer Party Key Mac Body) :
    Peer Party Key Mac Body :=
  if c.mState.pastHello then drop env c
  else if !verifyRemoteAuthCert cr env elo.peerID elo.cert then drop env c
  else if env.isBanned elo.peerID then drop env c
  else
    let c := setKeys cr elo c
    let c := if c.mRole = .REMOTE_CALLED_US then sendHello cr env c else c
    recvHelloRest cr env elo c

/-- `Peer::recvAuth` -/
def recvAuth (env : PeerEnv Body) (c : Peer Party Key Mac Body) :
    Peer Party Key Mac Body :=
  if c.mState ≠ .GOT_HELLO then
    dropWithError cr env .ERR_MISC "out-of-order AUTH message" c
  else
    let c := { c with mState := .GOT_AUTH }
    let c := if c.mRole = .REMOTE_CALLED_US then
        sendMessage cr (.app .PEERS env.peersToSend) (sendMessage cr .AUTH c)
      else c
    if !env.acceptAuthenticatedPeer then
      dropWithError cr env .ERR_LOAD "peer rejected" c
    else sendMessage cr (.app .GET_SCP_STATE env.scpStateRequest) c

/-- `Peer::recvMessage` for an `EssaBlockChainMessage`. What the application does
with its messages is not a matter of the peer; it may send messages at any time. -/
def recvEssaMessage (env : PeerEnv Body) (msg : EssaBlockChainMessage Body)
    (c : Peer Party Key Mac Body) : Peer Party Key Mac Body :=
  if c.shouldAbort env then c
  else if !c.isAuthenticated && msg.isApp then drop env c
  else
    let c := { c with processed := c.processed ++ [(c.mState, msg)] }
    match msg with
    | .ERROR_MSG _ _ => drop env c
    | .HELLO elo => recvHello cr env elo c
    | .AUTH => recvAuth cr env c
    | .app _ _ => c

/-- `Peer::recvMessage` for an `AuthenticatedMessage` -/
def recvMessage [DecidableEq Mac] (env : PeerEnv Body) (am : AuthenticatedMessage Body Mac)
    (c : Peer Party Key Mac Body) : Peer Party Key Mac Body :=
  if c.shouldAbort env then c
  else if c.mState.pastHello && !am.message.isError then
    let c' := { c with mRecvMacSeq := c.mRecvMacSeq + 1 }
    if am.sequence ≠ c.mRecvMacSeq then
      dropWithError cr env .ERR_AUTH "unexpected auth sequence" c'
    else if am.mac ≠ cr.hmacSha256 c.mRecvMacKey am.sequence am.message then
      dropWithError cr env .ERR_AUTH "unexpected MAC" c'
    else recvEssaMessage cr env am.message c'
  else recvEssaMessage cr env am.message c

end Peer

end EssaCore.Overlay
