import EssaCore.Scp.Externalize
import EssaCore.Scp.Agreement
import EssaCore.Scp.HeardFromQuorum
import EssaCore.Scp.BumpLoop
import EssaCore.Scp.BallotForward
import EssaCore.Scp.NominationRuns
import EssaCore.Ledger.BestOffers
import EssaCore.Catchup.LedgerManagerRuns
import EssaCore.Catchup.ApplyBucketsCorrect
import EssaCore.Transactions.EntryCharges
import EssaCore.Scp.NormalizeQSet
import EssaCore.Scp.ClosestVBlocking
import EssaCore.Transactions.Authorization
import EssaCore.Invariant.ValidOperations
import EssaCore.Buckets.SkipList
import EssaCore.Scp.TransitiveQuorum
import EssaCore.Buckets.MergeSpec
import EssaCore.Catchup.BucketApplicator
import EssaCore.Catchup.MisnumberedFiles
import EssaCore.Crypto.StrKey
import EssaCore.Herder.TrimInvalid
import EssaCore.Herder.Upgrades
import EssaCore.Overlay.Closing
import EssaCore.Overlay.Floodgate
import EssaCore.Scp.ExtendedInterval
import EssaCore.Transactions.LedgerClose
import EssaCore.Util.ProductEnumerator
