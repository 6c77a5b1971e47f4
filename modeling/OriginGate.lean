import OriginGate.Session.Surroundings
import OriginGate.SortedMap.Lookup
import OriginGate.Proofs.Narrowing
import OriginGate.Proofs.Runs
import OriginGate.Proofs.Served
import OriginGate.Proofs.Changes
import OriginGate.Proofs.Gating
import OriginGate.Proofs.Requests
import OriginGate.Proofs.Freshness
import OriginGate.Proofs.Grants
import OriginGate.Proofs.Waiting
import OriginGate.Proofs.Decisions
import OriginGate.Proofs.ForwardedAccounts
import OriginGate.Proofs.Callers
import OriginGate.Proofs.FailedApprovals
import OriginGate.Proofs.Shape
import OriginGate.Proofs.Scalars
import OriginGate.Proofs.Printing
import OriginGate.Proofs.Decoding
import OriginGate.Proofs.Reading
import OriginGate.Proofs.Reloading
import OriginGate.Proofs.Equality
import OriginGate.Proofs.Mirroring
import OriginGate.Proofs.Calls
import OriginGate.Proofs.Wire
import OriginGate.Proofs.Ownership
import OriginGate.Proofs.Replies
import OriginGate.Proofs.Separation
import OriginGate.Proofs.Concerns
import OriginGate.Proofs.Agreement
import OriginGate.Proofs.Renaming
import OriginGate.Proofs.TwoSessions
import OriginGate.Proofs.Isolation
import OriginGate.Proofs.Documents
import OriginGate.Proofs.Responses
import OriginGate.Proofs.SeenAccounts
import OriginGate.Proofs.Batches
import OriginGate.Proofs.ByteOrder
import OriginGate.Proofs.Refusals
import OriginGate.Proofs.Listing
import OriginGate.Proofs.Disclosure
import OriginGate.Proofs.GrantedApprovals
import OriginGate.Proofs.Mapping
import OriginGate.Proofs.Lookups
import OriginGate.Proofs.AccountRequests
import OriginGate.Proofs.ForwardedKeys
import OriginGate.Proofs.ResponseGrammar
import OriginGate.Proofs.SingleOrBatch
import OriginGate.Proofs.Spelling
import OriginGate.Proofs.Announcing
import OriginGate.Proofs.Failures
import OriginGate.Proofs.Reports
