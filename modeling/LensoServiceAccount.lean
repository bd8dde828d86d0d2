import LensoServiceAccount.Conformance
import LensoServiceAccount.Completion
import LensoServiceAccount.Changes
import LensoServiceAccount.Replay
import LensoServiceAccount.RateLimit
import LensoServiceAccount.Guessing
import LensoServiceAccount.Atomicity
import LensoServiceAccount.Capacity
import LensoServiceAccount.Checks
import LensoServiceAccount.Recording
import LensoServiceAccount.Rotation
import LensoServiceAccount.Claiming
import LensoServiceAccount.Tokens
import LensoServiceAccount.Secrets
import LensoServiceAccount.Lockout
import LensoServiceAccount.Validation
import LensoServiceAccount.Identities
import LensoServiceAccount.Expiry
import LensoServiceAccount.Justification
import LensoServiceAccount.Isolation
import LensoServiceAccount.Rejection
import LensoServiceAccount.Disclosure
import LensoServiceAccount.Workload
import LensoServiceAccount.Issuance
import LensoServiceAccount.CommandLife
import LensoServiceAccount.Pagination
import LensoServiceAccount.Deadlock
import LensoServiceAccount.Codes
import LensoServiceAccount.Lifecycle
