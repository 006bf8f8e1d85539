import SpendCheck.Assembly.Reading
import SpendCheck.Assembly.Writing
import SpendCheck.Bytes.Digits
import SpendCheck.Curve.PrivateKey
import SpendCheck.Policy.FlagText
import SpendCheck.Signature.Negation
import SpendCheck.Spend.Session
import SpendCheck.Spend.Verification
import SpendCheck.Proofs.Policy.Subset
import SpendCheck.Proofs.Machine.Relaxation
import SpendCheck.Proofs.Spend.Relaxation
import SpendCheck.Proofs.Script.Decoding
import SpendCheck.Proofs.Script.Building
import SpendCheck.Proofs.Script.Deletion
import SpendCheck.Proofs.Script.Nesting
import SpendCheck.Proofs.Script.Number
import SpendCheck.Proofs.Script.Shortest
import SpendCheck.Proofs.Script.Tiling
import SpendCheck.Proofs.Spend.PayToScriptHash
import SpendCheck.Proofs.Machine.Matching
import SpendCheck.Proofs.Machine.MultiSig
import SpendCheck.Proofs.Transaction.Codec
import SpendCheck.Proofs.Transaction.SigningCopy
import SpendCheck.Proofs.Transaction.Commitment
import SpendCheck.Proofs.Transaction.Canonical
import SpendCheck.Proofs.Transaction.Separators
import SpendCheck.Proofs.Transaction.Streaming
import SpendCheck.Proofs.Transaction.Truncation
import SpendCheck.Proofs.Text.Words
import SpendCheck.Proofs.Assembly.RoundTrip
import SpendCheck.Proofs.Machine.Below
import SpendCheck.Proofs.Machine.Boundary
import SpendCheck.Proofs.Machine.Growth
import SpendCheck.Proofs.Machine.Limits
import SpendCheck.Proofs.Machine.Charging
import SpendCheck.Proofs.Machine.Separator
import SpendCheck.Proofs.Machine.ScriptCode
import SpendCheck.Proofs.Machine.Certificate
import SpendCheck.Proofs.Machine.Conditional
import SpendCheck.Proofs.Machine.Pushing
import SpendCheck.Proofs.Machine.Asking
import SpendCheck.Proofs.Spend.SignaturePolicy
import SpendCheck.Proofs.Spend.Workload
import SpendCheck.Proofs.Spend.Joining
import SpendCheck.Proofs.Guarded.Spend
import SpendCheck.Proofs.Policy.Bits
import SpendCheck.Proofs.Policy.Attribution
import SpendCheck.Proofs.Machine.Reporting
import SpendCheck.Proofs.Machine.Agreement
import SpendCheck.Proofs.Machine.Arithmetic
import SpendCheck.Proofs.Machine.PickAndRoll
import SpendCheck.Proofs.Machine.Oversized
import SpendCheck.Proofs.Spend.Parsing
import SpendCheck.Proofs.Spend.Attribution
import SpendCheck.Proofs.Spend.Agreement
import SpendCheck.Proofs.Spend.Session
import SpendCheck.Proofs.Spend.Redundancy
import SpendCheck.Proofs.Spend.OtherScripts
import SpendCheck.Proofs.Signature.Malleability
import SpendCheck.Proofs.Machine.Underflow
import SpendCheck.Proofs.Machine.SingleKey
import SpendCheck.Proofs.Policy.FlagText
import SpendCheck.Proofs.Guarded.Encoding
import SpendCheck.Proofs.Guarded.Iterator
import SpendCheck.Proofs.Machine.Truth
