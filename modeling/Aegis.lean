import Aegis.Foundation.CString
import Aegis.Foundation.Scan
import Aegis.Foundation.Format
import Aegis.Foundation.Search
import Aegis.Foundation.Sha256
import Aegis.Foundation.Machine
import Aegis.Foundation.Transducer
import Aegis.Foundation.Pool
import Aegis.Foundation.Lock
import Aegis.Foundation.Registry
import Aegis.Foundation.CheckInsert
import Aegis.Foundation.Capacity
import Aegis.Foundation.History
import Aegis.Foundation.Metered
import Aegis.Kernel.Interface
import Aegis.Kernel.FileSystem
import Aegis.Policy.Config
import Aegis.Policy.Sysctl
import Aegis.Policy.Lists
import Aegis.Policy.Files
import Aegis.Policy.Hashing
import Aegis.Policy.Procs
import Aegis.Policy.Syscalls
import Aegis.Policy.Listings
import Aegis.Policy.Hooks
import Aegis.Policy.FailClosed
import Aegis.Policy.Verdicts
import Aegis.Policy.Tracing
import Aegis.Policy.Layers
import Aegis.Policy.Accounting
import Aegis.Policy.HookCode
import Aegis.Control.Endpoints
import Aegis.Control.Commands
import Aegis.Control.Outcomes
import Aegis.Control.RoundTrip
import Aegis.Control.Grammar
import Aegis.Refinement.SetPolicy
import Aegis.Refinement.Sequential
import Aegis.Refinement.Monotone
import Aegis.Refinement.Reachable
import Aegis.Refinement.Encodings
import Aegis.Refinement.Matching
import Aegis.Tool.Aegisctl
import Aegis.Tool.Audit
import Aegis.Tool.Listing
import Aegis.Concurrent.Lists
import Aegis.Concurrent.ListRuns
import Aegis.Concurrent.Knobs
import Aegis.Concurrent.Counters
import Aegis.Concurrent.FastPath
import Aegis.Concurrent.Lifetimes
import Aegis.Concurrent.Digests
import Aegis.Protection.World
import Aegis.Protection.Contents
import Aegis.Protection.Names
import Aegis.Concurrent.Atomicity
import Aegis.Concurrent.Progress
import Aegis.Concurrent.Tightening
import Aegis.Refinement.Ledger
import Aegis.Refinement.Entries
import Aegis.Refinement.Batches
import Aegis.Refinement.Noninterference
import Aegis.Refinement.Restore
import Aegis.Control.Tree
import Aegis.Protection.Seal
import Aegis.Tool.Trail
import Aegis.Tool.Statistics
import Aegis.Concurrent.Memory
