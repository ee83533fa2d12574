import Injection.Session
import Injection.Proofs.Walk
import Injection.Proofs.Linking
import Injection.Proofs.Chronicle
import Injection.Proofs.Consistency
import Injection.Proofs.Construction
import Injection.Proofs.Lineage
import Injection.Proofs.Memoization
import Injection.Proofs.Supply
import Injection.Proofs.Progress
import Injection.Proofs.Agreement
import Injection.Proofs.Interleaving
import Injection.Proofs.Refusal
import Injection.Proofs.Circles
import Injection.Proofs.Ownership
import Injection.Proofs.Reports
import Injection.Proofs.Descent
import Injection.Proofs.Enumeration
import Injection.Proofs.RootOrder
import Injection.Proofs.ConstructionOrder
import Injection.Proofs.ParentOrder
import Injection.Proofs.Moments
import Injection.Proofs.Conduct
import Injection.Proofs.Depth
import Injection.Proofs.Bookkeeping
import Injection.Proofs.Locality
import Injection.Proofs.Completion
import Injection.Proofs.Affairs
import Injection.Proofs.Calm
import Injection.Proofs.EagerBuilding
import Injection.Proofs.OneByOne
import Injection.Proofs.Trails
import Injection.Proofs.Accounts
import Injection.Proofs.Offers
import Injection.Proofs.Absence
import Injection.Proofs.Settlement
import Injection.Proofs.Survival
import Injection.Proofs.Promises
import Injection.Proofs.Configs
import Injection.Proofs.Handover
import Injection.Proofs.Inheritance
