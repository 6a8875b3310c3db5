import Sope.Bank.GracefulDrain
import Sope.Bank.BalanceLimits
import Sope.Bank.Serializability
import Sope.Bank.QueueRefinement
import Sope.Bank.Independence
import Sope.Bank.ErrorPriority
import Sope.Hashing.CyclicWaits
import Sope.Hashing.Residue
import Sope.Hashing.Integrity
import Sope.Clients.ShutdownFrame
import Sope.Clients.Channel
import Sope.Clients.AccountIds
import Sope.Clients.FifoNames
import Sope.Clients.TypedHeader
import Sope.Clients.Waiting
import Sope.Clients.Survival
import Sope.Clients.Experience
import Sope.Forensic.Outliving
import Sope.Forensic.Coverage
import Sope.Forensic.Report
import Sope.Forensic.Fields
import Sope.Forensic.Quoting
import Sope.Forensic.Counters
import Sope.Bank.Intake
import Sope.Bank.Quiescence
import Sope.Bank.InevitableDrain
import Sope.Bank.RealTime
import Sope.Bank.Answers
import Sope.Bank.LogRoundTrip
import Sope.Bank.Statements
