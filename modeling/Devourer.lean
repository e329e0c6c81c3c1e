import Devourer.Apps.Canonical
import Devourer.Apps.EndToEnd
import Devourer.Books
import Devourer.Destination
import Devourer.Foundation.Ledger
import Devourer.Foundation.View
import Devourer.LRUHash.Accounting
import Devourer.LRUHash.Integrity
import Devourer.LRUHash.Ledger
import Devourer.LRUHash.Observation
import Devourer.LRUHash.TimedStore
import Devourer.Memory
import Devourer.Modules.Clocks
import Devourer.Modules.Dns.AliasChain
import Devourer.Modules.Dns.Book
import Devourer.Modules.Dns.Isolation
import Devourer.Modules.Dns.Outcomes
import Devourer.Modules.Dns.Questions
import Devourer.Modules.Dns.Retransmission
import Devourer.Modules.Dns.Stamps
import Devourer.Modules.Dns.Tables
import Devourer.Modules.Dns.Transactions
import Devourer.Modules.Flow.Book
import Devourer.Modules.Flow.Closing
import Devourer.Modules.Flow.Conversations
import Devourer.Modules.Flow.Isolation
import Devourer.Modules.Flow.Quiet
import Devourer.Modules.Flow.Reordering
import Devourer.Modules.Flow.Report
import Devourer.Modules.Flow.Stale
import Devourer.Modules.Flow.Tables
import Devourer.Modules.Flow.Traffic
import Devourer.Modules.Keys
import Devourer.Modules.Naming
import Devourer.Modules.Retention
import Devourer.Separation
import Devourer.Translation
