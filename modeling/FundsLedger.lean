import FundsLedger.Postgres.Scripted
import FundsLedger.Json.Reader
import FundsLedger.Main
import FundsLedger.Proofs.Deadlock
import FundsLedger.Proofs.Reconciliation
import FundsLedger.Proofs.Ledger.Journal
import FundsLedger.Proofs.Audit
import FundsLedger.Proofs.Service.Atomicity
import FundsLedger.Proofs.Retrying
import FundsLedger.Proofs.Ledger.Trail
import FundsLedger.Proofs.Ledger.Unique
import FundsLedger.Proofs.Ledger.Rereading
import FundsLedger.Proofs.Ledger.Tenure
import FundsLedger.Proofs.Ledger.Freshness
import FundsLedger.Proofs.Ledger.EntrySums
import FundsLedger.Proofs.Ledger.Sequenced
import FundsLedger.Proofs.Sequencing
import FundsLedger.Proofs.Pages
import FundsLedger.Proofs.Browsing
import FundsLedger.Proofs.Transfer.Independence
import FundsLedger.Proofs.Transfer.Assured
import FundsLedger.Proofs.Opening.Checks
import FundsLedger.Proofs.Service.Closing
import FundsLedger.Proofs.Opening.Conclusion
import FundsLedger.Proofs.Postgres.Retrying
import FundsLedger.Proofs.Backoff
import FundsLedger.Proofs.Commands
import FundsLedger.Proofs.Arguments
import FundsLedger.Proofs.Json.Records
import FundsLedger.Proofs.Reading
