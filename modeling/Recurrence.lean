import Recurrence.Calendar.Checked
import Recurrence.Command.Run
import Recurrence.Document.Draft
import Recurrence.Document.Json.Printer
import Recurrence.Document.Json.Reader
import Recurrence.Document.Toml.Reader
import Recurrence.Expansion
import Recurrence.Main
import Recurrence.Occurrences.Query
import Recurrence.Period.Walk
import Recurrence.Proofs.Sequence
import Recurrence.Rule.Basic
import Recurrence.Proofs.Grid
import Recurrence.Proofs.Queries
import Recurrence.Proofs.Weeks
import Recurrence.Proofs.Agreement
import Recurrence.Proofs.Plain
import Recurrence.Proofs.Calls
import Recurrence.Proofs.Safety
import Recurrence.Proofs.NormalForm
import Recurrence.Proofs.Documents
import Recurrence.Proofs.Resuming
import Recurrence.Proofs.WeekStart
import Recurrence.Proofs.NumberedWeekdays
import Recurrence.Proofs.Listing
import Recurrence.FixedWidth.Conversions
import Recurrence.Proofs.Addition
import Recurrence.Proofs.Entries
import Recurrence.Proofs.TableTexts
import Recurrence.Proofs.History
import Recurrence.Proofs.DayIndices
