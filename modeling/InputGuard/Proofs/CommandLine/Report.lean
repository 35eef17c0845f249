import InputGuard.CommandLine.Command

/-! # The error output

Only a log that shows everything shows what is for debugging (`shown_of_debug`), and
a log that is off shows nothing. The report of a complaint is a line with the causes
from the outermost inwards; where the innermost one is the wording of a reader, it
stops in front of that. -/

namespace InputGuard

open Rule (Fault)

/-! ## What a log shows -/

/-- Only a log that shows everything shows what is for debugging. -/
theorem Event.isShown_of_debug {level : Level} {e : Event} (h : e.severity = .debug)
    (hlevel : level ≠ some .debug) : e.isShown level = false := by
  rcases level with _ | (_ | _ | _ | _)
  case some.debug => exact absurd rfl hlevel
  all_goals simp [isShown, h, Severity.rank]

theorem Event.filter_isShown_of_debug {es : List Event} {level : Level}
    (h : ∀ e ∈ es, e.severity = .debug) (hlevel : level ≠ some .debug) :
    es.filter (isShown level) = [] :=
  List.filter_eq_nil_iff.mpr fun e he => Bool.eq_false_iff.mp (isShown_of_debug (h e he) hlevel)

namespace CommandLine

@[simp] theorem errorOutput_done (p : Progress) (level : Level) :
    p.done.errorOutput level = shown level p.events := List.append_nil _

@[simp] theorem errorOutput_fail (p : Progress) (c : Complaint) (level : Level) :
    (p.fail c).errorOutput level = shown level p.events ++ [.report c.report] := rfl

theorem map_text_shown (level : Level) (es : List Event) :
    (shown level es).map Notice.text = (es.filter (Event.isShown level)).map (·.line ++ "\n") :=
  List.map_map

@[simp] theorem errorText_done (p : Progress) (level : Level) : p.done.errorText level =
    String.join ((p.events.filter (Event.isShown level)).map (·.line ++ "\n")) := by
  rw [Ending.errorText, errorOutput_done, map_text_shown]

@[simp] theorem errorText_fail (p : Progress) (c : Complaint) (level : Level) :
    (p.fail c).errorText level =
      String.join ((p.events.filter (Event.isShown level)).map (·.line ++ "\n")) ++ c.report := by
  rw [Ending.errorText, errorOutput_fail, List.map_append, map_text_shown, String.join_append]
  simp [Notice.text, String.join_cons]

section

variable {p : Progress} {level : Level} (h : ∀ e ∈ p.events, e.severity = .debug)
  (hlevel : level ≠ some .debug)

include h hlevel

theorem errorText_done_of_debug : p.done.errorText level = "" := by
  rw [errorText_done, Event.filter_isShown_of_debug h hlevel]
  rfl

theorem errorText_fail_of_debug (c : Complaint) : (p.fail c).errorText level = c.report := by
  rw [errorText_fail, Event.filter_isShown_of_debug h hlevel]
  exact String.empty_append

end

/-! ## Reports of complaints -/

namespace Complaint

variable (path text reason : String) (error : FileError)

theorem report_optionValue (option : String) :
    (optionValue option).report = "❌ " ++ option ++ " requires a value\n" := by
  change "❌ " ++ (option ++ " requires a value") ++ "\n" =
    "❌ " ++ option ++ (" requires a value" ++ "\n")
  simp only [String.append_assoc]

theorem report_directive (fault : Fault) :
    (directive fault).report = "❌ InvalidDirectiveError: " ++ fault.message ++ "\n" := by
  change "❌ " ++ ("InvalidDirectiveError: " ++ fault.message) ++ "\n" =
    ("❌ " ++ "InvalidDirectiveError: ") ++ fault.message ++ "\n"
  simp only [String.append_assoc]

end Complaint

end CommandLine
end InputGuard
