import InputGuard.Proofs.CommandLine.Apply

/-! # Options anywhere

What is taken of the words is the value of an option and the words that are left, so
the place of an option among the other words does not matter, neither for a command
line nor for `apply` (`options_anywhere`). -/

namespace InputGuard.CommandLine

variable {program : String} {words words' : List String}

theorem takeOption_out {before after : List String} (h : "--out" ∉ before ++ after)
    (folder : String) : takeOption "--out" (before ++ ["--out", folder] ++ after) =
      takeOption "--out" (before ++ after ++ ["--out", folder]) := by
  rw [takeOption_insert before after h, takeOption_last h]

theorem run_congr (h : takeOption "--config" words = takeOption "--config" words')
    (d : Directory) : run words d program = run words' d program := by
  unfold run
  rw [h]

/-- All that `apply` reads of its words are the value and the rest. -/
theorem run_apply_congr {path : Option String} {rest rest' : List String}
    (h : takeOption "--config" words = some ⟨path, "apply" :: rest⟩)
    (h' : takeOption "--config" words' = some ⟨path, "apply" :: rest'⟩)
    (hout : takeOption "--out" rest = takeOption "--out" rest') (d : Directory) :
    run words d program = run words' d program := by
  cases loads : loadConfig d path with
  | error complaint => rw [run_of_unusable h loads, run_of_unusable h' loads]
  | ok c =>
    rw [run_of_loads h loads, run_of_loads h' loads]
    unfold apply
    rw [hout]

/-- Where the options of a command line may stand. Endings that are equal agree in what
is printed and reported, in the exit code and in the directory. -/
structure OptionsAnywhere (program : String) (d : Directory) : Prop where
  /-- the configuration may be named anywhere among words that do not name one -/
  config : ∀ (file : String) (before after : List String), "--config" ∉ before ++ after →
    run (before ++ ["--config", file] ++ after) d program =
      run (["--config", file] ++ (before ++ after)) d program
  /-- the words are run with the configuration of the file that is named last -/
  configured : ∀ words parts, Pairs "--config" words parts → RunsConfigured program d words parts
  /-- if several are named, the command line is read as if only the last one was -/
  lastConfig : ∀ (words : List String) (parts : List Part) (file : String),
    Pairs "--config" words parts → lastValue? parts = some file →
    run words d program = run (["--config", file] ++ unpaired parts) d program
  /-- `apply` may be told the folder anywhere -/
  out : ∀ (folder : String) (before after : List String), folder ≠ "--config" →
    "--config" ∉ before ++ after → "--out" ∉ before ++ after →
    run ("apply" :: (before ++ ["--out", folder] ++ after)) d program =
      run ("apply" :: (before ++ after ++ ["--out", folder])) d program
  /-- also where the command line names configurations -/
  outConfigured : ∀ (folder : String) (before after words words' : List String)
    (parts parts' : List Part), "--out" ∉ before ++ after →
    Pairs "--config" words parts →
    unpaired parts = "apply" :: (before ++ ["--out", folder] ++ after) →
    Pairs "--config" words' parts' →
    unpaired parts' = "apply" :: (before ++ after ++ ["--out", folder]) →
    lastValue? parts = lastValue? parts' → run words d program = run words' d program
  /-- the words that belong to an option -/
  pairs : ∀ option words, TakesPairs option words
  /-- a command line that ends with an option without a value is refused for that -/
  valueless : ∀ words, Valueless "--config" words →
    run words d program = (Progress.start d).fail (.optionValue "--config")
  /-- and so are words for `apply`, once the configuration is loaded -/
  valuelessOut : ∀ (words rest : List String) (parts : List Part) (c : Config),
    Pairs "--config" words parts → unpaired parts = "apply" :: rest →
    loadConfig d (lastValue? parts) = .ok c → Valueless "--out" rest →
    run words d program =
      ((Progress.start d).log (configEvents (lastValue? parts))).fail (.optionValue "--out")
  /-- the report of a missing value -/
  report : ∀ option, (Complaint.optionValue option).report = "❌ " ++ option ++ " requires a value\n"

theorem options_anywhere (program : String) (d : Directory) : OptionsAnywhere program d := by
  constructor
  case config =>
    intro file before after h
    apply run_congr
    rw [takeOption_insert before after h, takeOption_first h]
  case configured => exact fun _ _ h => runs_configured h
  case lastConfig =>
    intro words parts file h hfile
    apply run_congr
    rw [h.takeOption, hfile, takeOption_first h.notMem]
  case out =>
    intro folder before after hfolder hconfig hout
    rw [List.mem_append, not_or] at hconfig
    have htake : takeOption "--config" ("apply" :: (before ++ ["--out", folder] ++ after)) =
        some ⟨none, "apply" :: (before ++ ["--out", folder] ++ after)⟩ :=
      takeOption_of_notMem (by simp [hconfig, hfolder.symm])
    have htake' : takeOption "--config" ("apply" :: (before ++ after ++ ["--out", folder])) =
        some ⟨none, "apply" :: (before ++ after ++ ["--out", folder])⟩ :=
      takeOption_of_notMem (by simp [hconfig, hfolder.symm])
    exact run_apply_congr htake htake' (takeOption_out hout folder) d
  case outConfigured =>
    intro folder before after words words' parts parts' hout h hrest h' hrest' hvalue
    have htake := h.takeOption
    have htake' := h'.takeOption
    rw [hrest] at htake
    rw [hrest', ← hvalue] at htake'
    exact run_apply_congr htake htake' (takeOption_out hout folder) d
  case pairs => exact takes_pairs
  case valueless =>
    intro words h
    rw [run, (takes_pairs "--config" words).fails.mpr h]
  case valuelessOut =>
    intro words rest parts c h hrest loads hvalueless
    have htake := h.takeOption
    rw [hrest] at htake
    exact run_of_outValue htake loads ((takes_pairs "--out" rest).fails.mpr hvalueless)
  case report => exact Complaint.report_optionValue

end InputGuard.CommandLine
