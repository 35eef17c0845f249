import InputGuard.Proofs.CommandLine.Report
import InputGuard.Proofs.CommandLine.Words

/-! # The configuration of a command line

The words of a command line are run with the configuration in the file that is named
last, or with the default one if none is named; a file that cannot be read, or that
holds no valid configuration, is reported instead (`runs_configured`). -/

namespace InputGuard

namespace CommandLine

theorem debug_of_mem_configEvents {path : Option String} :
    ∀ e ∈ configEvents path, e.severity = .debug := by
  intro e h
  obtain ⟨path, -, rfl⟩ := List.mem_map.mp h
  rfl

variable {words : List String} {parts : List Part} {d : Directory} {program : String}

theorem loadConfig_of_read {path text : String} (h : d.read path = .ok text) :
    loadConfig d (some path) = (Config.ofToml text).mapError (.config path) := by
  simp only [loadConfig, h]

theorem loadConfig_of_unreadable {path : String} {error : FileError}
    (h : d.read path = .error error) :
    loadConfig d (some path) = .error (.config path (.unreadable path error.message)) := by
  simp only [loadConfig, h]

theorem run_of_pairs (h : Pairs "--config" words parts) : run words d program =
    orFail (.start d) (loadConfig d (lastValue? parts)) fun c =>
      runWith c program (unpaired parts)
        ((Progress.start d).log (configEvents (lastValue? parts))) := by
  rw [run, h.takeOption]

/-- How words with some values of the option for the configuration are run. -/
structure RunsConfigured (program : String) (d : Directory) (words : List String)
    (parts : List Part) : Prop where
  /-- if no file is named, with the default configuration -/
  unnamed : lastValue? parts = none →
    run words d program = runWith {} program (unpaired parts) (.start d)
  /-- otherwise with the configuration that is read from the last file -/
  loaded : ∀ path text c, lastValue? parts = some path → d.read path = .ok text →
    Config.ofToml text = .ok c →
    run words d program =
      runWith c program (unpaired parts) ((Progress.start d).log [.loadedConfig path])
  /-- which is refused if its text is -/
  refused : ∀ path text error, lastValue? parts = some path → d.read path = .ok text →
    Config.ofToml text = .error error →
    run words d program = (Progress.start d).fail (.config path error)
  /-- and if there is none to read -/
  unreadable : ∀ path error, lastValue? parts = some path → d.read path = .error error →
    run words d program =
      (Progress.start d).fail (.config path (.unreadable path error.message))

theorem runs_configured (h : Pairs "--config" words parts) :
    RunsConfigured program d words parts := by
  constructor
  case unnamed =>
    intro hvalue
    rw [run_of_pairs h, hvalue]
    rfl
  case loaded =>
    intro path text c hvalue hread hconfig
    rw [run_of_pairs h, hvalue, loadConfig_of_read hread, hconfig]
    rfl
  case refused =>
    intro path text error hvalue hread hconfig
    rw [run_of_pairs h, hvalue, loadConfig_of_read hread, hconfig]
    rfl
  case unreadable =>
    intro path error hvalue hread
    rw [run_of_pairs h, hvalue, loadConfig_of_unreadable hread]
    rfl

end CommandLine
end InputGuard
