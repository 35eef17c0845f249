import InputGuard.CommandLine.Command

/-! The program: it loads what its words may name, runs the command on that, and
carries out on the system what the command did to its directory. -/

namespace InputGuard.CommandLine

/-- The file or folder that components lead to, added to a directory. -/
def loadOne (d : Directory) (start : Path) (parts : List String) : IO Directory := do
  let p := parts.foldl Path.enter start
  try
    let text ← IO.FS.readFile (Path.text (start ++ parts))
    return d.setFile p text
  catch
    | .inappropriateType _ 21 _ => return { d with folders := d.folders ++ [p] }
    | .permissionDenied _ _ _ =>
      return d.setFile p (.unreadable "Permission denied (os error 13)")
    | .userError _ => return d.setFile p (.unreadable "stream did not contain valid UTF-8")
    | _ => return d

/-- All that a path under a word passes, added to a directory. -/
def load (d : Directory) (word : String) : IO Directory :=
  let (start, parts) := Path.components word
  (List.range parts.length).foldlM (fun d n => loadOne d start (parts.take (n + 1))) d

/-- Makes the folders and files of a later state that an earlier one lacks. -/
def carryOut (earlier later : Directory) : IO Unit := do
  for p in earlier.newFolders later do
    IO.FS.createDirAll p.text
  for (p, text) in earlier.changedFiles later do
    IO.FS.writeFile p.text text

end InputGuard.CommandLine

open InputGuard InputGuard.CommandLine

def main (words : List String) : IO UInt32 := do
  let earlier ← words.foldlM load ⟨[], []⟩
  let ending := run words earlier (← IO.appPath).toString
  carryOut earlier ending.progress.directory
  IO.print ending.progress.printed
  IO.eprint (ending.errorText .standard)
  return UInt32.ofNat ending.exitCode
