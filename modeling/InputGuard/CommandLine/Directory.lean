import InputGuard.Text.Split

/-! A tree of files and folders, as far as a command reads and writes it. Paths
are walked component by component from the working folder or the root, so that a
missing folder or a file in the place of one is noticed where it stands. A file may
be there and not be readable as a text, for whatever reason the system gives; that a
file or folder cannot be written is not represented. -/

namespace InputGuard.CommandLine

abbrev Path := List String

/-- What is in a file: a text, or something that reading fails on, such as bytes that
are no text or a file that must not be opened, with what the system says. -/
inductive Content where
  | text (text : String)
  | unreadable (reason : String)
deriving DecidableEq

instance : Coe String Content := ⟨.text⟩

structure Directory where
  files : List (Path × Content)
  folders : List Path
deriving DecidableEq

/-- What the system says when a file or folder cannot be used. -/
inductive FileError where
  | notFound
  | alreadyExists
  | notFolder
  | isFolder
  | nameTooLong
  | zeroByte
  | unreadable (reason : String)
deriving DecidableEq

def FileError.message : FileError → String
  | .notFound => "No such file or directory (os error 2)"
  | .alreadyExists => "File exists (os error 17)"
  | .notFolder => "Not a directory (os error 20)"
  | .isFolder => "Is a directory (os error 21)"
  | .nameTooLong => "File name too long (os error 36)"
  | .zeroByte => "file name contained an unexpected NUL byte"
  | .unreadable reason => reason

namespace Path

/-- The components of a written path; an absolute one starts at the root `/`. -/
def components (path : String) : Path × Path :=
  let parts := (Text.splitOn '/' path.toList).map String.ofList
  if path.toList.head? = some '/' then (["/"], parts) else ([], parts)

/-- The written form of a path. -/
def text : Path → String
  | "/" :: rest => "/" ++ "/".intercalate rest
  | p => "/".intercalate p

/-- A path inside a folder, as it is written. -/
def join (folder file : String) : String :=
  if folder = "" then file
  else if folder.toList.getLast? = some '/' then folder ++ file
  else folder ++ "/" ++ file

/-- The bytes that the name of a file or folder may have. -/
def longestName : Nat := 255

/-- The bytes that a written path may have. -/
def longestText : Nat := 4095

/-- What is wrong with a written path, wherever it leads. -/
def fault? (path : String) : Option FileError :=
  if path.toList.contains '\x00' then some .zeroByte
  else if longestText < path.utf8ByteSize then some .nameTooLong
  else none

/-- One component further: the parent for `..`, which for the root is the root
itself, and nowhere else for `.`. -/
def enter (here : Path) (part : String) : Path :=
  if part = "" ∨ part = "." ∨ (part = ".." ∧ here = ["/"]) then here
  else if part = ".." ∧ here ≠ [] ∧ here.getLast? ≠ some ".." then here.dropLast
  else here ++ [part]

end Path

namespace Directory

def file? (d : Directory) (p : Path) : Option Content := d.files.lookup p

/-- Whether a folder stands at a path; the working folder, those above it and
the root always do. -/
def isFolder (d : Directory) (p : Path) : Bool :=
  p.all (· == "..") || p == ["/"] || d.folders.contains p ||
    d.files.any fun f => p.isPrefixOf f.1 && p != f.1

def setFile (d : Directory) (p : Path) (content : Content) : Directory :=
  { d with files := (p, content) :: d.files.filter (·.1 ≠ p) }

/-- Follows components from a folder; each of them must be entered from a folder. -/
def walk (d : Directory) (here : Path) : List String → Except FileError Path
  | [] => .ok here
  | part :: parts =>
    if d.isFolder here then
      if Path.longestName < part.utf8ByteSize then .error .nameTooLong
      else walk d (Path.enter here part) parts
    else if (d.file? here).isSome then .error .notFolder
    else .error .notFound

def locate (d : Directory) (path : String) : Except FileError Path :=
  match Path.fault? path with
  | some e => .error e
  | none =>
    if path = "" then .error .notFound
    else walk d (Path.components path).1 (Path.components path).2

def read (d : Directory) (path : String) : Except FileError String :=
  match d.locate path with
  | .error e => .error e
  | .ok p =>
    match d.file? p with
    | some (.text text) => .ok text
    | some (.unreadable reason) => .error (.unreadable reason)
    | none => .error (if d.isFolder p then .isFolder else .notFound)

/-- Replaces or adds a file; its folder must be there. -/
def write (d : Directory) (path text : String) : Except FileError Directory :=
  match d.locate path with
  | .error e => .error e
  | .ok p => if d.isFolder p then .error .isFolder else .ok (d.setFile p text)

/-- Adds a folder, unless it is there already; the one that holds it must be there. -/
def ensureFolder (d : Directory) (start : Path) (parts : List String) :
    Except FileError Directory :=
  match d.walk start parts with
  | .error e => .error e
  | .ok p =>
    if d.isFolder p then .ok d
    else if (d.file? p).isSome then .error .alreadyExists
    else .ok { d with folders := d.folders ++ [p] }

/-- A directory with folders added until one could not be. -/
structure Made where
  directory : Directory
  error : Option FileError

/-- Makes a folder. If the one that holds it is missing, goes on from what making
that one gave. -/
def makeAfter (d : Directory) (start : Path) (parts : List String) (above : Made) : Made :=
  match d.ensureFolder start parts with
  | .ok d' => ⟨d', none⟩
  | .error .notFound =>
    match above.error with
    | some _ => above
    | none =>
      match above.directory.ensureFolder start parts with
      | .ok d' => ⟨d', none⟩
      | .error e => ⟨above.directory, some e⟩
  | .error e => ⟨d, some e⟩

/-- Makes a folder with its parents; its components stand innermost first. -/
def makeFolders (d : Directory) (start : Path) : List String → Made
  | [] => ⟨d, none⟩
  | part :: parts => makeAfter d start (part :: parts).reverse (makeFolders d start parts)

/-- Makes a folder with its parents; the empty path is the working folder. A dot
is no name of a folder, so a path that ends with one names no folder to make. -/
def makeFolder (d : Directory) (path : String) : Made :=
  match Path.fault? path with
  | some e => ⟨d, some e⟩
  | none =>
    let (start, parts) := Path.components path
    let names := parts.filter (fun p => p ≠ "" ∧ p ≠ ".")
    makeAfter d start (parts.filter (· ≠ "")) (makeFolders d start names.reverse.tail)

/-- The texts that differ from those of an earlier state. -/
def changedFiles (earlier later : Directory) : List (Path × String) :=
  later.files.filterMap fun (p, content) =>
    match content with
    | .text text => if earlier.file? p = some (.text text) then none else some (p, text)
    | .unreadable _ => none

/-- The folders that an earlier state did not have. -/
def newFolders (earlier later : Directory) : List Path :=
  later.folders.filter fun p => !earlier.folders.contains p

end Directory
end InputGuard.CommandLine
