import RealTime.Text.Utf8

/-! # Files and directories

A tree of directories and regular files, as far as it matters for regions of shared memory:
a path names nothing, a directory, or a file.  A file is known by a number that it keeps when
its name is removed, so that whoever holds it open can go on using it.

A path is a list of names.  Walking a path fails at the first name that is missing or that is
not a directory although more names follow. -/

namespace RealTime

/-- Why a file or directory cannot be used. -/
inductive FileFault where
  | missing
  | exists
  | notDirectory
  | isDirectory
  /-- A length that does not fit a signed 64-bit word. -/
  | lengthOutOfRange
  /-- A region needs at least one byte. -/
  | emptyRegion
  /-- Contents that are not UTF-8. -/
  | notText
  /-- A fault known only by its description. -/
  | described (text : String)
  deriving DecidableEq, Repr

/-- The wording of a fault. -/
def FileFault.message : FileFault → String
  | missing => "No such file or directory (os error 2)"
  | FileFault.exists => "File exists (os error 17)"
  | notDirectory => "Not a directory (os error 20)"
  | isDirectory => "Is a directory (os error 21)"
  | lengthOutOfRange => "out of range integral type conversion attempted"
  | emptyRegion => "cannot map an empty region"
  | notText => "stream did not contain valid UTF-8"
  | described text => text

/-- The text of a file, given its octets if there is such a file. -/
def readText (contents : Option (List UInt8)) : Except FileFault String :=
  match contents with
  | none => .error .missing
  | some octets =>
    match Utf8.read? octets with
    | some cs => .ok (String.ofList cs)
    | none => .error .notText

/-- What a path can name. -/
inductive FileEntry where
  | directory
  | file (number : Nat)
  deriving DecidableEq, Repr

/-- The directories and files that exist, each under its full path. -/
structure FileTree where
  entries : List (List String × FileEntry)

namespace FileTree

/-- The names of a written path. -/
def splitPath (path : String) : List String :=
  ((path.toList.splitOn '/').map String.ofList).filter (fun name => name != "" && name != ".")

/-- The tree with nothing but one directory. -/
def root (path : String) : FileTree := ⟨[(splitPath path, .directory)]⟩

/-- What stands under a full path. -/
def entry? (t : FileTree) (path : List String) : Option FileEntry := t.entries.lookup path

/-- Walk the names of a path from a directory.  The answer is the full path of the last name and
what stands there. -/
def walk (t : FileTree) (here : List String) :
    List String → Except FileFault (List String × Option FileEntry)
  | [] => .ok (here, some .directory)
  | [name] =>
    let there := if name = ".." then here.dropLast else here ++ [name]
    .ok (there, if name = ".." then some .directory else t.entry? there)
  | name :: rest =>
    let there := if name = ".." then here.dropLast else here ++ [name]
    if name = ".." then walk t there rest
    else
      match t.entry? there with
      | some .directory => walk t there rest
      | some (.file _) => .error .notDirectory
      | none => .error .missing

/-- Find what a written path names. -/
def locate (t : FileTree) (path : String) : Except FileFault (List String × Option FileEntry) :=
  walk t [] (splitPath path)

/-- Whether a path names a file or a directory. -/
def holds (t : FileTree) (path : String) : Bool :=
  match t.locate path with
  | .ok (_, some _) => true
  | _ => false

/-- The file that a path names. -/
def openFile (t : FileTree) (path : String) : Except FileFault Nat :=
  match t.locate path with
  | .ok (_, some (.file n)) => .ok n
  | .ok (_, some .directory) => .error .isDirectory
  | .ok (_, none) => .error .missing
  | .error fault => .error fault

/-- Open the file that a path names for writing it anew.  If there is none, the file `fresh` is
put there. -/
def createFile (t : FileTree) (path : String) (fresh : Nat) : Except FileFault (Nat × FileTree) :=
  match t.locate path with
  | .ok (_, some (.file n)) => .ok (n, t)
  | .ok (_, some .directory) => .error .isDirectory
  | .ok (there, none) => .ok (fresh, ⟨(there, .file fresh) :: t.entries⟩)
  | .error fault => .error fault

/-- Remove the name of a file.  A missing name is no failure. -/
def removeFile (t : FileTree) (path : String) : FileTree :=
  match t.locate path with
  | .ok (there, some (.file _)) => ⟨t.entries.filter (fun e => e.1 != there)⟩
  | _ => t

/-- Make one directory. -/
def makeDirectory (t : FileTree) (path : List String) : Except FileFault FileTree :=
  match walk t [] path with
  | .ok (_, some _) => .error .exists
  | .ok (there, none) => .ok ⟨(there, .directory) :: t.entries⟩
  | .error fault => .error fault

/-- Whether a path names a directory. -/
def isDirectory (t : FileTree) (path : List String) : Bool :=
  match walk t [] path with
  | .ok (_, some .directory) => true
  | _ => false

/-- Make a directory unless it is there already. -/
def ensureDirectory (t : FileTree) (path : List String) : Except FileFault FileTree :=
  match t.makeDirectory path with
  | .ok t => .ok t
  | .error fault => if t.isDirectory path then .ok t else .error fault

/-- Make a directory and those above it, given as the names of its path from the last one
upwards. -/
def ensureUpward (t : FileTree) : List String → Except FileFault FileTree
  | [] => .ok t
  | name :: above =>
    let path := (name :: above).reverse
    match t.makeDirectory path with
    | .ok t => .ok t
    | .error .missing => do (← t.ensureUpward above).ensureDirectory path
    | .error fault => if t.isDirectory path then .ok t else .error fault

/-- Make a directory and those above it. -/
def ensureDirectories (t : FileTree) (path : String) : Except FileFault FileTree :=
  t.ensureUpward (splitPath path).reverse

end FileTree

end RealTime
