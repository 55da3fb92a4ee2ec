import HorizonPlanner.StandIn.Tool
import HorizonPlanner.SystemFault

/-!
# A folder in memory

A folder of files that can be read, replaced and added to without touching a disk, in the place of a
machine. Around it there are the usual directories, with only the programs that are described by
rules, and a few devices. Paths are followed name by name: every name but the last one has to be
that of a directory.
-/

namespace HorizonPlanner.StandIn

open CommandLine

/-- A folder: names with contents. -/
structure Folder where
  /-- The files. -/
  files : List (String × List UInt8)
  deriving DecidableEq, Repr

/-- Files that are no storage. -/
inductive Device
  /-- Holds nothing, and swallows all it is given. -/
  | null
  /-- Takes nothing. -/
  | full
  /-- The input. -/
  | input
  /-- The terminal. -/
  | output
  /-- Where errors are shown. -/
  | errors
  deriving DecidableEq, Repr

/-- The names of the devices. -/
def Device.names : List (String × Device) :=
  [("null", .null), ("full", .full), ("stdin", .input), ("stdout", .output), ("stderr", .errors)]

/-- What a path leads to. -/
inductive Place
  /-- The folder itself. -/
  | home
  /-- Another directory, by the names that lead to it from the root. -/
  | directory (names : List String)
  /-- A file of the folder. -/
  | file (name : String) (bytes : List UInt8)
  /-- A program. -/
  | program (name : String) (kind : Tool.Kind)
  /-- A device. -/
  | device (name : String) (device : Device)
  deriving DecidableEq, Repr

namespace Folder

/-! ### Places -/

/-- The content of a file of the folder. -/
def content? (f : Folder) (name : String) : Option (List UInt8) :=
  (f.files.find? (·.1 == name)).map (·.2)

/-- The directory with the programs. -/
def programs : List String := ["usr", "bin"]

/-- The directory with the devices. -/
def devices : List String := ["dev"]

/-- The directory that holds the folder. -/
def surroundings : List String := ["tmp"]

/-- The directories outside the folder that are sure to exist. -/
def directories : List (List String) :=
  [[], ["boot"], devices, ["etc"], ["home"], ["media"], ["mnt"], ["opt"],
    ["proc"], ["root"], ["run"], ["srv"],
    ["sys"], surroundings, ["usr"], programs, ["usr", "lib"], ["usr", "local"],
      ["usr", "sbin"], ["usr", "share"],
    ["var"], ["var", "tmp"]]

/-- The names in the root that stand for directories in `usr`. -/
def aliases : List String := ["bin", "lib", "sbin"]

/-- What is found in a directory outside the folder under a name. -/
def outside? (directory : List String) (name : String) : Option Place :=
  if directory = [] ∧ name ∈ aliases then some (.directory ["usr", name])
  else if directory ++ [name] ∈ directories then some (.directory (directory ++ [name]))
  else if directory = programs then (Tool.named? name).map (.program name)
  else if directory = devices then ((Device.names.find? (·.1 == name)).map (·.2)).map (.device name)
  else none

/-- What is found in the folder under a name. -/
def inside? (f : Folder) (name : String) : Option Place :=
  (f.content? name).map (.file name)

/-! ### Following paths -/

/-- The largest number of bytes of a name. -/
def nameLimit : Nat := 255

/-- The largest number of bytes of a path that is used to open a file. -/
def pathLimit : Nat := 4095

/-- What is found under a name, where a directory is needed. Nothing may be there. -/
def lookUp (f : Folder) (place : Place) (name : String) : Except SystemFault (Option Place) :=
  let found (place? : Option Place) : Except SystemFault (Option Place) :=
    if nameLimit < name.utf8ByteSize then .error .nameTooLong else .ok place?
  match place with
  | .home =>
    if name = "." then .ok (some .home)
    else if name = ".." then .ok (some (.directory surroundings))
    else found (f.inside? name)
  | .directory names =>
    if name = "." then .ok (some (.directory names))
    else if name = ".." then .ok (some (.directory names.dropLast))
    else found (outside? names name)
  | _ => .error .notADirectory

/-- Goes from a place to what is found there under a name. -/
def enter (f : Folder) (place : Place) (name : String) : Except SystemFault Place :=
  match f.lookUp place name with
  | .ok (some next) => .ok next
  | .ok none => .error .missing
  | .error fault => .error fault

/-- The names in a path. -/
def namesOf (path : String) : List String :=
  (path.splitOn "/").filter (· ≠ "")

/-- Where a path begins. -/
def origin (path : String) : Place :=
  if path.toList.head? = some '/' then .directory [] else .home

/-- Whether a path ends with a slash, so that it can only lead to a directory. -/
def endsWithSlash (path : String) : Bool :=
  path.toList.getLast? == some '/'

/-- Follows a path. -/
def follow (f : Folder) (path : String) : Except SystemFault Place :=
  if path = "" then .error .missing
  else
    match (namesOf path).foldlM f.enter (origin path) with
    | .ok place => if endsWithSlash path then f.enter place "." else .ok place
    | .error fault => .error fault

/-- Follows a path in order to open what it leads to. -/
def reach (f : Folder) (path : String) : Except SystemFault Place :=
  if pathLimit < path.utf8ByteSize then .error .nameTooLong else f.follow path

/-! ### Use of places -/

/-- The full path of names. -/
def fullPath (names : List String) : String :=
  "/" ++ "/".intercalate names

/-- The full path of a place, which has to exist. Files of the folder are known by their names. The
input is empty, and what is shown has no path. -/
def locate (f : Folder) (path : String) : Except SystemFault String :=
  match f.follow path with
  | .ok .home => .ok ""
  | .ok (.directory names) => .ok (fullPath names)
  | .ok (.file name _) => .ok name
  | .ok (.program name _) => .ok (fullPath (programs ++ [name]))
  | .ok (.device _ .input) => .ok (fullPath (devices ++ ["null"]))
  | .ok (.device _ .output) | .ok (.device _ .errors) => .error .missing
  | .ok (.device name _) => .ok (fullPath (devices ++ [name]))
  | .error fault => .error fault

/-- The content of a place. A directory can be opened, but reading it fails. -/
def load (f : Folder) (path : String) : Except SystemFault FileContent :=
  match f.reach (if path = "" then "." else path) with
  | .ok .home | .ok (.directory _) => .ok ⟨[], some SystemFault.isDirectory.message⟩
  | .ok (.file _ bytes) => .ok ⟨bytes, none⟩
  | .ok (.program _ _) => .ok ⟨[0x7f, 0x45, 0x4c, 0x46, 0xff], none⟩
  | .ok (.device _ .null) | .ok (.device _ .input) => .ok ⟨[], none⟩
  | .ok (.device _ _) => .error .forbidden
  | .error fault => .error fault

/-- Puts a file into the folder. -/
def put (f : Folder) (name : String) (bytes : List UInt8) : Folder :=
  if (f.content? name).isSome then ⟨f.files.map fun e => if e.1 = name then (name, bytes) else e⟩
  else ⟨f.files ++ [(name, bytes)]⟩

/-- Stores a text at a path, given the place that holds the last name. The result is the folder, and
what is shown on the terminal. Outside the folder files can be made, but are not kept. -/
def storeIn (f : Folder) (place : Place) (name : String) (slash : Bool) (text : List Char) :
    Except SystemFault (Folder × List Char) := do
  let _ ← f.enter place "."
  if slash && name ≠ "." && name ≠ ".." then throw .isDirectory
  match ← f.lookUp place name with
  | some .home | some (.directory _) => throw .isDirectory
  | some (.file name _) => return (f.put name (Report.bytes text), [])
  | some (.program _ _) => throw .forbidden
  | some (.device _ .full) => throw .full
  | some (.device _ .output) => return (f, text)
  | some (.device _ _) => return (f, [])
  | none => return (if place = .home then f.put name (Report.bytes text) else f, [])

/-- Stores a text at a path. -/
def store (f : Folder) (path : String) (text : List Char) :
    Except SystemFault (Folder × List Char) :=
  if path = "" then .error .missing
  else if pathLimit < path.utf8ByteSize then .error .nameTooLong
  else
    match (namesOf path).getLast? with
    | none => .error .isDirectory
    | some name =>
      match (namesOf path).dropLast.foldlM f.enter (origin path) with
      | .ok place => f.storeIn place name (endsWithSlash path) text
      | .error fault => .error fault

/-- What a program finds under the name of a file. -/
def source? (f : Folder) (path : String) : Option Tool.Source :=
  match f.reach path with
  | .ok (.file _ bytes) => some (.content bytes)
  | .ok (.device _ .input) => some .input
  | .ok _ => some (.content [])
  | .error _ => none

/-- Runs the program at a path. Files of the folder are not programs. -/
def launch (f : Folder) (path : String) (arguments : List String) (limit : Option Nat)
    (input : List Char) :
    Launch :=
  match f.reach path with
  | .ok (.program _ kind) => kind.run path f.source? arguments limit input
  | .ok _ => .refused SystemFault.forbidden.message
  | .error fault => .refused fault.message

/-- Runs the program with a name or a path. A name without slashes is that of a program. -/
def launchCommand (f : Folder) (command : String) (arguments : List String) (limit : Option Nat)
    (input : List Char) : Launch :=
  match Tool.named? command with
  | some kind => kind.run command f.source? arguments limit input
  | none =>
    if command.toList.contains '/' then f.launch command arguments limit input
    else .refused SystemFault.missing.message

end Folder

end HorizonPlanner.StandIn
