import StyleMixins.Entries
import StyleMixins.Files.Path

namespace StyleMixins

inductive FileEntry where
  | file (bytes : ByteArray)
  | directory (entries : List (String × FileEntry))

inductive ReadFault where
  | notFound
  | notDirectory
  | isDirectory
  | notText
  deriving DecidableEq, Repr

def ReadFault.message : ReadFault → String
  | notFound => "No such file or directory (os error 2)"
  | notDirectory => "Not a directory (os error 20)"
  | isDirectory => "Is a directory (os error 21)"
  | notText => "stream did not contain valid UTF-8"

namespace FileEntry

def at? (e : FileEntry) : List String → Option FileEntry
  | [] => some e
  | name :: rest =>
    match e with
    | file _ => none
    | directory entries => (Entries.find? entries name).bind (·.at? rest)

def put (e new : FileEntry) : List String → FileEntry
  | [] => new
  | name :: rest =>
    let entries := match e with
      | file _ => []
      | directory entries => entries
    let below := (Entries.find? entries name).getD (directory [])
    directory (Entries.put entries name (below.put new rest))

mutual

def height : FileEntry → Nat
  | file _ => 0
  | directory entries => heightAll entries + 1

def heightAll : List (String × FileEntry) → Nat
  | [] => 0
  | (_, e) :: rest => max e.height (heightAll rest)

end

end FileEntry

/-- A root directory, and the place in it where relative paths start. -/
structure FileSystem where
  root : FileEntry := .directory []
  workingDirectory : List String := []

namespace FileSystem

def stepFrom (fs : FileSystem) (place : List String) (part : String) : Except ReadFault (List String) :=
  match fs.root.at? place with
  | none => .error .notFound
  | some (.file _) => .error .notDirectory
  | some (.directory entries) =>
    if part.isEmpty || part == "." then .ok place
    else if part == ".." then .ok place.dropLast
    else if (Entries.find? entries part).isSome then .ok (place ++ [part])
    else .error .notFound

/-- The place that a path names, every part of it existing. -/
def locate (fs : FileSystem) (path : String) : Except ReadFault (List String) :=
  if path.isEmpty then .error .notFound
  else
    let start := if Path.isAbsolute path then [] else fs.workingDirectory
    (Path.parts path).foldlM fs.stepFrom start

def entry? (fs : FileSystem) (path : String) : Option FileEntry :=
  match fs.locate path with
  | .ok place => fs.root.at? place
  | .error _ => none

def has (fs : FileSystem) (path : String) : Bool :=
  (fs.entry? path).isSome

def isDirectory (fs : FileSystem) (path : String) : Bool :=
  match fs.entry? path with
  | some (.directory _) => true
  | _ => false

def isFile (fs : FileSystem) (path : String) : Bool :=
  match fs.entry? path with
  | some (.file _) => true
  | _ => false

/-- The names in a directory by rising code points; none if it is no directory. -/
def names (fs : FileSystem) (path : String) : List String :=
  match fs.entry? path with
  | some (.directory entries) => (entries.map Prod.fst).mergeSort fun a b => decide (a ≤ b)
  | _ => []

def read (fs : FileSystem) (path : String) : Except ReadFault String :=
  match fs.locate path with
  | .error e => .error e
  | .ok place =>
    match fs.root.at? place with
    | none => .error .notFound
    | some (.directory _) => .error .isDirectory
    | some (.file bytes) =>
      match String.fromUTF8? bytes with
      | some text => .ok text
      | none => .error .notText

/-- Writes a file into an existing directory; `none` if that cannot be done. -/
def write? (fs : FileSystem) (path text : String) : Option FileSystem :=
  let parts := Path.parts path
  let name := parts.getLast?.getD ""
  let start := if Path.isAbsolute path then [] else fs.workingDirectory
  if name.isEmpty || name == "." || name == ".." then none
  else
    match parts.dropLast.foldlM fs.stepFrom start with
    | .error _ => none
    | .ok place =>
      match fs.root.at? place with
      | some (.directory entries) =>
        match Entries.find? entries name with
        | some (.directory _) => none
        | _ => some { fs with root := fs.root.put (.file text.toUTF8) (place ++ [name]) }
      | _ => none

/-- Adds an entry at a place. A directory that is there already keeps what it holds. -/
def addAt (fs : FileSystem) (place : List String) (e : FileEntry) : FileSystem :=
  match e, fs.root.at? place with
  | .directory [], some (.directory _) => fs
  | _, _ => { fs with root := fs.root.put e place }

def place (fs : FileSystem) (path : String) : List String :=
  (Path.parts path).foldl
    (fun place part =>
      if part.isEmpty || part == "." then place
      else if part == ".." then place.dropLast
      else place ++ [part])
    (if Path.isAbsolute path then [] else fs.workingDirectory)

def add (fs : FileSystem) (path : String) (e : FileEntry) : FileSystem :=
  fs.addAt (fs.place path) e

end FileSystem

end StyleMixins
