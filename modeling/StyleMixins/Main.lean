import StyleMixins.CommandLine.Response
import StyleMixins.Files.Host

namespace StyleMixins.CommandLine

/-- Where a pattern has to be looked up, and how many directories deep. A recursive part ends at
`deepest`. -/
def patternExtent (pattern : String) : String × Nat :=
  let isFixed := fun (part : String) => !part.toList.any fun c => c == '*' || c == '?' || c == '['
  let parts := Path.parts pattern
  let fixed := parts.takeWhile isFixed
  let rest := parts.dropWhile isFixed
  let deepest := 64
  let top := "/".intercalate fixed
  let path := if Path.isAbsolute pattern && top.isEmpty then "/" else if top.isEmpty then "." else top
  (path, if rest.contains "**" then deepest else rest.length)

/-- Adds what lies at a path, with directories down to a depth. What cannot be read is left out. -/
def capture (depth : Nat) (path : String) (fs : FileSystem) : IO FileSystem := do
  let here := (← IO.currentDir) / path
  if ← here.isDir then
    let fs := fs.add path (.directory [])
    match depth with
    | 0 => return fs
    | depth + 1 =>
      let names := (← here.readDir).map (·.fileName)
      names.foldlM (fun fs name => capture depth (Path.join path name) fs) fs
  else
    try
      return fs.add path (.file (← IO.FS.readBinFile here))
    catch _ => return fs

def captureOptions (o : Options) (fs : FileSystem) : IO FileSystem := do
  let fs ← o.directories.foldlM (fun fs path => capture 1 path fs) fs
  o.patterns.foldlM (fun fs pattern =>
    let (path, depth) := patternExtent pattern
    capture depth path fs) fs

def captureInput (i : Input) (fs : FileSystem) : IO FileSystem := do
  let fs ← capture 0 i.file fs
  let fs ← match i.config with
    | some path => capture 0 path fs
    | none => pure fs
  match i.options fs.host with
  | .ok o => captureOptions o fs
  | .error _ => return fs

def captureRequest (request : Option Request) (fs : FileSystem) : IO FileSystem := do
  match request with
  | some (.expand i output) =>
    let fs ← captureInput i fs
    match output with
    | some path =>
      let fs ← capture 0 (match Path.parent? path with
        | some "" | none => "."
        | some parent => parent) fs
      capture 0 path fs
    | none => return fs
  | some (.trace i) | some (.list i) => captureInput i fs
  | _ => return fs

def wantsColor : IO Bool := do
  let plain := match ← IO.getEnv "TERM" with
    | some name => name == "dumb"
    | none => true
  return !plain && (← IO.getEnv "NO_COLOR").isNone

def Response.carryOut (r : Response) : IO UInt32 := do
  if !r.complaint.isEmpty then
    IO.eprintln r.complaint
  IO.print r.printed
  match r.written with
  | none => return r.status.toUInt32
  | some (path, text) =>
    try
      IO.FS.writeFile path text
      return r.status.toUInt32
    catch _ =>
      IO.eprintln (Trouble.message (.output path))
      return 1

end StyleMixins.CommandLine

open StyleMixins CommandLine in
def main (args : List String) : IO UInt32 := do
  let workingDirectory := (Path.parts (← IO.currentDir).toString).filter (!·.isEmpty)
  let fs : FileSystem := { workingDirectory := workingDirectory }
  let fs ← captureRequest (Request.parse args) (fs.addAt workingDirectory (.directory []))
  let surroundings : Surroundings :=
    ⟨fs.host, fun path => (fs.write? path "").isSome, ← wantsColor, Nat.pow 2 60⟩
  (surroundings.respond args).carryOut
