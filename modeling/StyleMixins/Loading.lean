import StyleMixins.Files.Path
import StyleMixins.Host
import StyleMixins.Options

namespace StyleMixins.Loading

def unsupported : String :=
  "unsupported file type, expected .json, .yaml or .yml"

def format? (f : Found) : Option String :=
  f.extension.map Path.lowerExtension

def isDataFile (f : Found) : Bool :=
  match format? f with
  | some format => format == "json" || format == "yaml" || format == "yml"
  | none => false

def dataValue (host : Host) (f : Found) (text : String) : Except Error Value :=
  match format? f with
  | none => .error (.unloadable f.path unsupported none)
  | some format =>
    if format == "json" then
      match host.json text with
      | .ok v => .ok v
      | .error cause => .error (.unloadable f.path "invalid JSON" (some cause))
    else if format == "yaml" || format == "yml" then
      match host.yaml text with
      | .ok v => .ok v
      | .error cause => .error (.unloadable f.path "invalid YAML" (some cause))
    else .error (.unloadable f.path unsupported none)

def file (host : Host) (f : Found) : Except Error (String × Record) :=
  match f.stem with
  | none => .error (.unloadable f.path "file name is not valid UTF-8" none)
  | some name =>
    match f.text with
    | .error cause => .error (.unloadable f.path "cannot read file" (some cause))
    | .ok text =>
      match dataValue host f text with
      | .error e => .error e
      | .ok (.record fields) => .ok (name, fields)
      | .ok _ => .error (.unloadable f.path "top level must be a mapping" none)

/-- What an entry of a directory adds. Directories and files of other kinds are passed over. -/
def entry (host : Host) (path : String) : Except String Found → Except Error (List (String × Record))
  | .error cause => .error (.unloadable path "cannot read directory" (some cause))
  | .ok f => if f.isFile && isDataFile f then (file host f).map fun mixin => [mixin] else .ok []

def directory (host : Host) (path : String) : Except Error (List (String × Record)) :=
  if host.isDirectory path then ((host.entries path).mapM (entry host path)).map List.flatten
  else .error (.unloadable path "not a readable directory" none)

/-- What a match of a pattern adds. A file must be a data file. -/
def matched (host : Host) (text : String) : Except String Found → Except Error (List (String × Record))
  | .error cause => .error (.unloadable text "cannot read match" (some cause))
  | .ok f =>
    if !f.isFile then .ok []
    else if isDataFile f then (file host f).map fun mixin => [mixin]
    else .error (.unloadable f.path unsupported none)

def pattern (host : Host) (text : String) : Except Error (List (String × Record)) :=
  match host.glob text with
  | .error cause => .error (.unloadable text "invalid glob pattern" (some cause))
  | .ok found => (found.mapM (matched host text)).map List.flatten

/-- All mixins that the options name: those of the directories, then those of the patterns, then those given
with the options. -/
def definitions (host : Host) (o : Options) : Except Error (List (String × Definition)) := do
  let inDirectories ← o.directories.mapM (directory host)
  let inPatterns ← o.patterns.mapM (pattern host)
  let records := (inDirectories ++ inPatterns).flatten
  return records.map (fun (name, fields) => (name, .record fields)) ++ o.mixins

structure Loaded where
  registry : Registry
  outcome : Except Error Nat

/-- Adds all mixins that the options name; the outcome is their number. When one cannot be loaded none is
added. -/
def load (host : Host) (o : Options) (registry : Registry) : Loaded :=
  match definitions host o with
  | .error e => ⟨registry, .error e⟩
  | .ok found => ⟨found.foldl (fun r (name, d) => r.put name d) registry, .ok found.length⟩

end StyleMixins.Loading
