import StyleMixins.Files.Glob
import StyleMixins.Host
import StyleMixins.Record.Json
import StyleMixins.Yaml.Resolve

namespace StyleMixins.FileSystem

variable (fs : FileSystem)

def text (path : String) : Except String String :=
  (fs.read path).mapError ReadFault.message

def found (path : String) : Found :=
  ⟨path, Path.stem? path, Path.extension? path, fs.isFile path, fs.text path⟩

/-- A machine with the files of a file system. Every entry of a directory can be read. -/
def host : Host where
  isDirectory := fs.isDirectory
  entries path := (fs.names path).map fun name => .ok (fs.found (Path.join path name))
  glob pattern :=
    match Files.Glob.paths fs pattern with
    | .error fault => .error fault.message
    | .ok paths => .ok (paths.map fun path => .ok (fs.found path))
  read := fs.text
  json text := (Json.read text).mapError Json.Fault.message
  yaml text :=
    match Yaml.read text with
    | some v => .ok v
    | none => .error "not a YAML document"

end StyleMixins.FileSystem
