import StyleMixins.Files.Path
import StyleMixins.Host
import StyleMixins.Options.Json
import StyleMixins.Options.Yaml

namespace StyleMixins.Options

def ofText (path text : String) : Except Error Options :=
  let isYaml := fun (extension : String) => extension == "yaml" || extension == "yml"
  match (Path.extension? path).map Path.lowerExtension with
  | none => .error (.badOptions path "unsupported format, expected .json, .yaml or .yml")
  | some extension =>
    if extension == "json" then
      match Json.read text with
      | .ok o => .ok o
      | .error fault => .error (.badOptions path fault.message)
    else if isYaml extension then
      match Yaml.read text with
      | some o => .ok o
      | none => .error (.badOptions path "invalid YAML")
    else .error (.badOptions path "unsupported format, expected .json, .yaml or .yml")

/-- The options in a file. Its directories and patterns are relative to the directory of the file. -/
def ofFile (host : Host) (path : String) : Except Error Options :=
  match host.read path with
  | .error cause => .error (.badOptions path ("cannot read file: " ++ cause))
  | .ok text =>
    match ofText path text with
    | .error e => .error e
    | .ok o =>
      match Path.parent? path with
      | some base => .ok (o.relativeTo base)
      | none => .ok o

end StyleMixins.Options
