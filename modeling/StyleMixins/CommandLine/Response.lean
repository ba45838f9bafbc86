import StyleMixins.CommandLine.Display
import StyleMixins.CommandLine.Request
import StyleMixins.Options.File
import StyleMixins.Pipeline

namespace StyleMixins.CommandLine

structure Response where
  status : Nat := 0
  printed : String := ""
  /-- A file to be written: its path and its text. -/
  written : Option (String × String) := none
  complaint : String := ""
  deriving DecidableEq, Repr

namespace Response

def failed (complaint : String) : Response :=
  { status := 1, complaint := complaint }

def badCommandLine : Response :=
  { status := 2, complaint := "bad command line" }

end Response

inductive Trouble where
  | input (path cause : String)
  | output (path : String)
  | error (e : Error)
  | exhausted

def Trouble.message : Trouble → String
  | input path cause => "cannot read " ++ path ++ ": " ++ cause
  | output path => "cannot write " ++ path
  | error e => e.message
  | exhausted => "expansion does not end"

structure Surroundings where
  host : Host
  canWrite : String → Bool
  colored : Bool
  /-- At most so many calls are expanded. -/
  budget : Nat

def Input.options (i : Input) (host : Host) : Except Error Options := do
  let o ← match i.config with
    | some path => Options.ofFile host path
    | none => pure {}
  return { o with
    directories := o.directories ++ i.directories
    patterns := o.patterns ++ i.patterns
    silent := o.silent || i.silent
    maxDepth := if i.noDepthLimit then none else i.maxDepth.or o.maxDepth }

namespace Surroundings

/-- Reads the style sheet before the options. -/
def read (s : Surroundings) (i : Input) (trace : Bool) : Except Trouble (SourceText × Pipeline) :=
  match s.host.read i.file with
  | .error cause => .error (.input i.file cause)
  | .ok text =>
    match i.options s.host with
    | .error e => .error (.error e)
    | .ok o => .ok (⟨i.file, text⟩, ⟨o, trace, s.budget⟩)

def definitions (s : Surroundings) (source : SourceText) (p : Pipeline) :
    Except Error (Tree × Registry) := do
  let t ← Sheet.parseTree source
  let prepared := p.prepare s.host t
  return (prepared.tree, ← prepared.outcome)

def expand (s : Surroundings) (i : Input) (output : Option String) : Except Trouble Response := do
  let (source, p) ← s.read i false
  match p.processText s.host source with
  | .error (.error e) => throw (.error e)
  | .error .exhausted => throw .exhausted
  | .ok result =>
    match output with
    | none => return { printed := result.css }
    | some path =>
      if s.canWrite path then return { written := some (path, result.css) }
      else throw (.output path)

def trace (s : Surroundings) (i : Input) : Except Trouble Response := do
  let (source, p) ← s.read i true
  match s.definitions source p with
  | .error e => throw (.error e)
  | .ok (t, registry) =>
    match Expansion.expand (p.context registry) s.budget t with
    | .finished _ report =>
      return { printed := traceText s.colored (Expansion.snapshot t Tree.root) report.trace }
    | .failed _ e => throw (.error e)
    | .unfinished _ => throw .exhausted

def list (s : Surroundings) (i : Input) : Except Trouble Response := do
  let (source, p) ← s.read i false
  match s.definitions source p with
  | .error e => throw (.error e)
  | .ok (_, registry) => return { printed := listing s.colored registry }

end Surroundings

def versionText : String :=
  "sassy 0.1.0\n"

def helpText : String :=
  "Expand Sass-style @mixin / @include in style sheets.\n\n" ++
  "Usage: sassy <expand|trace|list> [OPTIONS] <FILE>\n\n" ++
  "Options:\n" ++
  "  -c, --config <CONFIG>      Options file (.json, .yaml or .yml)\n" ++
  "      --mixins-dir <DIR>     Directory of mixin data files. Repeatable\n" ++
  "      --mixins-files <GLOB>  Glob pattern of mixin data files. Repeatable\n" ++
  "      --silent               Drop calls to undefined mixins instead of failing\n" ++
  "      --max-depth <N>        Maximum nesting depth of expansions\n" ++
  "      --no-depth-limit       Disable the expansion depth guard\n" ++
  "  -o, --output <OUTPUT>      Write the result to this file instead of stdout (expand)\n" ++
  "  -h, --help                 Print help\n" ++
  "  -V, --version              Print version\n"

def Surroundings.answer (s : Surroundings) : Request → Except Trouble Response
  | .version => .ok { printed := versionText }
  | .help => .ok { printed := helpText }
  | .expand i output => s.expand i output
  | .trace i => s.trace i
  | .list i => s.list i

def Surroundings.respond (s : Surroundings) (args : List String) : Response :=
  match Request.parse args with
  | none => .badCommandLine
  | some request =>
    match s.answer request with
    | .ok response => response
    | .error trouble => .failed trouble.message

end StyleMixins.CommandLine
