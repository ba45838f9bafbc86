import StyleMixins.Files.FileSystem
import StyleMixins.Files.Pattern

namespace StyleMixins.Files

/-- A path that has been reached: matched, or still to be matched with the patterns for its own name and
for what lies below it. -/
inductive Candidate where
  | matched (path : String)
  | toMatch (path : String) (patterns : List Pattern)

namespace Glob

def child (path name : String) : String :=
  if Path.isHere path then name else Path.join path name

/-- What can be reached from a path by the first pattern. A pattern without choice is followed at once;
`.` and `..` are found only by patterns that start with a dot. -/
def candidates (fs : FileSystem) : List Pattern → String → List Candidate
  | [], _ => []
  | pattern :: rest, path =>
    let reached := fun next =>
      match rest with
      | [] => [Candidate.matched next]
      | _ => candidates fs rest next
    match pattern.literal? with
    | some name =>
      let name := String.ofList name
      let next := child path name
      let known := if name == "." || name == ".." then fs.isDirectory path else fs.has next
      if known then reached next else []
    | none =>
      let dots := match pattern with
        | .char '.' :: _ =>
          ["..", "."].filter fun (dot : String) => fs.isDirectory path && pattern.fits dot.toList
        | _ => []
      dots.flatMap (fun dot => reached (Path.join path dot)) ++
        (fs.names path).map fun name => .toMatch (child path name) (pattern :: rest)

/-- The matches that a candidate leads to. Each step goes down a directory or uses up a pattern, so that
`fuel` can be bounded by their numbers. -/
def visit (fs : FileSystem) (directoriesOnly : Bool) : (fuel : Nat) → Candidate → List String
  | 0, _ => []
  | _ + 1, .matched path => if directoriesOnly && !fs.isDirectory path then [] else [path]
  | fuel + 1, .toMatch path patterns =>
    let here := fun (patterns : List Pattern) =>
      match patterns, Path.fileName? path with
      | pattern :: rest, some name =>
        if !pattern.fits name.toList then []
        else if !rest.isEmpty then (candidates fs rest path).flatMap (visit fs directoriesOnly fuel)
        else if directoriesOnly && !fs.isDirectory path then []
        else [path]
      | _, _ => []
    match patterns with
    | [] => []
    | pattern :: rest =>
      if pattern.isRecursive then
        let left := rest.dropWhile Pattern.isRecursive
        if fs.isDirectory path then
          let below := (candidates fs (pattern :: left) path).flatMap (visit fs directoriesOnly fuel)
          if left.isEmpty then path :: below else here left ++ below
        else here left
      else here patterns

def patternParts (text : String) : List String :=
  let relative := String.ofList (text.toList.dropWhile (· == '/'))
  match (Path.parts relative).reverse with
  | "" :: rest => if rest.isEmpty then [""] else rest.reverse
  | parts => parts.reverse

/-- All paths that match, or what is wrong with the pattern. A slash at the end admits directories
only. -/
def paths (fs : FileSystem) (text : String) : Except PatternFault (List String) := do
  let _ ← Pattern.read text
  let patterns ← (patternParts text).mapM Pattern.read
  let start := if Path.isAbsolute text then "/" else "."
  let fuel := (patterns.length + 1) * (fs.root.height + 2)
  let directoriesOnly := text.toList.getLast? == some '/'
  return (candidates fs patterns start).flatMap (visit fs directoriesOnly fuel)

end Glob

end StyleMixins.Files
