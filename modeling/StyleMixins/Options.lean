import StyleMixins.Expansion.Run
import StyleMixins.Files.Path

namespace StyleMixins

structure Options where
  /-- Directories whose data files each define a mixin. -/
  directories : List String := []
  /-- Patterns whose matches each define a mixin. -/
  patterns : List String := []
  mixins : List (String × Definition) := []
  silent : Bool := false
  maxDepth : Option Nat := some Expansion.defaultDepth

namespace Options

def settings (o : Options) (trace : Bool) : Expansion.Settings :=
  ⟨o.silent, o.maxDepth, trace⟩

inductive Field where
  | directories
  | patterns
  | mixins
  | silent
  | maxDepth
  deriving DecidableEq, Repr

namespace Field

def all : List Field :=
  [directories, patterns, mixins, silent, maxDepth]

def name : Field → String
  | directories => "mixinsDir"
  | patterns => "mixinsFiles"
  | mixins => "mixins"
  | silent => "silent"
  | maxDepth => "maxDepth"

def ofName? (name : String) : Option Field :=
  all.find? fun f => f.name == name

end Field

def texts? : Value → Option (List String)
  | .text s => some [s]
  | .list items => items.mapM fun item => match item with
    | .text s => some s
    | _ => none
  | _ => none

/-- The mixins of a record of records; else the first entry that is no record. -/
def recordMixins : List (String × Value) → Except (String × Value) (List (String × Definition))
  | [] => .ok []
  | (name, .record fields) :: rest => (recordMixins rest).map ((name, .record fields) :: ·)
  | (name, other) :: _ => .error (name, other)

def relativeTo (o : Options) (base : String) : Options :=
  { o with
    directories := o.directories.map (Path.join base)
    patterns := o.patterns.map (Path.join base) }

end Options

end StyleMixins
