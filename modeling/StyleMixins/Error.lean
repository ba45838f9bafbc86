import StyleMixins.Source

namespace StyleMixins

inductive Error where
  /-- The head of a definition or a call has no well-formed list in parentheses. -/
  | malformedList (rule : String) (source : Option Source)
  | undefined (name : String) (source : Option Source)
  /-- A data file, directory or pattern cannot be used. -/
  | unloadable (path reason : String) (cause : Option String)
  /-- A call lies deeper than the limit allows. -/
  | tooDeep (name : String) (limit : Nat) (source : Option Source)
  | unparsable (reason : String) (file : SourceText) (span : Span)
  | badOptions (path reason : String)
  | callback (name reason : String)
  deriving DecidableEq, Repr

structure Label where
  offset : Nat
  length : Nat
  text : String
  deriving DecidableEq, Repr

namespace Error

def category : Error → String
  | malformedList .. => "Syntax"
  | undefined .. => "UndefinedMixin"
  | unloadable .. => "Load"
  | tooDeep .. => "RecursionLimit"
  | unparsable .. => "Parse"
  | badOptions .. => "Config"
  | callback .. => "Callback"

def code : Error → String
  | malformedList .. => "sassy::syntax"
  | undefined .. => "sassy::undefined_mixin"
  | unloadable .. => "sassy::load"
  | tooDeep .. => "sassy::recursion_limit"
  | unparsable .. => "sassy::parse"
  | badOptions .. => "sassy::config"
  | callback .. => "sassy::callback"

def message : Error → String
  | malformedList rule _ => "Syntax error in `" ++ rule ++ "`"
  | undefined name _ => "Undefined mixin " ++ name
  | unloadable path reason _ => "Failed to load mixins from " ++ path ++ ": " ++ reason
  | tooDeep name limit _ =>
    "Mixin `" ++ name ++ "` exceeded the expansion depth limit of " ++ toString limit
  | unparsable reason _ _ => "Parse error: " ++ reason
  | badOptions path reason => "Invalid configuration in " ++ path ++ ": " ++ reason
  | callback name reason => "Mixin `" ++ name ++ "` failed: " ++ reason

def help : Error → Option String
  | malformedList .. =>
    some "argument lists must be wrapped in parentheses, e.g. `name($a, $b: 1)`"
  | undefined name _ =>
    some ("define it with `@mixin " ++ name ++
      " \x7b ... \x7d`, load it from a mixins directory, or enable `silent`")
  | tooDeep .. => some "a mixin that includes itself, directly or indirectly, never terminates"
  | _ => none

def cause : Error → Option String
  | unloadable _ _ cause => cause
  | _ => none

/-- The text that an error points into. One without a place points into a stand-in. -/
def file : Error → Option SourceText
  | malformedList _ source | undefined _ source | tooDeep _ _ source =>
    some ((source.map Source.file).getD (SourceText.fallback "no source available"))
  | unparsable _ file _ => some file
  | _ => none

def span : Error → Option Span
  | malformedList _ source | undefined _ source | tooDeep _ _ source =>
    some ((source.map Source.span).getD ⟨0, 0⟩)
  | unparsable _ _ span => some span
  | _ => none

def remark : Error → String
  | malformedList .. => "malformed argument list"
  | undefined name _ => "no mixin named `" ++ name ++ "`"
  | tooDeep .. => "included here"
  | unparsable .. => "here"
  | _ => ""

def label (e : Error) : Option Label :=
  e.span.map fun span => ⟨span.start, span.stop - span.start, e.remark⟩

end Error

end StyleMixins
