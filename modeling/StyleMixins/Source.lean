namespace StyleMixins

structure SourceText where
  name : String
  content : String
  deriving DecidableEq, Repr

def SourceText.fallback (context : String) : SourceText :=
  ⟨"fallback", "/* " ++ context ++ " */"⟩

/-- Byte offsets into a text, the end excluded. -/
structure Span where
  start : Nat
  stop : Nat
  deriving DecidableEq, Repr

/-- A span of a text, with the line and column of its first character, both counted from one. -/
structure Source where
  file : SourceText
  span : Span
  line : Nat
  column : Nat
  deriving DecidableEq, Repr

def Source.describe (s : Source) : String :=
  s.file.name ++ ":" ++ toString s.line ++ ":" ++ toString s.column

end StyleMixins
