namespace StyleMixins.Sheet

/-- Byte offset, line and column; lines and columns count from one, and columns count characters. -/
structure Position where
  offset : Nat := 0
  line : Nat := 1
  column : Nat := 1
  deriving DecidableEq, Repr

def Position.after (p : Position) (c : Char) : Position :=
  if c = '\n' then ⟨p.offset + 1, p.line + 1, 1⟩
  else ⟨p.offset + c.utf8Size, p.line, p.column + 1⟩

structure Cursor where
  rest : List Char
  place : Position
  deriving DecidableEq, Repr

/-- Space, tab, carriage return and line feed may stand between any two parts of a statement. -/
def isGapChar (c : Char) : Bool :=
  c == ' ' || c == '\t' || c == '\r' || c == '\n'

/-- What remains of a comment, up to and with its `*/`, and the text after it. -/
def commentEnd : List Char → Option (List Char × List Char)
  | [] => none
  | '*' :: '/' :: rest => some (['*', '/'], rest)
  | c :: rest =>
    match commentEnd rest with
    | some (body, after) => some (c :: body, after)
    | none => none

theorem length_commentEnd {cs body after : List Char} (h : commentEnd cs = some (body, after)) :
    after.length < cs.length := by
  fun_induction commentEnd cs generalizing body after with
  | case1 => simp at h
  | case2 rest =>
    obtain ⟨rfl, rfl⟩ : ['*', '/'] = body ∧ rest = after := by simpa using h
    simp only [List.length_cons]
    omega
  | case3 c rest _ body' after' closed ih =>
    obtain ⟨rfl, rfl⟩ : c :: body' = body ∧ after' = after := by simpa using h
    have := ih closed
    simp only [List.length_cons]
    omega
  | case4 => simp at h

/-- A complete comment at the head, and the text after it. -/
def comment? : List Char → Option (List Char × List Char)
  | '/' :: '*' :: inner =>
    match commentEnd inner with
    | some (body, after) => some ('/' :: '*' :: body, after)
    | none => none
  | _ => none

theorem length_comment?_lt {cs body after : List Char} (h : comment? cs = some (body, after)) :
    after.length < cs.length := by
  unfold comment? at h
  split at h
  · rename_i inner
    split at h
    · rename_i body' after' closed
      obtain ⟨-, rfl⟩ : '/' :: '*' :: body' = body ∧ after' = after := by simpa using h
      have := length_commentEnd closed
      simp only [List.length_cons]
      omega
    · simp at h
  · simp at h

/-- Ignored text at the head, as long as it goes, and the text after it: gap characters and complete
comments. -/
def gap (cs : List Char) : List Char × List Char :=
  match cs with
  | [] => ([], [])
  | c :: rest =>
    if isGapChar c then
      match gap rest with
      | (ignored, left) => (c :: ignored, left)
    else
      match _closed : comment? (c :: rest) with
      | some (body, after) =>
        match gap after with
        | (ignored, left) => (body ++ ignored, left)
      | none => ([], c :: rest)
termination_by cs.length
decreasing_by
  · simp
  · exact length_comment?_lt _closed

theorem length_gap_le (cs : List Char) : (gap cs).2.length ≤ cs.length := by
  fun_induction gap cs with
  | case1 => simp
  | case2 c rest _ ignored left gapRest ih =>
    rw [gapRest] at ih
    simp only [List.length_cons] at ih ⊢
    omega
  | case3 c rest _ body after closed ignored left gapAfter ih =>
    have := length_comment?_lt closed
    rw [gapAfter] at ih
    simp only at ih ⊢
    omega
  | case4 => simp

namespace Cursor

def ofText (text : String) : Cursor :=
  ⟨text.toList, {}⟩

def pass (c : Cursor) (taken rest : List Char) : Cursor :=
  ⟨rest, taken.foldl Position.after c.place⟩

def skip (c : Cursor) : Cursor :=
  c.pass (gap c.rest).1 (gap c.rest).2

def run (p : Char → Bool) (c : Cursor) : List Char × Cursor :=
  (c.rest.takeWhile p, c.pass (c.rest.takeWhile p) (c.rest.dropWhile p))

def char? (ch : Char) (c : Cursor) : Option Cursor :=
  match c.rest with
  | [] => none
  | first :: rest => if first = ch then some (c.pass [first] rest) else none

theorem length_skip_le (c : Cursor) : c.skip.rest.length ≤ c.rest.length :=
  length_gap_le c.rest

theorem length_run_le (p : Char → Bool) (c : Cursor) : (c.run p).2.rest.length ≤ c.rest.length :=
  (List.dropWhile_sublist p).length_le

theorem length_char?_lt {ch : Char} {c d : Cursor} (h : c.char? ch = some d) :
    d.rest.length < c.rest.length := by
  unfold char? at h
  split at h
  · simp at h
  · rename_i first rest hc
    split at h
    · obtain rfl := Option.some.inj h
      simp [pass, hc]
    · simp at h

end Cursor

end StyleMixins.Sheet
