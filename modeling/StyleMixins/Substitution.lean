import StyleMixins.Entries
import StyleMixins.Text.Blank
import StyleMixins.Text.Word
import StyleMixins.Tree.Walk

/-!
References to variables inside a text, and their replacement. A reference is `$(name)`, with blanks
allowed inside the parentheses, or a bare `$name` at the start of the text or after a character that
belongs to no word. A name runs as far as it can. References are found from left to right, and the text
of one is never part of another.
-/

namespace StyleMixins

namespace Substitution

/-- A reference at the head of a text: how it is written, the name it holds, and the text after it. -/
structure Reference where
  written : List Char
  name : List Char
  rest : List Char

def isNameChar (c : Char) : Bool :=
  Text.isWord c || c == '-'

def bare? : List Char → Option Reference
  | '$' :: cs =>
    match cs.takeWhile isNameChar with
    | [] => none
    | name => some ⟨'$' :: name, name, cs.dropWhile isNameChar⟩
  | _ => none

def grouped? : List Char → Option Reference
  | '$' :: '(' :: cs =>
    let inner := cs.dropWhile Text.isBlank
    let name := inner.takeWhile isNameChar
    let after := inner.dropWhile isNameChar
    match name, after.dropWhile Text.isBlank with
    | _ :: _, ')' :: rest =>
      some ⟨'$' :: '(' :: cs.takeWhile Text.isBlank ++ name ++ after.takeWhile Text.isBlank ++ [')'],
        name, rest⟩
    | _, _ => none
  | _ => none

theorem length_dropWhile_le (p : Char → Bool) (cs : List Char) :
    (cs.dropWhile p).length ≤ cs.length :=
  (List.dropWhile_sublist p).length_le

theorem length_rest_lt_of_bare? {cs : List Char} {r : Reference} (h : bare? cs = some r) :
    r.rest.length < cs.length := by
  unfold bare? at h
  split at h
  · rename_i cs
    split at h
    · simp at h
    · obtain rfl := Option.some.inj h
      have := length_dropWhile_le isNameChar cs
      simp only [List.length_cons]
      omega
  · simp at h

theorem length_rest_lt_of_grouped? {cs : List Char} {r : Reference} (h : grouped? cs = some r) :
    r.rest.length < cs.length := by
  unfold grouped? at h
  split at h
  · rename_i cs
    simp only at h
    split at h
    · rename_i rest _ heq
      obtain rfl := Option.some.inj h
      have h1 := length_dropWhile_le Text.isBlank cs
      have h2 := length_dropWhile_le isNameChar (cs.dropWhile Text.isBlank)
      have h3 := length_dropWhile_le Text.isBlank ((cs.dropWhile Text.isBlank).dropWhile isNameChar)
      rw [heq] at h3
      simp only [List.length_cons] at h3 ⊢
      omega
    · simp at h
  · simp at h

/-- A text falls into plain characters and references. -/
inductive Piece where
  | plain (c : Char)
  | reference (written name : List Char)
  deriving DecidableEq, Repr

/-- The pieces of a text, which is the start of the whole one or follows what has been read. -/
def pieces (atStart : Bool) (text : List Char) : List Piece :=
  match text with
  | [] => []
  | c :: cs =>
    match _grouped : grouped? (c :: cs) with
    | some r => .reference r.written r.name :: pieces false r.rest
    | none =>
      match _first : if atStart then bare? (c :: cs) else none with
      | some r => .reference r.written r.name :: pieces false r.rest
      | none =>
        if Text.isWord c then .plain c :: pieces false cs
        else
          match _inner : bare? cs with
          | some r => .plain c :: .reference r.written r.name :: pieces false r.rest
          | none => .plain c :: pieces false cs
termination_by text.length
decreasing_by
  · exact length_rest_lt_of_grouped? _grouped
  · cases atStart with
    | true => exact length_rest_lt_of_bare? _first
    | false => simp at _first
  · simp
  · have := length_rest_lt_of_bare? _inner
    simp only [List.length_cons]
    omega
  · simp

/-- The value of a known name; a reference to an unknown one stays as it is written. -/
def Piece.replace (values : Entries String) : Piece → List Char
  | .plain c => [c]
  | .reference written name =>
    match values.find? (String.ofList name) with
    | some value => value.toList
    | none => written

def replaceAll (values : Entries String) (text : String) : String :=
  String.ofList ((pieces true text.toList).flatMap (Piece.replace values))

/-- A text without `$` is not searched for references. -/
def substitute (values : Entries String) (text : String) : String :=
  if text.toList.contains '$' then replaceAll values text else text

/-- What becomes of a text in a node; one without `$` is left alone. -/
def reword (values : Entries String) (text : String) : String :=
  if text.toList.contains '$' then substitute values text else text

end Substitution

namespace Tree

def mapTextsBelow (t : Tree) (id : NodeId) (f : String → String) : Tree :=
  (t.descendants id ++ [id]).foldl
    (fun t n => t.modify n fun node => { node with kind := node.kind.mapTexts f }) t

/-- Replaces references in the texts of a node and of all below it. Without values nothing is looked at. -/
def substituteBelow (t : Tree) (id : NodeId) (values : Entries String) : Tree :=
  if values.isEmpty then t else t.mapTextsBelow id (Substitution.reword values)

end Tree

end StyleMixins
