import StyleMixins.Proofs.Sheet.Bare
import StyleMixins.Proofs.Sheet.Cursors
import StyleMixins.Sheet.Reader

namespace StyleMixins.Sheet

open Element

variable {head cs ws rest : List Char} {x : Char} {n : Nat}

/-- A piece of text with the brace or semicolon that ends it, if it is not the end of the text that does. -/
structure Segment where
  text : List Char
  stop : Option Char

/-- The pieces between all braces and semicolons. -/
def cut : List Char → List Segment
  | [] => [⟨[], none⟩]
  | x :: rest =>
    if isStop x then ⟨[], some x⟩ :: cut rest
    else (cut rest).modifyHead fun s => ⟨x :: s.text, s.stop⟩

def Segment.stripped (s : Segment) : Segment :=
  ⟨s.text.dropWhile isGapChar, s.stop⟩

def segments (cs : List Char) : List Segment :=
  (cut cs).map Segment.stripped

def Declares (cs : List Char) : Prop :=
  ∃ property ws value, cs = property ++ (ws ++ ':' :: value) ∧ property ≠ [] ∧
    (∀ x ∈ property, x ≠ ':' ∧ isGapChar x = false) ∧ ∀ x ∈ ws, isGapChar x = true

def Simple (cs : List Char) : Prop :=
  cs = [] ∨ beginsAtRule cs = true ∨ Declares cs

def Segment.Fits (s : Segment) : Prop :=
  if s.stop = some '{' then s.text ≠ [] else Simple s.text

/-- The braces close what they open and `n` blocks more: no front part closes too many, and the whole closes
all. -/
def Closes (n : Nat) (cs : List Char) : Prop :=
  (∀ front, front <+: cs → front.count '}' ≤ n + front.count '{') ∧ cs.count '}' = n + cs.count '{'

def Balanced (cs : List Char) : Prop :=
  Closes 0 cs

/-- The rest of a style sheet with `n` open blocks. -/
def Sound (n : Nat) (cs : List Char) : Prop :=
  Closes n cs ∧ ∀ s ∈ segments cs, s.Fits

def atRuleKind (cs : List Char) (hasBlock : Bool) : Kind :=
  .atRule (String.ofList ((cs.drop 1).takeWhile isKeywordChar)) (trimmedText ((cs.drop 1).dropWhile isKeywordChar))
    hasBlock

def blockKind (cs : List Char) : Kind :=
  if beginsAtRule cs then atRuleKind cs true else .rule (trimmedText cs)

def simpleKind (cs : List Char) : Kind :=
  if beginsAtRule cs then atRuleKind cs false
  else .declaration (trimmedText (cs.takeWhile (· != ':'))) (trimmedText ((cs.dropWhile (· != ':')).drop 1))

def simpleElements (cs : List Char) : List Element :=
  if cs.isEmpty then [] else [.mk (simpleKind cs) none []]

/-- The statements so far in the innermost open block, and the open blocks, innermost first, each with the
statements before it. -/
structure Pass where
  done : List Element := []
  opened : List (Kind × List Element) := []

namespace Pass

def add (p : Pass) (es : List Element) : Pass :=
  ⟨p.done ++ es, p.opened⟩

def enter (p : Pass) (kind : Kind) : Pass :=
  ⟨[], (kind, p.done) :: p.opened⟩

def leave (p : Pass) : Pass :=
  match p.opened with
  | [] => p
  | (kind, before) :: around => ⟨before ++ [.mk kind none p.done], around⟩

def step (p : Pass) (s : Segment) : Pass :=
  if s.stop = some '{' then p.enter (blockKind s.text)
  else if s.stop = some '}' then (p.add (simpleElements s.text)).leave
  else p.add (simpleElements s.text)

def across (p : Pass) (cs : List Char) : Pass :=
  (segments cs).foldl step p

@[simp] theorem add_nil (p : Pass) : p.add [] = p := by
  simp [add]

theorem add_add (p : Pass) (es more : List Element) : (p.add es).add more = p.add (es ++ more) := by
  simp [add]

theorem leave_add_enter (p : Pass) (kind : Kind) (es : List Element) :
    ((p.enter kind).add es).leave = p.add [.mk kind none es] := by
  simp [enter, add, leave]

end Pass

theorem cut_append (h : ∀ x ∈ head, isHeadChar x = true) (cs : List Char) :
    cut (head ++ cs) = (cut cs).modifyHead fun s => ⟨head ++ s.text, s.stop⟩ := by
  induction head with
  | nil =>
    rw [List.nil_append]
    cases cut cs <;> rfl
  | cons x head ih =>
    have hx : isStop x = false := by simpa [isHeadChar] using h x (by simp)
    have ih := ih fun y hy => h y (List.mem_cons_of_mem _ hy)
    rw [List.cons_append, cut, if_neg (by simp [hx]), ih]
    cases cut cs <;> rfl

theorem segments_nil : segments [] = [⟨[], none⟩] := rfl

theorem segments_stop (hx : isStop x = true) (rest : List Char) :
    segments (x :: rest) = ⟨[], some x⟩ :: segments rest := by
  rw [segments, cut, if_pos hx]
  rfl

theorem segments_gap (h : ∀ x ∈ ws, isGapChar x = true) (cs : List Char) : segments (ws ++ cs) = segments cs := by
  rw [segments, segments, cut_append fun x hx => isHeadChar_of_isGapChar (h x hx)]
  cases cut cs with
  | nil => rfl
  | cons s more =>
    simp [Segment.stripped, List.dropWhile_append_of_pos h]

/-- The first segment of a text that starts with a head. -/
theorem segments_head (h : ∀ x ∈ head, isHeadChar x = true) (hs : ∀ x ∈ head.head?, isGapChar x = false)
    (hx : isStop x = true) (rest : List Char) : segments (head ++ x :: rest) = ⟨head, some x⟩ :: segments rest := by
  rw [segments, cut_append h, cut, if_pos hx]
  simp [segments, Segment.stripped, Text.dropWhile_eq_self hs]

theorem segments_last (h : ∀ x ∈ head, isHeadChar x = true) (hs : ∀ x ∈ head.head?, isGapChar x = false) :
    segments head = [⟨head, none⟩] := by
  have hcut := cut_append h []
  rw [List.append_nil] at hcut
  rw [segments, hcut]
  simp [cut, Segment.stripped, Text.dropWhile_eq_self hs]

theorem closes_nil : Closes n [] ↔ n = 0 := by
  simp only [Closes, List.prefix_nil, forall_eq, List.count_nil]
  omega

theorem forall_front_cons {P : List Char → Prop} :
    (∀ front, front <+: x :: cs → P front) ↔ P [] ∧ ∀ front, front <+: cs → P (x :: front) := by
  constructor
  · intro h
    exact ⟨h [] (List.nil_prefix), fun front hf => h _ (List.cons_prefix_cons.mpr ⟨rfl, hf⟩)⟩
  · rintro ⟨hnil, hcons⟩ front hf
    rcases List.prefix_cons_iff.mp hf with rfl | ⟨more, rfl, hmore⟩
    · exact hnil
    · exact hcons more hmore

theorem closes_open : Closes n ('{' :: cs) ↔ Closes (n + 1) cs := by
  simp only [Closes, forall_front_cons, List.count_nil, Nat.le_add_left, true_and]
  simp [Nat.add_assoc, Nat.add_comm 1]

theorem closes_close : Closes (n + 1) ('}' :: cs) ↔ Closes n cs := by
  simp only [Closes, forall_front_cons]
  simp [Nat.add_right_comm n 1]

theorem not_closes_zero : ¬Closes 0 ('}' :: cs) := by
  rintro ⟨hfront, -⟩
  have h := hfront ['}'] (by simp)
  simp at h

theorem closes_cons (ho : x ≠ '{') (hc : x ≠ '}') : Closes n (x :: cs) ↔ Closes n cs := by
  simp only [Closes, forall_front_cons]
  simp [ho, hc]

theorem closes_append (h : ∀ x ∈ head, isHeadChar x = true) (cs : List Char) :
    Closes n (head ++ cs) ↔ Closes n cs := by
  induction head with
  | nil => rfl
  | cons x head ih =>
    have hx : isStop x = false := by simpa [isHeadChar] using h x (by simp)
    have ho : x ≠ '{' := by rintro rfl; simp [isStop] at hx
    have hc : x ≠ '}' := by rintro rfl; simp [isStop] at hx
    rw [List.cons_append, closes_cons ho hc, ih fun y hy => h y (List.mem_cons_of_mem _ hy)]

theorem sound_gap (h : ∀ x ∈ ws, isGapChar x = true) : Sound n (ws ++ cs) ↔ Sound n cs := by
  rw [Sound, Sound, segments_gap h, closes_append fun x hx => isHeadChar_of_isGapChar (h x hx)]

theorem simple_nil : Simple [] :=
  Or.inl rfl

theorem sound_nil : Sound n [] ↔ n = 0 := by
  simp [Sound, closes_nil, segments_nil, Segment.Fits, simple_nil]

theorem sound_close : Sound (n + 1) ('}' :: rest) ↔ Sound n rest := by
  simp [Sound, closes_close, segments_stop (x := '}') rfl rest, Segment.Fits, simple_nil]

theorem not_sound_zero : ¬Sound 0 ('}' :: rest) :=
  fun h => not_closes_zero h.1

section

variable (h : ∀ x ∈ head, isHeadChar x = true) (hs : ∀ x ∈ head.head?, isGapChar x = false)

include h hs

theorem sound_open : Sound n (head ++ '{' :: rest) ↔ head ≠ [] ∧ Sound (n + 1) rest := by
  simp [Sound, closes_append h, closes_open, segments_head h hs (x := '{') rfl rest, Segment.Fits,
    and_left_comm]

theorem sound_semicolon : Sound n (head ++ ';' :: rest) ↔ Simple head ∧ Sound n rest := by
  have hcloses : Closes n (';' :: rest) ↔ Closes n rest := closes_cons (by decide) (by decide)
  simp [Sound, closes_append h, hcloses, segments_head h hs (x := ';') rfl rest, Segment.Fits,
    and_left_comm]

/-- A statement that a closing brace or the end of the text ends. -/
theorem sound_last (hr : rest = [] ∨ ∃ more, rest = '}' :: more) :
    Sound n (head ++ rest) ↔ Simple head ∧ Sound n rest := by
  rcases hr with rfl | ⟨more, rfl⟩
  · have hcloses := closes_append (n := n) h []
    rw [List.append_nil] at hcloses ⊢
    simp [Sound, hcloses, segments_last h hs, segments_nil, Segment.Fits, simple_nil, and_comm]
  · simp [Sound, closes_append h, segments_head h hs (x := '}') rfl more,
      segments_stop (x := '}') rfl more, Segment.Fits, simple_nil, and_left_comm]

end

namespace Pass

variable (p : Pass)

theorem across_gap (h : ∀ x ∈ ws, isGapChar x = true) : p.across (ws ++ cs) = p.across cs := by
  rw [across, across, segments_gap h]

theorem across_nil : p.across [] = p := by
  simp [across, segments_nil, step, simpleElements]

theorem across_close : p.across ('}' :: rest) = p.leave.across rest := by
  simp [across, segments_stop (x := '}') rfl rest, step, simpleElements]

section

variable (h : ∀ x ∈ head, isHeadChar x = true) (hs : ∀ x ∈ head.head?, isGapChar x = false)

include h hs

theorem across_open : p.across (head ++ '{' :: rest) = (p.enter (blockKind head)).across rest := by
  simp [across, segments_head h hs (x := '{') rfl rest, step]

theorem across_semicolon : p.across (head ++ ';' :: rest) = (p.add (simpleElements head)).across rest := by
  simp [across, segments_head h hs (x := ';') rfl rest, step]

theorem across_last (hr : rest = [] ∨ ∃ more, rest = '}' :: more) :
    p.across (head ++ rest) = (p.add (simpleElements head)).across rest := by
  rcases hr with rfl | ⟨more, rfl⟩
  · rw [List.append_nil, across_nil]
    simp [across, segments_last h hs, step]
  · rw [across_close]
    simp [across, segments_head h hs (x := '}') rfl more, step]

end

end Pass

end StyleMixins.Sheet
