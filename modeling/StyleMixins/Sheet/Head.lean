import StyleMixins.Sheet.Cursor

namespace StyleMixins.Sheet

/-- These end the head of a rule, an at-rule or the value of a declaration. -/
def isStop (c : Char) : Bool :=
  c == '{' || c == '}' || c == ';'

def isHeadChar (c : Char) : Bool :=
  !isStop c

def isKeywordChar (c : Char) : Bool :=
  c.isAlphanum || c == '-' || c == '_'

def isPropertyChar (c : Char) : Bool :=
  !isStop c && c != ':' && !isGapChar c

namespace Cursor

def keyword? (c : Cursor) : Option (List Char × Cursor) :=
  match c.char? '@' with
  | none => none
  | some d => if (d.run isKeywordChar).1.isEmpty then none else some (d.run isKeywordChar)

def atHead? (c : Cursor) : Option (List Char × List Char × Cursor) :=
  match c.keyword? with
  | none => none
  | some (name, d) =>
    let (params, e) := d.skip.run isHeadChar
    some (name, params, e.skip)

def selector? (c : Cursor) : Option (List Char × Cursor) :=
  let (selector, d) := c.run isHeadChar
  if selector.isEmpty then none else some (selector, d.skip)

def property? (c : Cursor) : Option (List Char × Cursor) :=
  let (property, d) := c.run isPropertyChar
  if property.isEmpty then none
  else
    match d.skip.char? ':' with
    | none => none
    | some e => some (property, e.skip)

/-- The end of a statement that has no block: its semicolon, or the place right before a closing brace
or the end of the text. -/
def close? (c : Cursor) : Option Cursor :=
  match c.rest with
  | [] => some c
  | first :: rest =>
    if first = ';' then some (c.pass [first] rest)
    else if first = '}' then some c
    else none

def declaration? (c : Cursor) : Option (List Char × List Char × Cursor) :=
  match c.property? with
  | none => none
  | some (property, d) =>
    let (value, e) := d.run isHeadChar
    match e.skip.close? with
    | none => none
    | some f => some (property, value, f)

theorem length_atHead?_le {c d : Cursor} {name params : List Char}
    (h : c.atHead? = some (name, params, d)) : d.rest.length ≤ c.rest.length := by
  unfold atHead? keyword? at h
  split at h
  · simp at h
  · rename_i name' e he
    obtain ⟨-, -, rfl⟩ : name' = name ∧ _ = params ∧ _ = d := by simpa using h
    split at he
    · simp at he
    · rename_i f hf
      split at he
      · simp at he
      · have h1 := length_char?_lt hf
        have h2 := length_run_le isKeywordChar f
        obtain rfl : (f.run isKeywordChar).2 = e := congrArg Prod.snd (Option.some.inj he)
        have h3 := length_skip_le (f.run isKeywordChar).2
        have h4 := length_run_le isHeadChar (f.run isKeywordChar).2.skip
        have h5 := length_skip_le ((f.run isKeywordChar).2.skip.run isHeadChar).2
        omega

theorem length_selector?_le {c d : Cursor} {selector : List Char}
    (h : c.selector? = some (selector, d)) : d.rest.length ≤ c.rest.length := by
  unfold selector? at h
  simp only at h
  split at h
  · simp at h
  · obtain ⟨-, rfl⟩ : _ ∧ (c.run isHeadChar).2.skip = d := by simpa using h
    have h1 := length_run_le isHeadChar c
    have h2 := length_skip_le (c.run isHeadChar).2
    omega

end Cursor

end StyleMixins.Sheet
