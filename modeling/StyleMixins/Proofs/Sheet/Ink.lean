import StyleMixins.Proofs.Sheet.Readings

namespace StyleMixins.Sheet

open Element

variable {file : SourceText} {c d e : Cursor} {cs ws taken taken' : List Char} {es rest children : List Element}
  {x : Char} {source : Option Source}

def isInk (c : Char) : Bool :=
  !Text.isBlank c && c != ';'

def ink (cs : List Char) : Nat :=
  cs.countP isInk

theorem ink_nil : ink [] = 0 := rfl

theorem ink_append (cs ws : List Char) : ink (cs ++ ws) = ink cs + ink ws :=
  List.countP_append

theorem ink_cons (h : isInk x = true) : ink (x :: cs) = ink cs + 1 :=
  List.countP_cons_of_pos h

theorem ink_cons_of_not (h : isInk x = false) : ink (x :: cs) = ink cs :=
  List.countP_cons_of_neg (by simp [h])

theorem ink_blanks (h : ∀ x ∈ ws, Text.isBlank x = true) : ink ws = 0 := by
  refine List.countP_eq_zero.mpr fun x hx => ?_
  simp [isInk, h x hx]

theorem ink_indent (depth : Nat) : ink (indent depth) = 0 := by
  refine ink_blanks fun x hx => ?_
  rw [List.eq_of_mem_replicate hx]
  decide

theorem ink_dropWhile (cs : List Char) : ink (cs.dropWhile Text.isBlank) = ink cs := by
  have hsplit := List.takeWhile_append_dropWhile (p := Text.isBlank) (l := cs)
  have hblank : ink (cs.takeWhile Text.isBlank) = 0 := ink_blanks fun x hx => List.mem_takeWhile_imp hx
  have hink := congrArg ink hsplit
  rw [ink_append] at hink
  omega

theorem ink_trimmedText (cs : List Char) : ink (trimmedText cs).toList = ink cs := by
  rw [trimmedText, String.toList_ofList, Text.trim, Text.trimEnd, ink, List.countP_reverse, ← ink, ink_dropWhile, ink,
    List.countP_reverse, ← ink, Text.trimStart, ink_dropWhile]

/-- A comment has ink. -/
theorem gapChars_of_ink (h : ink (gap cs).1 = 0) : ∀ x ∈ (gap cs).1, isGapChar x = true := by
  fun_induction gap cs with
  | case1 => simp
  | case2 y after hy ignored left hgap ih =>
    rw [hgap] at ih
    rw [ink_cons_of_not (by simp [isInk, isBlank_of_isGapChar hy])] at h
    exact List.forall_mem_cons.mpr ⟨hy, ih h⟩
  | case3 y after hy body behind closed ignored left hgap ih =>
    -- The body of the comment starts with a slash.
    unfold comment? at closed
    split at closed
    next inner =>
      split at closed
      next body' behind' _ =>
        obtain ⟨rfl, -⟩ : '/' :: '*' :: body' = body ∧ behind' = behind := by simpa using closed
        rw [List.cons_append, ink_cons (by decide)] at h
        omega
      next => simp at closed
    next => simp at closed
  | case4 => simp

theorem ink_writeAll_depth (es : List Element) (depth depth' : Nat) :
    ink (writeAll depth es) = ink (writeAll depth' es) := by
  induction es using forest_induction generalizing depth depth' with
  | nil => rfl
  | cons kind source children rest hc hr =>
    have hchildren := hc (depth + 1) (depth' + 1)
    have hrest := hr depth depth'
    cases kind with
    | root =>
      have hroot := hc depth depth'
      simp only [writeAll, write, ink_append]
      omega
    | rule selector =>
      simp (disch := decide) only [writeAll, write, ink_append, ink_indent, ink_cons, ink_cons_of_not, ink_nil]
      omega
    | atRule name params hasBlock =>
      simp only [writeAll, write]
      split <;> simp (disch := decide) only [ink_append, ink_indent, ink_cons, ink_cons_of_not, ink_nil] <;> omega
    | declaration property value =>
      simp (disch := decide) only [writeAll, write, ink_append, ink_indent, ink_cons, ink_cons_of_not, ink_nil]
      omega

def mass (es : List Element) : Nat :=
  ink (writeAll 0 es)

theorem mass_eq_of_bareAll {es' : List Element} (h : bareAll es = bareAll es') : mass es = mass es' := by
  rw [mass, ← writeAll_bareAll, h, writeAll_bareAll, mass]

theorem ink_atHead (name params : String) : ink (atHead name params) = ink name.toList + ink params.toList + 1 := by
  rw [atHead, List.cons_append, ink_cons (by decide), ink_append]
  split
  next h =>
    obtain rfl : params = "" := by simpa using h
    rfl
  next => rw [ink_cons_of_not (by decide)]

theorem mass_rule (selector : String) :
    mass (.mk (.rule selector) source children :: rest) = ink selector.toList + mass children + 2 + mass rest := by
  have hchildren := ink_writeAll_depth children (0 + 1) 0
  simp (disch := decide) only [mass, writeAll, write, ink_append, ink_indent, ink_cons, ink_cons_of_not, ink_nil]
  omega

theorem mass_atRule_block (name params : String) :
    mass (.mk (.atRule name params true) source children :: rest) =
      ink name.toList + ink params.toList + 1 + mass children + 2 + mass rest := by
  have hchildren := ink_writeAll_depth children (0 + 1) 0
  simp (disch := decide) only [mass, writeAll, write, Bool.true_or, if_true, ink_append, ink_indent, ink_atHead,
    ink_cons, ink_cons_of_not, ink_nil]
  omega

theorem mass_atRule (name params : String) :
    mass (.mk (.atRule name params false) source [] :: rest) =
      ink name.toList + ink params.toList + 1 + mass rest := by
  have hwrite : write 0 (.mk (.atRule name params false) source []) =
      indent 0 ++ atHead name params ++ [';', '\n'] := by
    simp [write]
  simp (disch := decide) only [mass, writeAll, hwrite, ink_append, ink_indent, ink_atHead, ink_cons_of_not, ink_nil]
  omega

theorem mass_declaration (property value : String) :
    mass (.mk (.declaration property value) source children :: rest) =
      ink property.toList + ink value.toList + 1 + mass rest := by
  simp (disch := decide) only [mass, writeAll, write, ink_append, ink_indent, ink_cons, ink_cons_of_not, ink_nil]
  omega

/-- From one place to a later one, over the text between them. -/
structure Moves (c : Cursor) (taken : List Char) (d : Cursor) : Prop where
  rest_eq : c.rest = taken ++ d.rest
  eq_pass : d = c.pass taken d.rest

theorem Moves.trans (h : Moves c taken d) (h' : Moves d taken' e) : Moves c (taken ++ taken') e := by
  refine ⟨by rw [h.rest_eq, h'.rest_eq, List.append_assoc], ?_⟩
  rw [← Cursor.pass_pass c taken taken' d.rest, ← h.eq_pass]
  exact h'.eq_pass

theorem Moves.ink_eq (h : Moves c taken d) : ink c.rest = ink taken + ink d.rest := by
  rw [h.rest_eq, ink_append]

theorem moves_skip (c : Cursor) : Moves c (gap c.rest).1 c.skip :=
  ⟨(gap_split c.rest).symm, rfl⟩

theorem moves_run {p : Char → Bool} (h : c.run p = (cs, d)) : Moves c cs d := by
  obtain rfl : c.rest.takeWhile p = cs := congrArg Prod.fst h
  obtain rfl : c.pass (c.rest.takeWhile p) (c.rest.dropWhile p) = d := congrArg Prod.snd h
  exact ⟨List.takeWhile_append_dropWhile.symm, rfl⟩

theorem moves_char? (h : c.char? x = some d) : Moves c [x] d := by
  rw [Cursor.char?] at h
  split at h
  next => simp at h
  next y after hc =>
    split at h
    next hy =>
      obtain rfl := Option.some.inj h
      subst hy
      exact ⟨hc, rfl⟩
    next => simp at h

theorem moves_close? (h : c.close? = some d) : Moves c [] d ∨ Moves c [';'] d := by
  have hself : Moves c [] c := ⟨rfl, rfl⟩
  rw [Cursor.close?] at h
  split at h
  next =>
    cases Option.some.inj h
    exact Or.inl hself
  next y after hc =>
    split at h
    next hy =>
      obtain rfl := Option.some.inj h
      subst hy
      exact Or.inr ⟨hc, rfl⟩
    next =>
      split at h
      next =>
        cases Option.some.inj h
        exact Or.inl hself
      next => simp at h

theorem ink_close? (h : c.close? = some d) : ink d.rest = ink c.rest := by
  rcases moves_close? h with m | m
  · simpa [ink_nil] using m.ink_eq.symm
  · rw [m.ink_eq, ink_cons_of_not (by decide), ink_nil, Nat.zero_add]

/-- From each opening brace that is still to be read a block can be read. -/
def Opens (file : SourceText) (c : Cursor) : Prop :=
  ∀ front after, c.rest = front ++ '{' :: after → block? file (c.pass front ('{' :: after)) ≠ none

theorem Opens.moves (h : Opens file c) (m : Moves c taken d) : Opens file d := by
  intro front after hd
  have hblock := h (taken ++ front) after (by rw [m.rest_eq, hd, List.append_assoc])
  rwa [← Cursor.pass_pass c taken front d.rest, ← m.eq_pass] at hblock

theorem Opens.of_moves (h : Opens file d) (m : Moves c taken d) (hbrace : '{' ∉ taken) : Opens file c := by
  intro front after hc
  rw [m.rest_eq] at hc
  obtain ⟨front', rfl, hd⟩ : ∃ front', front = taken ++ front' ∧ d.rest = front' ++ '{' :: after := by
    rcases List.append_eq_append_iff.mp hc with ⟨front', hfront, hd⟩ | ⟨left, htaken, hleft⟩
    · exact ⟨front', hfront, hd⟩
    · cases left with
      | nil => exact ⟨[], by simpa using htaken.symm, by simpa using hleft.symm⟩
      | cons y left =>
        obtain ⟨rfl, -⟩ : '{' = y ∧ _ := by simpa using hleft
        exact absurd (by simp [htaken]) hbrace
  have hblock := h front' after hd
  rw [m.eq_pass, Cursor.pass_pass] at hblock
  exact hblock

theorem Opens.of_open (h : Opens file d) (hopen : c.char? '{' = some d) (hblock : block? file c ≠ none) :
    Opens file c := by
  have m := moves_char? hopen
  intro front after hc
  cases front with
  | nil =>
    have hself : c.pass [] ('{' :: after) = c := Cursor.pass_nil hc
    rwa [hself]
  | cons y front =>
    have hd : y = '{' ∧ front ++ '{' :: after = d.rest := by
      have hrest := m.rest_eq
      rw [hc] at hrest
      simpa using hrest
    have hinner := h front after hd.2.symm
    rw [m.eq_pass, Cursor.pass_pass] at hinner
    rw [hd.1]
    exact hinner

/-- Between the two places there is at least so much ink, and if there is no more, braces open blocks from the first
place on where they do from the second. -/
def Covers (file : SourceText) (c : Cursor) (n : Nat) (d : Cursor) : Prop :=
  ∃ taken, Moves c taken d ∧ n ≤ ink taken ∧ (ink taken ≤ n → Opens file d → Opens file c)

theorem Covers.le {n : Nat} (h : Covers file c n d) : n + ink d.rest ≤ ink c.rest := by
  obtain ⟨taken, m, hn, -⟩ := h
  have hink := m.ink_eq
  omega

theorem Covers.opens {n : Nat} (h : Covers file c n d) (hink : ink c.rest ≤ n + ink d.rest) (hd : Opens file d) :
    Opens file c := by
  obtain ⟨taken, m, -, hopens⟩ := h
  have htaken := m.ink_eq
  exact hopens (by omega) hd

theorem Covers.trans {n n' : Nat} (h : Covers file c n d) (h' : Covers file d n' e) : Covers file c (n + n') e := by
  obtain ⟨taken, m, hn, hopens⟩ := h
  obtain ⟨taken', m', hn', hopens'⟩ := h'
  refine ⟨taken ++ taken', m.trans m', ?_, ?_⟩
  · rw [ink_append]
    omega
  · intro hink he
    rw [ink_append] at hink
    exact hopens (by omega) (hopens' (by omega) he)

theorem covers_of_moves {n : Nat} (m : Moves c taken d) (hn : n ≤ ink taken) (hbrace : ink taken ≤ n → '{' ∉ taken) :
    Covers file c n d :=
  ⟨taken, m, hn, fun hink hd => hd.of_moves m (hbrace hink)⟩

theorem covers_skip (file : SourceText) (c : Cursor) : Covers file c 0 c.skip := by
  refine covers_of_moves (moves_skip c) (Nat.zero_le _) fun hink hbrace => ?_
  exact absurd (gapChars_of_ink (Nat.le_zero.mp hink) '{' hbrace) (by decide)

theorem covers_run {p : Char → Bool} (h : c.run p = (cs, d)) (hp : p '{' = false) : Covers file c (ink cs) d := by
  refine covers_of_moves (moves_run h) le_rfl fun _ hbrace => ?_
  simp [chars_run h '{' hbrace] at hp

theorem covers_char? (h : c.char? x = some d) (hx : x ≠ '{') : Covers file c (ink [x]) d :=
  covers_of_moves (moves_char? h) le_rfl fun _ hbrace => hx (List.mem_singleton.mp hbrace).symm

theorem covers_open (h : c.char? '{' = some d) (hblock : block? file c ≠ none) : Covers file c 1 d :=
  ⟨['{'], moves_char? h, by decide, fun _ hd => hd.of_open h hblock⟩

theorem covers_close? (h : c.close? = some d) : Covers file c 0 d := by
  rcases moves_close? h with m | m
  · exact covers_of_moves m (Nat.zero_le _) (by simp)
  · exact covers_of_moves m (Nat.zero_le _) (by simp)

theorem covers_atHead? {name params : List Char} (h : c.atHead? = some (name, params, d)) :
    Covers file c (ink name + ink params + 1) d := by
  obtain ⟨e, hkeyword, hparams⟩ := atHead?_inv h
  obtain ⟨f, hat, -, hname⟩ := keyword?_inv hkeyword
  have hcovers := (((covers_char? hat (by decide)).trans (covers_run hname (by decide))).trans
    (covers_skip file e)).trans (covers_run hparams (by decide))
  have hink : ink ['@'] = 1 := by decide
  have hsum : ink name + ink params + 1 = ink ['@'] + ink name + 0 + ink params := by omega
  rwa [hsum]

theorem covers_property? {property : List Char} (h : c.property? = some (property, d)) :
    Covers file c (ink property + 1) d := by
  obtain ⟨e, f, -, hproperty, hcolon, rfl⟩ := property?_inv h
  have hcovers := (((covers_run hproperty (by decide)).trans (covers_skip file e)).trans
    (covers_char? hcolon (by decide))).trans (covers_skip file f)
  have hink : ink [':'] = 1 := by decide
  have hsum : ink property + 1 = ink property + 0 + ink [':'] + 0 := by omega
  rwa [hsum]

theorem covers_declaration? {property value : List Char} (h : c.declaration? = some (property, value, d)) :
    Covers file c (ink property + ink value + 1) d := by
  obtain ⟨e, f, hproperty, hvalue, hclosed⟩ := declaration?_inv h
  have hclose : Covers file f 0 d := covers_close? hclosed
  have hcovers := ((covers_property? hproperty).trans (covers_run hvalue (by decide))).trans hclose
  have hsum : ink property + ink value + 1 = ink property + 1 + ink value + 0 := by omega
  rwa [hsum]

/-- The head of a block, and what the block adds to the ink of its statements. -/
theorem BlockHead.covers {kind : Kind} (h : BlockHead file c kind d) : ∃ n, Covers file c n d ∧
    ∀ source children rest, mass (.mk kind source children :: rest) = n + mass children + 2 + mass rest := by
  rcases h with ⟨name, params, hhead, rfl⟩ | ⟨-, selector, hhead, rfl⟩
  · refine ⟨_, covers_atHead? hhead, fun source children rest => ?_⟩
    rw [mass_atRule_block, String.toList_ofList, ink_trimmedText]
  · refine ⟨_, covers_run (selector?_inv hhead).2 (by decide), fun source children rest => ?_⟩
    rw [mass_rule, ink_trimmedText]

theorem Reading.covers (h : Reading file c es d) : Covers file c (mass es) d := by
  induction h with
  | done c => exact ⟨[], ⟨rfl, rfl⟩, Nat.zero_le _, fun _ hc => hc⟩
  | @semicolon c d e es hsemicolon _ ih =>
    have hcovers := ((covers_char? hsemicolon (by decide)).trans (covers_skip file d)).trans ih
    have hsum : mass es = ink [';'] + 0 + mass es := by
      have hink : ink [';'] = 0 := by decide
      omega
    rwa [hsum]
  | @declaration c d e property value es _ htext _ ih =>
    have hcovers := ((covers_declaration? htext).trans (covers_skip file d)).trans ih
    rwa [element, mass_declaration, ink_trimmedText, ink_trimmedText]
  | @atRule c d e f name params es hhead hclosed _ ih =>
    have hcovers := (((covers_atHead? hhead).trans (covers_close? hclosed)).trans (covers_skip file e)).trans ih
    rwa [element, mass_atRule, String.toList_ofList, ink_trimmedText]
  | @block c d e f g last kind children es hhead hblock hopened _ hclosed _ ihinner ihrest =>
    obtain ⟨n, hcovers, hmass⟩ := hhead.covers
    have hopen : Covers file d 1 e := covers_open hopened (by simp [hblock])
    have hinner := (hopen.trans (covers_skip file e)).trans ihinner
    have hclose := (covers_char? hclosed (by decide)).trans (covers_skip file g)
    have hall := (hcovers.trans (hinner.trans hclose)).trans ihrest
    have hsum : mass (element file c g kind children :: es) =
        n + (1 + 0 + mass children + (ink ['}'] + 0)) + mass es := by
      have hink : ink ['}'] = 1 := by decide
      rw [element, hmass]
      omega
    rwa [hsum]

end StyleMixins.Sheet
