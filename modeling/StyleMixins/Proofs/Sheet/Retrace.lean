import StyleMixins.Proofs.Sheet.Ink
import StyleMixins.Proofs.Sheet.RoundTrip

namespace StyleMixins.Sheet

open Element

variable {file : SourceText} {c d e f g last : Cursor} {cs ws inner after : List Char}
  {es found children : List Element} {source : Option Source} {selector name params property value : String}
  {n depth : Nat}

theorem Solid.comment?_eq_none (h : Solid cs) : comment? cs = none := by
  cases hcomment : comment? cs with
  | none => rfl
  | some found =>
    obtain ⟨body, after⟩ := found
    have hlt := length_comment?_lt hcomment
    have hle := length_gap_le after
    have hrest : (gap cs).2.length ≤ after.length := by
      cases cs with
      | nil => simp at hlt
      | cons x cs =>
        have hx := h.head (x := x) rfl
        rw [gap, if_neg (by simp [hx])]
        split
        next body' after' hclosed =>
          cases Option.some.inj (hclosed.symm.trans hcomment)
          exact hle
        next hclosed => simp [hclosed] at hcomment
    have hself : (gap cs).2 = cs := congrArg Prod.snd h
    rw [hself] at hrest
    omega

theorem skip_of_ink (h : ink (gap c.rest).1 = 0) (hc : c.rest = ws ++ cs) (hws : ∀ x ∈ ws, isGapChar x = true)
    (hcs : ∀ x ∈ cs.head?, isGapChar x = false) : c.skip = c.pass ws cs ∧ Solid cs := by
  have hgap := Cursor.run_eq_pass (gap_split c.rest).symm (gapChars_of_ink h) fun x hx => (solid_gap c.rest).head hx
  have hrun := Cursor.run_eq_pass hc hws hcs
  have hskip : c.skip = c.pass ws cs := congrArg Prod.snd (hgap.symm.trans hrun)
  have hrest : (gap c.rest).2 = cs := congrArg Cursor.rest hskip
  have hsolid := solid_gap c.rest
  rw [hrest] at hsolid
  exact ⟨hskip, hsolid⟩

/-- A reading with all the ink of its text, in which every brace opens a block. -/
structure Retraces (file : SourceText) (c : Cursor) (found : List Element) (last : Cursor) : Prop where
  reading : Reading file c.skip found last
  kept : ink c.rest ≤ mass found + ink last.rest
  opens : Opens file c

namespace Retraces

theorem skip_eq (h : Retraces file c found last) (hc : c.rest = ws ++ cs) (hws : ∀ x ∈ ws, isGapChar x = true)
    (hcs : ∀ x ∈ cs.head?, isGapChar x = false) : c.skip = c.pass ws cs ∧ Solid cs := by
  refine skip_of_ink ?_ hc hws hcs
  have hskip := (moves_skip c).ink_eq
  have hread := h.reading.covers.le
  have hkept := h.kept
  omega

theorem opens_skip (h : Retraces file c found last) : Opens file c.skip :=
  h.opens.moves (moves_skip c)

theorem simple (h : Retraces file c found last) (hmass : mass found = n + mass es) (hhead : Covers file c.skip n d)
    (hrest : Reading file d.skip es last) : ink c.skip.rest ≤ n + ink d.rest ∧ Retraces file d es last := by
  have hkept := h.kept
  have hskip := (covers_skip file c).le
  have hheadInk := hhead.le
  have hdskip := (covers_skip file d).le
  have hrestInk := hrest.covers.le
  obtain ⟨taken, m, -⟩ := hhead
  exact ⟨by omega, hrest, by omega, h.opens_skip.moves m⟩

theorem block (h : Retraces file c found last) (hmass : mass found = n + mass children + 2 + mass es)
    (hhead : Covers file c.skip n d) (hopened : d.char? '{' = some e) (hinner : Reading file e.skip children f)
    (hclosed : f.char? '}' = some g) (hrest : Reading file g.skip es last) :
    ink c.skip.rest ≤ n + ink d.rest ∧ Retraces file e children f ∧ Retraces file g es last := by
  have hkept := h.kept
  have hskip := (covers_skip file c).le
  have hheadInk := hhead.le
  have hopenInk := (moves_char? hopened).ink_eq
  have hopenOne : ink ['{'] = 1 := by decide
  have heskip := (covers_skip file e).le
  have hinnerInk := hinner.covers.le
  have hcloseInk := (moves_char? hclosed).ink_eq
  have hcloseOne : ink ['}'] = 1 := by decide
  have hgskip := (covers_skip file g).le
  have hrestInk := hrest.covers.le
  obtain ⟨taken, m, -⟩ := hhead
  obtain ⟨between, m', -⟩ := hinner.covers
  have hopens : Opens file e := (h.opens_skip.moves m).moves (moves_char? hopened)
  have hopensEnd : Opens file g := ((hopens.moves (moves_skip e)).moves m').moves (moves_char? hclosed)
  exact ⟨by omega, ⟨hinner, by omega, hopens⟩, hrest, by omega, hopensEnd⟩

end Retraces

theorem beginsAtRule_of_append {a b : List Char} (h : beginsAtRule (a ++ b) = false) : beginsAtRule a = false := by
  by_contra hbegins
  obtain ⟨x, rest, rfl, hx⟩ := beginsAtRule_iff.mp (by simpa using hbegins)
  simp [beginsAtRule, hx] at h

/-- Where every brace opens a block, what starts like an at-rule is one. -/
theorem Opens.not_beginsAtRule (h : Opens file c) (hat : atRule? file c = none) : beginsAtRule c.rest = false := by
  by_contra hbegins
  obtain ⟨x, rest, hc, hx⟩ := beginsAtRule_iff.mp (by simpa using hbegins)
  cases hhead : c.atHead? with
  | none =>
    rw [Cursor.atHead?, Cursor.keyword?, Cursor.char?_eq_pass hc] at hhead
    simp [Cursor.run, hx] at hhead
  | some head =>
    obtain ⟨name, params, d⟩ := head
    obtain ⟨_, -, hrun⟩ := atHead?_inv hhead
    have hstop := atStop_run hrun
    have hcovers : Covers file c _ d := covers_atHead? hhead
    obtain ⟨taken, m, -⟩ := hcovers
    cases hblock : block? file d with
    | some found => simp [atRule?_of_block hhead hblock] at hat
    | none =>
      rw [atRule?_of_no_block hhead hblock, Option.map_eq_none_iff] at hat
      cases hd : d.rest with
      | nil => simp [Cursor.close?, hd] at hat
      | cons y rest' =>
        rcases eq_of_isStop (hstop y (by simp [hd])) with rfl | rfl | rfl
        · have hopen := h.moves m [] rest' hd
          rw [Cursor.pass_nil hd, hblock] at hopen
          exact hopen rfl
        · simp [Cursor.close?, hd] at hat
        · simp [Cursor.close?, hd] at hat

theorem Reading.cons_cases {x : Element} (h : Reading file c (x :: es) last) (hsemicolon : ';' ∉ c.rest.head?) :
    (∃ d property value, atRule? file c = none ∧ c.declaration? = some (property, value, d) ∧
      Reading file d.skip es last ∧
      x = element file c d (.declaration (trimmedText property) (trimmedText value)) []) ∨
    (∃ d e name params, c.atHead? = some (name, params, d) ∧ d.close? = some e ∧ Reading file e.skip es last ∧
      x = element file c e (.atRule (String.ofList name) (trimmedText params) false) []) ∨
    ∃ d e f g kind children, BlockHead file c kind d ∧ d.char? '{' = some e ∧ Reading file e.skip children f ∧
      f.char? '}' = some g ∧ Reading file g.skip es last ∧ x = element file c g kind children := by
  generalize hall : x :: es = all at h
  cases h with
  | done => simp at hall
  | semicolon hchar _ => simp [Cursor.char?_eq_none hsemicolon] at hchar
  | declaration first text rest =>
    obtain ⟨rfl, rfl⟩ := List.cons.inj hall
    exact Or.inl ⟨_, _, _, first, text, rest, rfl⟩
  | atRule head closed rest =>
    obtain ⟨rfl, rfl⟩ := List.cons.inj hall
    exact Or.inr (Or.inl ⟨_, _, _, _, head, closed, rest, rfl⟩)
  | block head _ opened inner closed rest =>
    obtain ⟨rfl, rfl⟩ := List.cons.inj hall
    exact Or.inr (Or.inr ⟨_, _, _, _, _, _, head, opened, inner, closed, rest, rfl⟩)

theorem Reading.eq_of_nil (h : Reading file c [] last) (hsemicolon : ';' ∉ c.rest.head?) : last = c := by
  generalize hall : ([] : List Element) = all at h
  cases h with
  | done => rfl
  | semicolon hchar _ => simp [Cursor.char?_eq_none hsemicolon] at hchar
  | declaration => simp at hall
  | atRule => simp at hall
  | block => simp at hall

theorem Reading.rule_cases (h : Reading file c (.mk (.rule selector) source children :: es) last)
    (hsemicolon : ';' ∉ c.rest.head?) :
    ∃ read d e f g, atRule? file c = none ∧ c.selector? = some (read, d) ∧ selector = trimmedText read ∧
      d.char? '{' = some e ∧ Reading file e.skip children f ∧ f.char? '}' = some g ∧ Reading file g.skip es last := by
  obtain ⟨_, _, _, -, -, -, hx⟩ | ⟨_, _, _, _, -, -, -, hx⟩ |
    ⟨d, e, f, g, kind, found, hhead, hopened, hinner, hclosed, hrest, hx⟩ := h.cons_cases hsemicolon
  · simp [element] at hx
  · simp [element] at hx
  · obtain ⟨rfl, -, rfl⟩ := Element.mk.inj hx
    rcases hhead with ⟨_, _, -, hkind⟩ | ⟨hat, read, hread, hkind⟩
    · simp at hkind
    · exact ⟨read, d, e, f, g, hat, hread, Kind.rule.inj hkind, hopened, hinner, hclosed, hrest⟩

theorem Reading.atRule_block_cases (h : Reading file c (.mk (.atRule name params true) source children :: es) last)
    (hsemicolon : ';' ∉ c.rest.head?) :
    ∃ word read d e f g, c.atHead? = some (word, read, d) ∧ name = String.ofList word ∧ params = trimmedText read ∧
      d.char? '{' = some e ∧ Reading file e.skip children f ∧ f.char? '}' = some g ∧ Reading file g.skip es last := by
  obtain ⟨_, _, _, -, -, -, hx⟩ | ⟨_, _, _, _, -, -, -, hx⟩ |
    ⟨d, e, f, g, kind, found, hhead, hopened, hinner, hclosed, hrest, hx⟩ := h.cons_cases hsemicolon
  · simp [element] at hx
  · simp [element] at hx
  · obtain ⟨rfl, -, rfl⟩ := Element.mk.inj hx
    rcases hhead with ⟨word, read, hread, hkind⟩ | ⟨-, _, -, hkind⟩
    · obtain ⟨hname, hparams, -⟩ := Kind.atRule.inj hkind
      exact ⟨word, read, d, e, f, g, hread, hname, hparams, hopened, hinner, hclosed, hrest⟩
    · simp at hkind

theorem Reading.atRule_cases (h : Reading file c (.mk (.atRule name params false) source children :: es) last)
    (hsemicolon : ';' ∉ c.rest.head?) :
    ∃ word read d e, c.atHead? = some (word, read, d) ∧ name = String.ofList word ∧ params = trimmedText read ∧
      d.close? = some e ∧ Reading file e.skip es last := by
  obtain ⟨_, _, _, -, -, -, hx⟩ | ⟨d, e, word, read, hread, hclosed, hrest, hx⟩ |
    ⟨_, _, _, _, kind, _, hhead, -, -, -, -, hx⟩ := h.cons_cases hsemicolon
  · simp [element] at hx
  · obtain ⟨hkind, -, -⟩ := Element.mk.inj hx
    obtain ⟨hname, hparams, -⟩ := Kind.atRule.inj hkind
    exact ⟨word, read, d, e, hread, hname, hparams, hclosed, hrest⟩
  · obtain ⟨rfl, -, -⟩ := Element.mk.inj hx
    rcases hhead with ⟨_, _, -, hkind⟩ | ⟨-, _, -, hkind⟩ <;> simp at hkind

theorem Reading.declaration_cases
    (h : Reading file c (.mk (.declaration property value) source children :: es) last)
    (hsemicolon : ';' ∉ c.rest.head?) :
    ∃ word read d, atRule? file c = none ∧ c.declaration? = some (word, read, d) ∧ property = trimmedText word ∧
      value = trimmedText read ∧ Reading file d.skip es last := by
  obtain ⟨d, word, read, hat, hread, hrest, hx⟩ | ⟨_, _, _, _, -, -, -, hx⟩ |
    ⟨_, _, _, _, kind, _, hhead, -, -, -, -, hx⟩ := h.cons_cases hsemicolon
  · obtain ⟨hkind, -, -⟩ := Element.mk.inj hx
    obtain ⟨hproperty, hvalue⟩ := Kind.declaration.inj hkind
    exact ⟨word, read, d, hat, hread, hproperty, hvalue, hrest⟩
  · simp [element] at hx
  · obtain ⟨rfl, -, -⟩ := Element.mk.inj hx
    rcases hhead with ⟨_, _, -, hkind⟩ | ⟨-, _, -, hkind⟩ <;> simp at hkind

theorem not_semicolon_head {a b : List Char} (h : ∀ x ∈ a, isHeadChar x = true) (hne : a ≠ []) :
    ';' ∉ (a ++ b).head? := by
  cases a with
  | nil => exact absurd rfl hne
  | cons x a =>
    intro hx
    obtain rfl : x = ';' := by simpa using hx
    exact absurd (h ';' (by simp)) (by decide)

theorem retraces_rule (h : Retraces file c (.mk (.rule selector) source children :: es) last) (hsel : HeadText selector)
    (hws : ∀ x ∈ ws, isGapChar x = true) (hc : c.rest = ws ++ (selector.toList ++ ' ' :: '{' :: inner)) :
    (Kind.rule selector).Headed ∧ comment? (selector.toList ++ ' ' :: '{' :: inner) = none ∧
      ∃ e f g, Retraces file e children f ∧ e.rest = inner ∧ f.char? '}' = some g ∧ Retraces file g es last := by
  have hstop : AtStop ('{' :: inner) := atStop_cons rfl
  by_cases hne : selector = ""
  · -- Without a selector the reader would stand at the brace.
    have hblanks : ∀ x ∈ ws ++ [' '], isGapChar x = true :=
      List.forall_mem_append.mpr ⟨hws, List.forall_mem_singleton.mpr (by decide)⟩
    have hsplit : c.rest = (ws ++ [' ']) ++ '{' :: inner := by simpa [hne] using hc
    obtain ⟨hskip, -⟩ := h.skip_eq hsplit hblanks (by simp [isGapChar])
    have hrest : c.skip.rest = '{' :: inner := by rw [hskip, Cursor.rest_pass]
    obtain ⟨_, _, _, _, _, -, hread, -⟩ := h.reading.rule_cases (by simp [hrest])
    simp [Cursor.selector?_eq_none (hrest ▸ hstop)] at hread
  · have hne' := toList_ne_nil hne
    obtain ⟨hskip, hsolid⟩ := h.skip_eq hc hws (not_isGapChar_head hsel.1 hne')
    have hrest : c.skip.rest = selector.toList ++ ' ' :: '{' :: inner := by rw [hskip, Cursor.rest_pass]
    obtain ⟨read, d, e, f, g, hat, hread, -, hopened, hinner, hclosed, hmore⟩ :=
      h.reading.rule_cases (hrest ▸ not_semicolon_head hsel.2 hne')
    have hchars : ∀ x ∈ selector.toList ++ [' '], isHeadChar x = true :=
      List.forall_mem_append.mpr ⟨hsel.2, List.forall_mem_singleton.mpr (by decide)⟩
    have hsplit : c.skip.rest = (selector.toList ++ [' ']) ++ '{' :: inner := by simpa using hrest
    have hpass := Cursor.selector?_eq_pass hsplit (by simp) hchars hstop
    obtain ⟨rfl, rfl⟩ := Prod.mk.inj (Option.some.inj (hpass.symm.trans hread))
    have hbegins := h.opens_skip.not_beginsAtRule hat
    rw [hrest] at hbegins
    have hmass : mass (.mk (.rule selector) source children :: es) =
        ink (selector.toList ++ [' ']) + mass children + 2 + mass es := by
      rw [mass_rule, ink_append, ink_cons_of_not (by decide), ink_nil]
      omega
    obtain ⟨-, hchildren, hes⟩ := h.block hmass (covers_run (selector?_inv hread).2 (by decide)) hopened hinner hclosed
      hmore
    have hbrace := (moves_char? hopened).rest_eq
    exact ⟨⟨hne, beginsAtRule_of_append hbegins⟩, hsolid.comment?_eq_none, e, f, g, hchildren,
      by simpa using hbrace.symm, hclosed, hes⟩

/-- A head of an at-rule that keeps its ink has no comment before its parameters. -/
theorem atHead?_clear {word read : List Char} (hread : c.atHead? = some (word, read, d))
    (hkept : ink c.rest ≤ ink word + ink read + 1 + ink d.rest) (hname : name ≠ "")
    (hchars : ∀ x ∈ name.toList, isKeywordChar x = true) (hparams : HeadText params)
    (hws : ws = [] ∨ ws = [' ']) (hstop : AtStop after) (hc : c.rest = atHead name params ++ (ws ++ after)) :
    comment? (params.toList ++ (ws ++ after)) = none := by
  by_cases hempty : params = ""
  · subst hempty
    refine comment?_eq_none ?_
    rintro ⟨more, he⟩
    rcases hws with rfl | rfl
    · have hslash : '/' ∈ after.head? := by
        simp only [String.toList_empty, List.nil_append] at he
        simp [← he]
      exact absurd (hstop '/' hslash) (by decide)
    · simp at he
  · have hwritten : c.rest = '@' :: (name.toList ++ ' ' :: (params.toList ++ (ws ++ after))) := by
      simpa [atHead, hempty] using hc
    obtain ⟨a, hkeyword, hrun⟩ := atHead?_inv hread
    have hpass := Cursor.keyword?_eq_pass hwritten (toList_ne_nil hname) hchars (by simp [isKeywordChar])
    obtain ⟨rfl, rfl⟩ := Prod.mk.inj (Option.some.inj (hpass.symm.trans hkeyword))
    have hrunInk := (moves_run hrun).ink_eq
    have hskipInk := (moves_skip (c.pass ('@' :: name.toList) (' ' :: (params.toList ++ (ws ++ after))))).ink_eq
    have hwrittenInk : ink c.rest = ink name.toList + ink (' ' :: (params.toList ++ (ws ++ after))) + 1 := by
      rw [hwritten, ink_cons (by decide), ink_append]
    rw [Cursor.rest_pass] at hskipInk
    have hnone : ink (gap (' ' :: (params.toList ++ (ws ++ after)))).1 = 0 := by omega
    have hblank : ∀ x ∈ [' '], isGapChar x = true := by simp [isGapChar]
    obtain ⟨-, hsolid⟩ := skip_of_ink (c := c.pass ('@' :: name.toList) _) hnone
      (List.singleton_append (x := ' ')).symm hblank (not_isGapChar_head hparams.1 (toList_ne_nil hempty))
    exact hsolid.comment?_eq_none

theorem retraces_atRule_block (h : Retraces file c (.mk (.atRule name params true) source children :: es) last)
    (hname : name ≠ "") (hchars : ∀ x ∈ name.toList, isKeywordChar x = true) (hparams : HeadText params)
    (hws : ∀ x ∈ ws, isGapChar x = true) (hc : c.rest = ws ++ (atHead name params ++ ' ' :: '{' :: inner)) :
    comment? (params.toList ++ ' ' :: '{' :: inner) = none ∧
      ∃ e f g, Retraces file e children f ∧ e.rest = inner ∧ f.char? '}' = some g ∧ Retraces file g es last := by
  have hskip := Cursor.skip_eq_pass hc hws (solid_atHead name params _)
  have hrest : c.skip.rest = atHead name params ++ ([' '] ++ '{' :: inner) := by rw [hskip, Cursor.rest_pass]; rfl
  obtain ⟨word, read, d, e, f, g, hread, rfl, rfl, hopened, hinner, hclosed, hmore⟩ :=
    h.reading.atRule_block_cases (by simp [hrest, atHead])
  have hstop : AtStop ('{' :: inner) := atStop_cons rfl
  have hmass : mass (.mk (.atRule (String.ofList word) (trimmedText read) true) source children :: es) =
      ink word + ink read + 1 + mass children + 2 + mass es := by
    rw [mass_atRule_block, String.toList_ofList, ink_trimmedText]
  obtain ⟨hkept, hchildren, hes⟩ := h.block hmass (covers_atHead? hread) hopened hinner hclosed hmore
  have hclear := atHead?_clear hread hkept hname hchars hparams (Or.inr rfl) hstop hrest
  obtain ⟨read', d', hread', -, hd⟩ := atHead?_written hname hchars hparams hclear (Or.inr rfl) hstop hrest
  obtain rfl : d' = d := congrArg (fun head => head.2.2) (Option.some.inj (hread'.symm.trans hread))
  have hbrace := (moves_char? hopened).rest_eq
  rw [hd] at hbrace
  exact ⟨hclear, e, f, g, hchildren, (List.cons.inj hbrace).2.symm, hclosed, hes⟩

theorem retraces_atRule (h : Retraces file c (.mk (.atRule name params false) source [] :: es) last)
    (hname : name ≠ "") (hchars : ∀ x ∈ name.toList, isKeywordChar x = true) (hparams : HeadText params)
    (hws : ∀ x ∈ ws, isGapChar x = true) (hc : c.rest = ws ++ (atHead name params ++ ';' :: after)) :
    comment? (params.toList ++ ';' :: after) = none ∧ ∃ e, Retraces file e es last ∧ e.rest = after := by
  have hskip := Cursor.skip_eq_pass hc hws (solid_atHead name params _)
  have hrest : c.skip.rest = atHead name params ++ ([] ++ ';' :: after) := by rw [hskip, Cursor.rest_pass]; rfl
  obtain ⟨word, read, d, e, hread, rfl, rfl, hclosed, hmore⟩ := h.reading.atRule_cases (by simp [hrest, atHead])
  have hstop : AtStop (';' :: after) := atStop_cons rfl
  have hmass : mass (.mk (.atRule (String.ofList word) (trimmedText read) false) source [] :: es) =
      ink word + ink read + 1 + mass es := by
    rw [mass_atRule, String.toList_ofList, ink_trimmedText]
  obtain ⟨hkept, hes⟩ := h.simple hmass ((covers_atHead? hread).trans (covers_close? hclosed)) hmore
  have hclosedInk := ink_close? hclosed
  have hclear := atHead?_clear hread (by omega) hname hchars hparams (Or.inl rfl) hstop hrest
  obtain ⟨read', d', hread', -, hd⟩ := atHead?_written hname hchars hparams hclear (Or.inl rfl) hstop hrest
  obtain rfl : d' = d := congrArg (fun head => head.2.2) (Option.some.inj (hread'.symm.trans hread))
  obtain rfl := Option.some.inj ((Cursor.close?_semicolon hd).symm.trans hclosed)
  exact ⟨hclear, _, hes, rfl⟩

/-- A declaration that keeps its ink has no comment before its value. -/
theorem declaration?_clear {word read : List Char} (hread : c.declaration? = some (word, read, d))
    (hkept : ink c.rest ≤ ink word + ink read + 1 + ink d.rest)
    (hchars : ∀ x ∈ property.toList, isPropertyChar x = true) (hvalue : HeadText value)
    (hc : c.rest = property.toList ++ ':' :: ' ' :: (value.toList ++ ';' :: after)) :
    Solid (value.toList ++ ';' :: after) := by
  obtain ⟨e, f, hproperty, hrun, hclosed⟩ := declaration?_inv hread
  obtain ⟨a, b, -, hword, hcolon, rfl⟩ := property?_inv hproperty
  have hpass := Cursor.run_eq_pass hc hchars (by simp [isPropertyChar])
  obtain ⟨rfl, rfl⟩ := Prod.mk.inj (hpass.symm.trans hword)
  rw [Cursor.skip_eq_self (solid_colon _)] at hcolon
  have hb : b.rest = ' ' :: (value.toList ++ ';' :: after) := by
    have hbrest := (moves_char? hcolon).rest_eq
    simpa using hbrest.symm
  have hcInk : ink c.rest = ink property.toList + (ink b.rest + 1) := by
    rw [hc, hb, ink_append, ink_cons (by decide)]
  have hskipInk := (moves_skip b).ink_eq
  have hrunInk := (moves_run hrun).ink_eq
  have hclosedInk := ink_close? hclosed
  have hhead : ∀ x ∈ (value.toList ++ ';' :: after).head?, isGapChar x = false := by
    by_cases hempty : value = ""
    · simp [hempty, isGapChar]
    · exact not_isGapChar_head hvalue.1 (toList_ne_nil hempty)
  have hblank : ∀ x ∈ [' '], isGapChar x = true := by simp [isGapChar]
  exact (skip_of_ink (by omega) (hb.trans List.singleton_append.symm) hblank hhead).2

theorem retraces_declaration (h : Retraces file c (.mk (.declaration property value) source children :: es) last)
    (hprop : Text.Trimmed property.toList) (hchars : ∀ x ∈ property.toList, isPropertyChar x = true)
    (hvalue : HeadText value) (hws : ∀ x ∈ ws, isGapChar x = true)
    (hc : c.rest = ws ++ (property.toList ++ ':' :: ' ' :: (value.toList ++ ';' :: after))) :
    (Kind.declaration property value).Headed ∧
      comment? (property.toList ++ ':' :: ' ' :: (value.toList ++ ';' :: after)) = none ∧
      comment? (value.toList ++ ';' :: after) = none ∧ ∃ e, Retraces file e es last ∧ e.rest = after := by
  by_cases hne : property = ""
  · -- Without a property the reader would stand at the colon.
    have hsplit : c.rest = ws ++ ':' :: ' ' :: (value.toList ++ ';' :: after) := by simpa [hne] using hc
    obtain ⟨hskip, -⟩ := h.skip_eq hsplit hws (by simp [isGapChar])
    have hrest : c.skip.rest = ':' :: ' ' :: (value.toList ++ ';' :: after) := by rw [hskip, Cursor.rest_pass]
    obtain ⟨word, read, d, -, hread, -⟩ := h.reading.declaration_cases (by simp [hrest])
    obtain ⟨_, _, hproperty, -⟩ := declaration?_inv hread
    rw [Cursor.property?_eq_none (by simp [hrest, isPropertyChar])] at hproperty
    simp at hproperty
  · have hne' := toList_ne_nil hne
    have hhead : ∀ x ∈ property.toList, isHeadChar x = true :=
      fun x hx => isHeadChar_of_isPropertyChar (hchars x hx)
    obtain ⟨hskip, hsolid⟩ := h.skip_eq hc hws (not_isGapChar_head hprop hne')
    have hrest : c.skip.rest = property.toList ++ ':' :: ' ' :: (value.toList ++ ';' :: after) := by
      rw [hskip, Cursor.rest_pass]
    obtain ⟨word, read, d, hat, hread, rfl, rfl, hmore⟩ :=
      h.reading.declaration_cases (hrest ▸ not_semicolon_head hhead hne')
    have hmass : mass (.mk (.declaration (trimmedText word) (trimmedText read)) source children :: es) =
        ink word + ink read + 1 + mass es := by
      rw [mass_declaration, ink_trimmedText, ink_trimmedText]
    obtain ⟨hkept, hes⟩ := h.simple hmass (covers_declaration? hread) hmore
    have hvalueSolid := declaration?_clear hread hkept hchars hvalue hrest
    have hbegins := h.opens_skip.not_beginsAtRule hat
    rw [hrest] at hbegins
    have hstop : AtStop (';' :: after) := atStop_cons rfl
    have hsplit : c.skip.rest =
        (trimmedText word).toList ++ ([] ++ ':' :: ([' '] ++ ((trimmedText read).toList ++ ';' :: after))) := by
      simpa using hrest
    have hpass := Cursor.declaration?_eq_close? hsplit hne' hchars (by simp) (by simp [isGapChar]) hvalueSolid hvalue.2
      hstop
    rw [Cursor.close?_semicolon (Cursor.rest_pass ..), Option.map_some] at hpass
    obtain rfl := congrArg (fun found => found.2.2) (Option.some.inj (hpass.symm.trans hread))
    exact ⟨⟨hne, beginsAtRule_of_append hbegins⟩, hsolid.comment?_eq_none, hvalueSolid.comment?_eq_none, _, hes, rfl⟩

/-- Behind the last statement of a block stands its closing brace. -/
theorem Retraces.rest_close (h : Retraces file c [] f) (hws : ∀ x ∈ ws, isGapChar x = true)
    (hc : c.rest = ws ++ (indent depth ++ '}' :: after)) (hclosed : f.char? '}' = some g) : g.rest = after := by
  have hblanks : ∀ x ∈ ws ++ indent depth, isGapChar x = true :=
    List.forall_mem_append.mpr ⟨hws, gapChars_indent depth⟩
  have hstop : AtStop ('}' :: after) := atStop_cons rfl
  have hskip := Cursor.skip_eq_pass (by rw [hc, List.append_assoc]) hblanks hstop.solid
  have hrest : c.skip.rest = '}' :: after := by rw [hskip, Cursor.rest_pass]
  obtain rfl := h.reading.eq_of_nil (by simp [hrest])
  have hbrace := (moves_char? hclosed).rest_eq
  rw [hrest] at hbrace
  exact (List.cons.inj hbrace).2.symm

/-- Printed statements that are read as themselves without a loss have their heads and no comments, and the reader comes
to what was printed behind them. -/
def Retraced (file : SourceText) (es : List Element) : Prop :=
  ∀ depth ws after (c : Cursor) found more last, Retraces file c found last → (∀ x ∈ ws, isGapChar x = true) →
    c.rest = ws ++ (writeAll depth es ++ after) → bareAll found = bareAll es ++ more →
    (∀ x ∈ partsAll es, x.kind.Headed) ∧ ClearAll depth after es ∧
      ∃ d ws' found', Retraces file d found' last ∧ bareAll found' = more ∧ (∀ x ∈ ws', isGapChar x = true) ∧
        d.rest = ws' ++ after

theorem Retraced.block (hall : Retraced file children) (h : Retraces file e found f)
    (hbare : bareAll found = bareAll children)
    (he : e.rest = '\n' :: (writeAll (depth + 1) children ++ (indent depth ++ '}' :: after)))
    (hclosed : f.char? '}' = some g) :
    (∀ x ∈ partsAll children, x.kind.Headed) ∧ ClearAll (depth + 1) (indent depth ++ '}' :: after) children ∧
      g.rest = after := by
  obtain ⟨hheaded, hclear, d, ws, found', hd, hnil, hws, hdrest⟩ :=
    hall (depth + 1) ['\n'] _ e found [] f h (by simp [isGapChar]) he (by rw [hbare, List.append_nil])
  obtain rfl := bareAll_eq_nil.mp hnil
  exact ⟨hheaded, hclear, hd.rest_close hws hdrest hclosed⟩

theorem Retraced.first {kind : Kind} {source' : Option Source} {children' : List Element}
    (hall : Retraced file children) (h : Retraces file c (.mk kind source' children' :: es) last)
    (hshaped : kind.Shaped children) (hbare : bareAll children' = bareAll children)
    (hws : ∀ x ∈ ws, isGapChar x = true) (hc : c.rest = ws ++ (write depth (.mk kind source children) ++ after)) :
    (kind.Headed ∧ ∀ x ∈ partsAll children, x.kind.Headed) ∧ (Element.mk kind source children).Clear depth after ∧
      ∃ g, Retraces file g es last ∧ g.rest = '\n' :: after := by
  have hblanks : ∀ x ∈ ws ++ indent depth, isGapChar x = true :=
    List.forall_mem_append.mpr ⟨hws, gapChars_indent depth⟩
  cases kind with
  | root => exact hshaped.elim
  | rule selector =>
    have hsplit : c.rest = (ws ++ indent depth) ++ (selector.toList ++ ' ' :: '{' :: '\n' ::
        (writeAll (depth + 1) children ++ (indent depth ++ '}' :: '\n' :: after))) := by
      simpa [write] using hc
    obtain ⟨hhead, hclear, e, f, g, he, hinner, hclosed, hg⟩ := retraces_rule h hshaped hblanks hsplit
    obtain ⟨hheaded, hclearIn, hgrest⟩ := hall.block he hbare hinner hclosed
    have hstarts : ∀ s ∈ [selector.toList ++ _], comment? s = none := List.forall_mem_singleton.mpr hclear
    exact ⟨⟨hhead, hheaded⟩, ⟨hstarts, hclearIn⟩, g, hg, hgrest⟩
  | atRule name params hasBlock =>
    obtain ⟨⟨hname, hchars⟩, hparams, hblock⟩ := hshaped
    cases hasBlock with
    | true =>
      have hsplit : c.rest = (ws ++ indent depth) ++ (atHead name params ++ ' ' :: '{' :: '\n' ::
          (writeAll (depth + 1) children ++ (indent depth ++ '}' :: '\n' :: after))) := by
        simpa [write] using hc
      obtain ⟨hclear, e, f, g, he, hinner, hclosed, hg⟩ := retraces_atRule_block h hname hchars hparams hblanks hsplit
      obtain ⟨hheaded, hclearIn, hgrest⟩ := hall.block he hbare hinner hclosed
      have hstarts : ∀ s ∈ [params.toList ++ _], comment? s = none := List.forall_mem_singleton.mpr hclear
      exact ⟨⟨trivial, hheaded⟩, ⟨hstarts, hclearIn⟩, g, hg, hgrest⟩
    | false =>
      obtain rfl : children = [] := by simpa using hblock
      obtain rfl := bareAll_eq_nil.mp hbare
      have hsplit : c.rest = (ws ++ indent depth) ++ (atHead name params ++ ';' :: '\n' :: after) := by
        simpa [write] using hc
      obtain ⟨hclear, g, hg, hgrest⟩ := retraces_atRule h hname hchars hparams hblanks hsplit
      have hstarts : ∀ s ∈ [params.toList ++ _], comment? s = none := List.forall_mem_singleton.mpr hclear
      exact ⟨⟨trivial, by simp⟩, ⟨hstarts, trivial⟩, g, hg, hgrest⟩
  | declaration property value =>
    obtain ⟨⟨hprop, hchars⟩, hvalue, hleaf⟩ := hshaped
    obtain rfl : children = [] := by simpa using hleaf
    have hsplit : c.rest = (ws ++ indent depth) ++
        (property.toList ++ ':' :: ' ' :: (value.toList ++ ';' :: '\n' :: after)) := by
      simpa [write] using hc
    obtain ⟨hhead, hclear, hclearValue, g, hg, hgrest⟩ := retraces_declaration h hprop hchars hvalue hblanks hsplit
    have hstarts : ∀ s ∈ [property.toList ++ ':' :: ' ' :: _, value.toList ++ _], comment? s = none :=
      List.forall_mem_cons.mpr ⟨hclear, List.forall_mem_singleton.mpr hclearValue⟩
    exact ⟨⟨hhead, by simp⟩, ⟨hstarts, trivial⟩, g, hg, hgrest⟩

theorem retraced (file : SourceText) (es : List Element) (hshaped : ∀ x ∈ partsAll es, x.kind.Shaped x.children) :
    Retraced file es := by
  induction es using forest_induction with
  | nil =>
    intro depth ws after c found more last h hws hc hbare
    exact ⟨by simp, trivial, c, ws, found, h, hbare, hws, by simpa [writeAll] using hc⟩
  | cons kind source children rest hchildren hrest =>
    simp only [partsAll_cons, List.forall_mem_cons, List.forall_mem_append] at hshaped
    obtain ⟨hfirst, hshapedChildren, hshapedRest⟩ := hshaped
    intro depth ws after c found more last h hws hc hbare
    obtain ⟨source', children', found', rfl, hbareChildren, hbareRest⟩ := bareAll_eq_cons hbare
    rw [writeAll, List.append_assoc] at hc
    obtain ⟨⟨hhead, hheaded⟩, hclear, g, hg, hgrest⟩ :=
      (hchildren hshapedChildren).first h hfirst hbareChildren hws hc
    obtain ⟨hheadedRest, hclearRest, hend⟩ :=
      hrest hshapedRest depth ['\n'] after g found' more last hg (by simp [isGapChar]) hgrest hbareRest
    simp only [partsAll_cons, List.forall_mem_cons, List.forall_mem_append]
    exact ⟨⟨hhead, hheaded, hheadedRest⟩, ⟨hclear, hclearRest⟩, hend⟩

end StyleMixins.Sheet
