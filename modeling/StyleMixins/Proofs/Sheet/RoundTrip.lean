import StyleMixins.Expansion.Run
import StyleMixins.Proofs.Sheet.Comments
import StyleMixins.Proofs.Sheet.Readers
import StyleMixins.Sheet.Parse

namespace StyleMixins.Sheet

open Element

variable {file : SourceText} {c d : Cursor} {selector name params property value : String}
  {inner after ws cs : List Char} {children : List Element} {source : Option Source} {depth : Nat}

/-- Behind an opening brace the text is a block with the given statements. -/
def ReadsBlock (file : SourceText) (inner : List Char) (children : List Element) (after : List Char) : Prop :=
  ∀ d : Cursor, d.rest = '{' :: inner →
    ∃ found e, block? file d = some (found, e) ∧ bareAll found = bareAll children ∧ e.rest = after

def ReadsStatement (file : SourceText) (cs : List Char) (x : Element) (after : List Char) : Prop :=
  ∀ c : Cursor, c.rest = cs →
    ∃ found e, statement? file c = some (some found, e) ∧ found.bare = x.bare ∧ e.rest = after

theorem block?_eq_none {x : Char} (h : d.rest = x :: after) (hx : x ≠ '{') : block? file d = none :=
  block?_of_not_open (Cursor.char?_eq_none (by simp [h, hx]))

theorem readsStatement_rule (hsel : HeadText selector) (hne : selector ≠ "")
    (hat : beginsAtRule selector.toList = false) (hb : ReadsBlock file inner children after) :
    ReadsStatement file (selector.toList ++ ' ' :: '{' :: inner) (.mk (.rule selector) source children) after := by
  intro c hc
  have hbegins : beginsAtRule c.rest = false := by
    rw [hc]
    exact beginsAtRule_append hat (toList_ne_nil hne) (by simp [isKeywordChar])
  have hchars : ∀ x ∈ selector.toList ++ [' '], isHeadChar x = true :=
    List.forall_mem_append.mpr ⟨hsel.2, List.forall_mem_singleton.mpr (by decide)⟩
  have hstop : AtStop ('{' :: inner) := atStop_cons rfl
  have hhead := Cursor.selector?_eq_pass (by rw [hc]; simp) (by simp) hchars hstop
  obtain ⟨found, e, hfound, hbare, he⟩ := hb (c.pass (selector.toList ++ [' ']) ('{' :: inner)) rfl
  have hrule : rule? file c = _ := rule?_of_selector hhead
  rw [hfound, Option.map_some] at hrule
  refine ⟨_, e, statement?_of_rule (atRule?_of_no_head (Cursor.atHead?_eq_none hbegins)) hrule, ?_, he⟩
  rw [element, bare, bare, trimmedText_append (by simp [isGapChar]), trimmedText_eq hsel.1, hbare]

theorem solid_atHead (name params : String) (cs : List Char) : Solid (atHead name params ++ cs) := by
  refine solid_of_head (by simp [atHead, isGapChar]) ?_
  rintro ⟨more, he⟩
  simp [atHead] at he

/-- The head of an at-rule is found again, with or without a blank behind it. -/
theorem atHead?_written (hname : name ≠ "") (hchars : ∀ x ∈ name.toList, isKeywordChar x = true)
    (hparams : HeadText params) (hclear : comment? (params.toList ++ (ws ++ after)) = none)
    (hws : ws = [] ∨ ws = [' ']) (hstop : AtStop after) (hc : c.rest = atHead name params ++ (ws ++ after)) :
    ∃ read d, c.atHead? = some (name.toList, read, d) ∧ trimmedText read = params ∧ d.rest = after := by
  have hgap : ∀ x ∈ ws, isGapChar x = true := by
    rcases hws with rfl | rfl <;> simp [isGapChar]
  by_cases hempty : params = ""
  · have hnext : ∀ x ∈ (ws ++ ([] ++ after)).head?, isKeywordChar x = false := by
      rcases hws with rfl | rfl
      · exact fun x hx => hstop.not_keyword hx
      · simp [isKeywordChar]
    have hhead := Cursor.atHead?_eq_pass (c := c) (by simpa [atHead, hempty] using hc) (toList_ne_nil hname) hchars
      hnext hgap hstop.solid (by simp) hstop
    exact ⟨[], _, hhead, by rw [hempty]; rfl, rfl⟩
  · have hne := toList_ne_nil hempty
    have hwritten : c.rest = '@' :: (name.toList ++ ([' '] ++ ((params.toList ++ ws) ++ after))) := by
      simpa [atHead, hempty] using hc
    have hsolid : Solid ((params.toList ++ ws) ++ after) := by
      rw [List.append_assoc]
      exact solid_append hparams.1 hne hclear
    have hall : ∀ x ∈ params.toList ++ ws, isHeadChar x = true :=
      List.forall_mem_append.mpr ⟨hparams.2, fun x hx => isHeadChar_of_isGapChar (hgap x hx)⟩
    have hhead := Cursor.atHead?_eq_pass hwritten (toList_ne_nil hname) hchars (by simp [isKeywordChar])
      (by simp [isGapChar]) hsolid hall hstop
    exact ⟨_, _, hhead, (trimmedText_append hgap).trans (trimmedText_eq hparams.1), rfl⟩

theorem readsStatement_atRule_block (hname : name ≠ "") (hchars : ∀ x ∈ name.toList, isKeywordChar x = true)
    (hparams : HeadText params) (hclear : comment? (params.toList ++ ' ' :: '{' :: inner) = none)
    (hb : ReadsBlock file inner children after) :
    ReadsStatement file (atHead name params ++ ' ' :: '{' :: inner) (.mk (.atRule name params true) source children)
      after := by
  intro c hc
  obtain ⟨read, d, hhead, hread, hd⟩ := atHead?_written hname hchars hparams hclear (Or.inr rfl)
    (atStop_cons rfl) hc
  obtain ⟨found, e, hfound, hbare, he⟩ := hb d hd
  refine ⟨_, e, statement?_of_atRule (atRule?_of_block hhead hfound), ?_, he⟩
  rw [element, bare, bare, hread, String.ofList_toList, hbare]

theorem readsStatement_atRule (hname : name ≠ "") (hchars : ∀ x ∈ name.toList, isKeywordChar x = true)
    (hparams : HeadText params) (hclear : comment? (params.toList ++ ';' :: after) = none) :
    ReadsStatement file (atHead name params ++ ';' :: after) (.mk (.atRule name params false) source []) after := by
  intro c hc
  obtain ⟨read, d, hhead, hread, hd⟩ := atHead?_written hname hchars hparams hclear (Or.inl rfl)
    (atStop_cons rfl) hc
  have hrule : atRule? file c = _ := atRule?_of_no_block hhead (block?_eq_none hd (by decide))
  rw [Cursor.close?_semicolon hd, Option.map_some] at hrule
  refine ⟨_, _, statement?_of_atRule hrule, ?_, rfl⟩
  rw [element, bare, bare, hread, String.ofList_toList]

theorem readsStatement_declaration (hprop : Text.Trimmed property.toList)
    (hchars : ∀ x ∈ property.toList, isPropertyChar x = true) (hne : property ≠ "")
    (hat : beginsAtRule property.toList = false) (hvalue : HeadText value)
    (hclear : comment? (value.toList ++ ';' :: after) = none) :
    ReadsStatement file (property.toList ++ ':' :: ' ' :: (value.toList ++ ';' :: after))
      (.mk (.declaration property value) source []) after := by
  intro c hc
  have hstop : AtStop (';' :: after) := atStop_cons rfl
  have hbegins : beginsAtRule c.rest = false := by
    rw [hc]
    exact beginsAtRule_append hat (toList_ne_nil hne) (by simp [isKeywordChar])
  have hsolid : Solid (value.toList ++ ';' :: after) := by
    by_cases hempty : value = ""
    · simpa [hempty] using hstop.solid
    · exact solid_append hvalue.1 (toList_ne_nil hempty) hclear
  have hall : ∀ x ∈ property.toList ++ ':' :: ' ' :: value.toList, isHeadChar x = true := by
    simp only [List.forall_mem_append, List.forall_mem_cons]
    exact ⟨fun x hx => isHeadChar_of_isPropertyChar (hchars x hx), by decide, by decide, hvalue.2⟩
  have hselector := Cursor.selector?_eq_pass (by simpa using hc) (by simp) hall hstop
  have hrule : rule? file c = none := by
    rw [rule?_of_selector hselector, block?_eq_none (Cursor.rest_pass ..) (by decide), Option.map_none]
  have hsplit : c.rest = property.toList ++ ([] ++ ':' :: ([' '] ++ (value.toList ++ ';' :: after))) := by
    simpa using hc
  have hread := Cursor.declaration?_eq_close? hsplit (toList_ne_nil hne) hchars (by simp) (by simp [isGapChar]) hsolid
    hvalue.2 hstop
  rw [Cursor.close?_semicolon (Cursor.rest_pass ..), Option.map_some] at hread
  have hstatement := statement?_of_no_block (atRule?_of_no_head (Cursor.atHead?_eq_none hbegins)) hrule
  simp only [declaration?, hread, Option.map_some, Option.some_or] at hstatement
  refine ⟨_, _, hstatement, ?_, rfl⟩
  rw [element, bare, bare, trimmedText_eq hvalue.1, trimmedText_eq hprop]

theorem gapChars_indent (depth : Nat) : ∀ x ∈ indent depth, isGapChar x = true := by
  intro x hx
  rw [List.eq_of_mem_replicate hx]
  decide

/-- After ignored text and printed statements with no comment before their texts a reader has read these and stands
before what follows. -/
def ReadsAll (file : SourceText) (es : List Element) : Prop :=
  ∀ depth ws after (c : Cursor), ClearAll depth after es → (∀ x ∈ ws, isGapChar x = true) →
    c.rest = ws ++ (writeAll depth es ++ after) →
    ∃ found, ∃ d : Cursor, ∃ ws', (∀ x ∈ ws', isGapChar x = true) ∧ d.rest = ws' ++ after ∧ bareAll found = bareAll es ∧
      statements file c.skip = (found ++ (statements file d.skip).1, (statements file d.skip).2)

theorem readsAll_nil : ReadsAll file [] := by
  intro depth ws after c _ hws hc
  exact ⟨[], c, ws, hws, by simpa [writeAll] using hc, rfl, rfl⟩

/-- A block of printed statements, with its closing brace. -/
theorem ReadsAll.readsBlock (h : ReadsAll file children)
    (hclear : ClearAll (depth + 1) (indent depth ++ '}' :: after) children) :
    ReadsBlock file ('\n' :: (writeAll (depth + 1) children ++ (indent depth ++ '}' :: after))) children after := by
  intro d hd
  have hopened := Cursor.char?_eq_pass hd
  obtain ⟨found, e, ws, hws, he, hbare, hread⟩ := h (depth + 1) ['\n'] (indent depth ++ '}' :: after)
    (d.pass ['{'] _) hclear (by simp [isGapChar]) rfl
  have hstop : AtStop ('}' :: after) := atStop_cons rfl
  have hgap : ∀ x ∈ ws ++ indent depth, isGapChar x = true :=
    List.forall_mem_append.mpr ⟨hws, gapChars_indent depth⟩
  have hskip := Cursor.skip_eq_pass (by rw [he, List.append_assoc]) hgap hstop.solid
  have hrest : e.skip.rest = '}' :: after := by rw [hskip, Cursor.rest_pass]
  have hnone : statement? file e.skip = none := by
    rw [statement?_of_atStop (by rwa [hrest]), Cursor.char?_eq_none (by simp [hrest]), Option.map_none]
  rw [statements_of_none hnone, List.append_nil] at hread
  refine ⟨found, e.skip.pass ['}'] after, ?_, hbare, rfl⟩
  rw [block?_of_open hopened hread, Cursor.char?_eq_pass hrest, Option.map_some]

/-- Behind its indentation the text of a statement is read as the statement, up to the end of its last line. -/
structure Written (file : SourceText) (x : Element) (depth : Nat) (after text : List Char) : Prop where
  text_eq : x.write depth ++ after = indent depth ++ text
  solid : Solid text
  longer : after.length < text.length
  reads : ReadsStatement file text x ('\n' :: after)

theorem Legible.exists_written {x : Element} (hx : x.Legible) (hc : ReadsAll file x.children)
    (hclear : x.Clear depth after) : ∃ text, Written file x depth after text := by
  obtain ⟨kind, source, children⟩ := x
  have hshaped : kind.Shaped children := hx.shaped
  have hheaded : kind.Headed := hx.headed
  obtain ⟨hstarts, hinner⟩ := hclear
  cases kind with
  | root => exact hshaped.elim
  | rule selector =>
    have hne := toList_ne_nil hheaded.1
    refine ⟨selector.toList ++ ' ' :: '{' :: '\n' ::
      (writeAll (depth + 1) children ++ (indent depth ++ '}' :: '\n' :: after)), ?_, ?_, ?_, ?_⟩
    · simp [write]
    · exact solid_append hshaped.1 hne (hstarts _ (List.mem_singleton_self _))
    · simp only [List.length_append, List.length_cons]
      omega
    · exact readsStatement_rule hshaped hheaded.1 hheaded.2 (hc.readsBlock hinner)
  | atRule name params hasBlock =>
    obtain ⟨⟨hname, hchars⟩, hparams, hblock⟩ := hshaped
    have hparamsClear := hstarts _ (List.mem_singleton_self _)
    cases hasBlock with
    | true =>
      refine ⟨atHead name params ++ ' ' :: '{' :: '\n' ::
        (writeAll (depth + 1) children ++ (indent depth ++ '}' :: '\n' :: after)), ?_, solid_atHead .., ?_, ?_⟩
      · simp [write]
      · simp only [List.length_append, List.length_cons]
        omega
      · exact readsStatement_atRule_block hname hchars hparams hparamsClear (hc.readsBlock hinner)
    | false =>
      obtain rfl : children = [] := by simpa using hblock
      refine ⟨atHead name params ++ ';' :: '\n' :: after, ?_, solid_atHead .., ?_, ?_⟩
      · simp [write]
      · simp only [List.length_append, List.length_cons]
        omega
      · exact readsStatement_atRule hname hchars hparams hparamsClear
  | declaration property value =>
    obtain ⟨⟨hprop, hchars⟩, hvalue, hleaf⟩ := hshaped
    obtain rfl : children = [] := by simpa using hleaf
    have hne := toList_ne_nil hheaded.1
    refine ⟨property.toList ++ ':' :: ' ' :: (value.toList ++ ';' :: '\n' :: after), ?_, ?_, ?_, ?_⟩
    · simp [write]
    · exact solid_append hprop hne (hstarts _ (by simp [Kind.starts, tail]))
    · simp only [List.length_append, List.length_cons]
      omega
    · exact readsStatement_declaration hprop hchars hheaded.1 hheaded.2 hvalue
        (hstarts _ (by simp [Kind.starts, tail]))

theorem ReadsAll.cons {x : Element} {es : List Element}
    (hx : ∀ depth after, x.Clear depth after → ∃ text, Written file x depth after text) (hes : ReadsAll file es) :
    ReadsAll file (x :: es) := by
  intro depth ws after c hclear hws hc
  obtain ⟨text, w⟩ := hx depth (writeAll depth es ++ after) hclear.1
  have hgap : ∀ y ∈ ws ++ indent depth, isGapChar y = true :=
    List.forall_mem_append.mpr ⟨hws, gapChars_indent depth⟩
  have hskip : c.skip = c.pass (ws ++ indent depth) text := by
    refine Cursor.skip_eq_pass ?_ hgap w.solid
    rw [hc, writeAll, List.append_assoc, w.text_eq, List.append_assoc]
  have hrest : c.skip.rest = text := by rw [hskip, Cursor.rest_pass]
  obtain ⟨found, d, hfound, hbare, hd⟩ := w.reads c.skip hrest
  obtain ⟨more, e, ws', hws', he, hmore, hread⟩ := hes depth ['\n'] after d hclear.2 (by simp [isGapChar]) hd
  have hlt : d.skip.rest.length < c.skip.rest.length := by
    have hle := length_gap_le (writeAll depth es ++ after)
    have hnext : d.skip.rest = (gap (writeAll depth es ++ after)).2 := by
      rw [Cursor.skip, Cursor.rest_pass, hd, gap_of_isGapChar (by decide)]
    have hlonger := w.longer
    rw [hnext, hrest]
    omega
  refine ⟨found :: more, e, ws', hws', he, ?_, ?_⟩
  · rw [bareAll, bareAll, hbare, hmore]
  · rw [statements_of_some hfound hlt hread]
    rfl

theorem readsAll (file : SourceText) (es : List Element) (h : ∀ x ∈ partsAll es, x.Legible) : ReadsAll file es := by
  induction es using forest_induction with
  | nil => exact readsAll_nil
  | cons kind source children rest hc hr =>
    simp only [partsAll_cons, List.mem_cons, List.mem_append] at h
    have hchildren := hc fun x hx => h x (Or.inr (Or.inl hx))
    have hrest := hr fun x hx => h x (Or.inr (Or.inr hx))
    exact ReadsAll.cons (fun _ _ => Legible.exists_written (h _ (Or.inl rfl)) hchildren) hrest

theorem exists_not_blank_write {x : Element} (h : x.kind.Shaped x.children) (depth : Nat) :
    ∃ y ∈ x.write depth, Text.isBlank y = false := by
  obtain ⟨kind, source, children⟩ := x
  cases kind with
  | root => exact h.elim
  | rule selector => exact ⟨'}', by simp [write], by decide⟩
  | atRule name params hasBlock => exact ⟨'@', by simp only [write]; split <;> simp [atHead], by decide⟩
  | declaration property value => exact ⟨';', by simp [write], by decide⟩

theorem exists_not_blank_writeAll {es : List Element} (h : ∀ x ∈ partsAll es, x.kind.Shaped x.children)
    (hne : es ≠ []) : ∃ y ∈ writeAll 0 es, Text.isBlank y = false := by
  match es, hne with
  | .mk kind source children :: rest, _ =>
    have hfirst : kind.Shaped children := h (.mk kind source children) (by simp)
    obtain ⟨y, hy, hblank⟩ := exists_not_blank_write (x := .mk kind source children) hfirst 0
    exact ⟨y, List.mem_append_left _ hy, hblank⟩

theorem toList_print_root (source : Option Source) (es : List Element) :
    (Element.mk .root source es).print.toList = writeAll 0 es := by
  rw [print, write, String.toList_ofList]

theorem document?_print {e : Element} (hroot : e.kind = .root) (h : ∀ x ∈ partsAll e.children, x.Legible)
    (hquiet : Uncommented (texts e.children)) (hfile : file.content = e.print) :
    ∃ found, document? file = some found ∧ bareAll found = bareAll e.children := by
  obtain ⟨kind, source, children⟩ := e
  obtain rfl : kind = .root := hroot
  have hclear : ClearAll 0 [] children := (clearAll_nil_iff fun x hx => (h x hx).shaped).mpr hquiet
  have htext : (Cursor.ofText file.content).rest = [] ++ (writeAll 0 children ++ []) := by
    rw [Cursor.ofText, hfile, toList_print_root, List.append_nil, List.nil_append]
  obtain ⟨found, d, ws, hws, hd, hbare, hread⟩ := readsAll file children h 0 [] [] _ hclear (by simp) htext
  have hend : d.skip.rest = [] := by
    rw [Cursor.skip_eq_pass hd hws solid_nil, Cursor.rest_pass]
  have hnone : statement? file d.skip = none := by
    rw [statement?_of_atStop (by simp [AtStop, hend]), Cursor.char?_eq_none (by simp [hend]), Option.map_none]
  rw [statements_of_none hnone, List.append_nil] at hread
  refine ⟨found, ?_, hbare⟩
  rw [document?, hread]
  simp [hend]

theorem parse_print {e : Element} (hroot : e.kind = .root) (h : ∀ x ∈ partsAll e.children, x.Legible)
    (hquiet : Uncommented (texts e.children)) (hfile : file.content = e.print) :
    ∃ e', parse file = .ok e' ∧ e'.bare = e.bare := by
  obtain ⟨found, hfound, hbare⟩ := document?_print hroot h hquiet hfile
  by_cases hblank : Text.trim file.content.toList = []
  · obtain ⟨place, hparse⟩ := parse_of_blank hblank
    refine ⟨_, hparse, ?_⟩
    obtain ⟨kind, source, children⟩ := e
    obtain rfl : kind = .root := hroot
    have hall := Text.trim_eq_nil hblank
    rw [hfile, toList_print_root] at hall
    by_cases hne : children = []
    · rw [hne]
      rfl
    · obtain ⟨y, hy, hnot⟩ := exists_not_blank_writeAll (fun x hx => (h x hx).shaped) hne
      simp [hall y hy] at hnot
  · obtain ⟨place, hparse⟩ := parse_of_document? hblank hfound
    refine ⟨_, hparse, ?_⟩
    rw [bare_children, bare_children, hroot]
    exact congrArg _ hbare

/-- A printable tree in a store is read back from its printed text, up to node numbers and sources. -/
theorem parse_snapshot_of_printable {t : Tree} {e : Element} (ht : t.element? Tree.root = some e) (h : e.Printable) :
    ∃ e', parse ⟨inlineName, Expansion.snapshot t Tree.root⟩ = .ok e' ∧ e'.bare = e.bare := by
  have hsnapshot : Expansion.snapshot t Tree.root = e.print := by rw [Expansion.snapshot, ht]
  have hlegible : ∀ x ∈ partsAll e.children, x.Legible := fun x hx => ⟨(h.2 x hx).1, (h.2 x hx).2.1⟩
  have hquiet : Uncommented (texts e.children) := by
    refine uncommented_of_not_opens fun s hs hopen => ?_
    obtain ⟨x, hx, hs⟩ := List.mem_flatMap.mp hs
    exact (h.2 x hx).2.2 s hs hopen.isInfix
  exact parse_print h.1 hlegible hquiet hsnapshot

namespace Sample

/-- A rule in an at-rule, with a declaration that has no value and an at-rule that has no block. -/
def printable : Element :=
  .mk .root none
    [.mk (.atRule "media" "print" true) none
      [.mk (.rule "@ a:b") none
        [.mk (.declaration "--x" "") none [], .mk (.atRule "content" "" false) none []]],
      .mk (.declaration "@" "/ *") none []]

theorem printable_printable : printable.Printable := by
  refine ⟨rfl, ?_⟩
  simp only [printable, Element.children, Element.kind, partsAll_cons, partsAll_nil, List.nil_append, List.append_nil,
    List.cons_append, List.forall_mem_cons, List.not_mem_nil, false_imp_iff, implies_true, and_true, Kind.Shaped,
    Kind.Headed, Kind.texts, HeadText, String.reduceToList]
  exact ⟨by decide, by decide, by decide, by decide, by decide⟩

end Sample

theorem parse_snapshot_of_printable_media : Sample.printable.Printable ∧
    ∃ e', parse ⟨inlineName, Expansion.snapshot (Tree.ofElement Sample.printable) Tree.root⟩ = .ok e' ∧
      e'.bare = Sample.printable.bare :=
  ⟨Sample.printable_printable, parse_snapshot_of_printable rfl Sample.printable_printable⟩

end StyleMixins.Sheet
