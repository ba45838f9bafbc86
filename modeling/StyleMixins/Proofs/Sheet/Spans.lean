import StyleMixins.Proofs.Sheet.Places

namespace StyleMixins

namespace SourceText

variable {file : SourceText} {start stop : Nat} {cs : List Char}

/-- A byte offset that lies between two characters, or at either end of the text. -/
def Boundary (file : SourceText) (offset : Nat) : Prop :=
  String.Pos.Raw.IsValid file.content ⟨offset⟩

/-- The text between two byte offsets. -/
def Slice (file : SourceText) (start stop : Nat) (cs : List Char) : Prop :=
  ∃ before after, file.content.toList = before ++ (cs ++ after) ∧ start = (String.ofList before).utf8ByteSize ∧
    stop = (String.ofList (before ++ cs)).utf8ByteSize

theorem boundary_of_append {before after : List Char} (h : file.content.toList = before ++ after) :
    file.Boundary (String.ofList before).utf8ByteSize := by
  refine String.Pos.Raw.isValid_iff_exists_append.mpr ⟨String.ofList before, String.ofList after, ?_, rfl⟩
  rw [← String.ofList_append, ← h, String.ofList_toList]

theorem Boundary.le (h : file.Boundary stop) : stop ≤ file.content.utf8ByteSize :=
  String.Pos.Raw.IsValid.le_rawEndPos h

theorem Slice.boundaries (h : file.Slice start stop cs) : file.Boundary start ∧ file.Boundary stop := by
  obtain ⟨before, after, htext, rfl, rfl⟩ := h
  exact ⟨boundary_of_append htext, boundary_of_append (htext.trans (List.append_assoc ..).symm)⟩

theorem Slice.le (h : file.Slice start stop cs) : start ≤ stop := by
  obtain ⟨before, after, -, rfl, rfl⟩ := h
  rw [String.ofList_append, String.utf8ByteSize_append]
  omega

theorem Slice.lt (h : file.Slice start stop cs) (hne : cs ≠ []) : start < stop := by
  obtain ⟨before, after, -, rfl, rfl⟩ := h
  have hpos : (String.ofList cs).utf8ByteSize ≠ 0 := by
    rw [Ne, String.utf8ByteSize_eq_zero_iff]
    simpa using hne
  rw [String.ofList_append, String.utf8ByteSize_append]
  omega

end SourceText

namespace Sheet

open Element

variable {file : SourceText} {b c d : Cursor} {before lead taken cs ws : List Char} {es : List Element} {kind : Kind}
  {x y z : Element} {start stop : Nat}

/-- Text that is part of no statement. A comment ends with the first `*/` behind its `/*`. -/
inductive Filler : List Char → Prop
  | nil : Filler []
  | char {c : Char} {cs : List Char} (known : c ∈ [' ', '\t', '\r', '\n', ';']) (rest : Filler cs) : Filler (c :: cs)
  | comment {body cs : List Char} (first : ¬['*', '/'] <:+: body) (rest : Filler cs) :
      Filler ('/' :: '*' :: (body ++ '*' :: '/' :: cs))

theorem Filler.append (h : Filler cs) (h' : Filler ws) : Filler (cs ++ ws) := by
  induction h with
  | nil => exact h'
  | char known _ ih => exact .char known ih
  | comment first _ ih =>
    simp only [List.cons_append, List.append_assoc]
    exact .comment first ih

theorem commentEnd_inv {taken after : List Char} (h : commentEnd cs = some (taken, after)) :
    ∃ body, taken = body ++ ['*', '/'] ∧ ¬['*', '/'] <:+: body := by
  fun_induction commentEnd cs generalizing taken after with
  | case1 => simp at h
  | case2 rest =>
    obtain ⟨rfl, rfl⟩ : ['*', '/'] = taken ∧ rest = after := by simpa using h
    exact ⟨[], rfl, by simp⟩
  | case3 c rest hfirst taken' after' closed ih =>
    obtain ⟨rfl, rfl⟩ : c :: taken' = taken ∧ after' = after := by simpa using h
    obtain ⟨body, rfl, hbody⟩ := ih closed
    refine ⟨c :: body, rfl, ?_⟩
    rw [List.infix_cons_iff]
    rintro (⟨tail, hprefix⟩ | hinfix)
    · -- Then the comment would have ended right here.
      obtain ⟨rfl, hslash⟩ := List.cons.inj hprefix
      have hrest := commentEnd_append closed
      rw [← hslash] at hrest
      exact hfirst _ rfl hrest.symm
    · exact hbody hinfix
  | case4 => simp at h

theorem filler_gap (cs : List Char) : Filler (gap cs).1 := by
  fun_induction gap cs with
  | case1 => exact .nil
  | case2 x rest hx ignored left gapRest ih =>
    rw [gapRest] at ih
    refine .char ?_ ih
    rcases eq_of_isGapChar hx with rfl | rfl | rfl | rfl <;> simp
  | case3 x rest _ taken after closed ignored left gapAfter ih =>
    rw [gapAfter] at ih
    unfold comment? at closed
    split at closed
    next inner _ =>
      split at closed
      next taken' after' hend =>
        obtain ⟨rfl, rfl⟩ : '/' :: '*' :: taken' = taken ∧ after' = after := by simpa using closed
        obtain ⟨body, rfl, hbody⟩ := commentEnd_inv hend
        simpa using Filler.comment hbody ih
      next => simp at closed
    next => simp at closed
  | case4 => exact .nil

/-- The node comes from this part of the text. -/
def At (file : SourceText) (x : Element) (span : Span) : Prop :=
  ∃ s, x.source = some s ∧ s.file = file ∧ s.span = span

def Filled (file : SourceText) (start stop : Nat) : Prop :=
  ∃ cs, file.Slice start stop cs ∧ Filler cs

/-- Between two offsets stand these siblings, in order and apart, and else filler. -/
def Tiled (file : SourceText) (start : Nat) : List Element → Nat → Prop
  | [], stop => Filled file start stop
  | x :: rest, stop =>
    ∃ span, At file x span ∧ Filled file start span.start ∧ span.start < span.stop ∧ Tiled file span.stop rest stop

theorem Cursor.Within.slice (h : c.Within file before) (m : Moves c taken d) :
    file.Slice c.place.offset d.place.offset taken := by
  refine ⟨before, d.rest, ?_, h.offset_eq, (h.moves m).offset_eq⟩
  rw [h.text_eq, m.rest_eq]

theorem Cursor.Within.tiled_cons (h : b.Within file before) (m : Moves b lead c) (hlead : Filler lead)
    (m' : Moves c taken d) (hne : taken ≠ []) (children : List Element)
    (hrest : Tiled file d.place.offset es stop) :
    Tiled file b.place.offset (element file c d kind children :: es) stop :=
  ⟨⟨c.place.offset, d.place.offset⟩, ⟨_, rfl, rfl, rfl⟩, ⟨lead, h.slice m, hlead⟩, ((h.moves m).slice m').lt hne, hrest⟩

theorem moves_declaration? (file : SourceText) {property value : List Char} (h : c.declaration? = some (property, value, d)) :
    ∃ taken, Moves c (property ++ taken) d ∧ property ≠ [] := by
  obtain ⟨e, f, hproperty, hvalue, hclosed⟩ := declaration?_inv h
  obtain ⟨g, i, hne, hrun, hcolon, rfl⟩ := property?_inv hproperty
  have mbody := (moves_skip g).trans ((moves_char? hcolon).trans ((moves_skip i).trans (moves_run hvalue)))
  obtain ⟨closing, mclose, -⟩ : Covers file f 0 d := covers_close? hclosed
  exact ⟨_, (moves_run hrun).trans (mbody.trans mclose), hne⟩

/-- The text in front of a block, as the kind of the statement says it. -/
def HeadIs (head : List Char) : Kind → Prop
  | .rule selector => selector = trimmedText head
  | .atRule name params _ =>
    ∃ ignored written, head = '@' :: (name.toList ++ (ignored ++ written)) ∧ Filler ignored ∧ params = trimmedText written
  | _ => False

theorem BlockHead.moves (h : BlockHead file c kind d) : ∃ head, Moves c head d ∧ HeadIs head kind := by
  rcases h with ⟨name, params, hhead, rfl⟩ | ⟨-, selector, hhead, rfl⟩
  · obtain ⟨e, hkeyword, hparams⟩ := atHead?_inv hhead
    obtain ⟨f, hat, -, hname⟩ := keyword?_inv hkeyword
    have m := (moves_char? hat).trans ((moves_run hname).trans ((moves_skip e).trans (moves_run hparams)))
    exact ⟨_, m, (gap e.rest).1, params, by simp, filler_gap e.rest, rfl⟩
  · exact ⟨selector, moves_run (selector?_inv hhead).2, rfl⟩

/-- A statement with a block: its head, the children between braces, and nothing else but filler. -/
def Block (file : SourceText) (x : Element) (span : Span) : Prop :=
  ∃ head first last, file.Slice span.start first (head ++ ['{']) ∧ HeadIs head x.kind ∧
    Tiled file first x.children last ∧ file.Slice last span.stop ['}']

/-- The node stands where its source says. -/
def Stands (file : SourceText) (x : Element) : Prop :=
  ∃ span, At file x span ∧ (∃ cs, file.Slice span.start span.stop cs) ∧ (x.children = [] ∨ Block file x span)

theorem Cursor.Within.stands (h : c.Within file before) (m : Moves c taken d) :
    Stands file (element file c d kind []) :=
  ⟨_, ⟨_, rfl, rfl, rfl⟩, ⟨taken, h.slice m⟩, .inl rfl⟩

/-- What is read is tiled by the statements that come from it, and each of them stands where it was read. -/
theorem Reading.tiled (h : Reading file c es d) (hb : b.Within file before) (m : Moves b lead c) (hlead : Filler lead) :
    Tiled file b.place.offset es d.place.offset ∧ ∀ x ∈ partsAll es, Stands file x := by
  -- The filler in front of a statement may hold semicolons, so it begins where the last statement ended and not where
  -- this reading starts.
  induction h generalizing b before lead with
  | done c => exact ⟨⟨lead, hb.slice m, hlead⟩, by simp⟩
  | @semicolon c d e es hsemicolon _ ih =>
    have hfiller := (hlead.append (.char (c := ';') (by simp) .nil)).append (filler_gap d.rest)
    exact ih hb ((m.trans (moves_char? hsemicolon)).trans (moves_skip d)) hfiller
  | @declaration c d e property value es _ htext _ ih =>
    obtain ⟨taken, mtext, hne⟩ := moves_declaration? file htext
    have hc := hb.moves m
    obtain ⟨hrest, hstands⟩ := ih (hc.moves mtext) (moves_skip d) (filler_gap d.rest)
    exact ⟨hb.tiled_cons m hlead mtext (by simp [hne]) [] hrest,
      List.forall_mem_cons.mpr ⟨hc.stands mtext, hstands⟩⟩
  | @atRule c d e f name params es hhead hclosed _ ih =>
    obtain ⟨head, mhead⟩ := moves_atHead? hhead
    obtain ⟨closing, mclose, -⟩ : Covers file d 0 e := covers_close? hclosed
    have mtext := mhead.trans mclose
    have hc := hb.moves m
    obtain ⟨hrest, hstands⟩ := ih (hc.moves mtext) (moves_skip e) (filler_gap e.rest)
    exact ⟨hb.tiled_cons m hlead mtext (by simp) [] hrest, List.forall_mem_cons.mpr ⟨hc.stands mtext, hstands⟩⟩
  | @block c d e f g last kind children es hhead hblock hopened hinner hclosed _ ihinner ihrest =>
    obtain ⟨head, mhead, hkind⟩ := hhead.moves
    obtain ⟨body, mbody, -⟩ := hinner.covers
    have mopen := mhead.trans (moves_char? hopened)
    have mbody := (moves_skip e).trans mbody
    have mclose := moves_char? hclosed
    have mtext := mopen.trans (mbody.trans mclose)
    have hc := hb.moves m
    have hopen := hc.moves mopen
    obtain ⟨htiled, hbody⟩ := ihinner hopen (moves_skip e) (filler_gap e.rest)
    obtain ⟨hrest, hstands⟩ := ihrest (hc.moves mtext) (moves_skip g) (filler_gap g.rest)
    have hself : Stands file (element file c g kind children) :=
      ⟨_, ⟨_, rfl, rfl, rfl⟩, ⟨_, hc.slice mtext⟩,
        .inr ⟨head, e.place.offset, f.place.offset, hc.slice mopen, hkind, htiled, (hopen.moves mbody).slice mclose⟩⟩
    exact ⟨hb.tiled_cons m hlead mtext (by simp) children hrest,
      List.forall_mem_cons.mpr ⟨hself, List.forall_mem_append.mpr ⟨hbody, hstands⟩⟩⟩

theorem Tiled.le (h : Tiled file start es stop) : start ≤ stop := by
  induction es generalizing start with
  | nil =>
    obtain ⟨cs, hslice, -⟩ := h
    exact hslice.le
  | cons x es ih =>
    obtain ⟨span, -, ⟨cs, hslice, -⟩, hlt, hrest⟩ := h
    have hfirst := hslice.le
    have hlast := ih hrest
    omega

theorem Tiled.of_append {more : List Element} (h : Tiled file start (more ++ es) stop) :
    ∃ first, start ≤ first ∧ Tiled file first es stop := by
  induction more generalizing start with
  | nil => exact ⟨start, Nat.le_refl _, h⟩
  | cons x more ih =>
    obtain ⟨span, -, ⟨cs, hslice, -⟩, hlt, hrest⟩ := h
    obtain ⟨first, hle, htiled⟩ := ih hrest
    have hfirst := hslice.le
    exact ⟨first, by omega, htiled⟩

theorem Tiled.mem (h : Tiled file start es stop) (hx : x ∈ es) :
    ∃ span, At file x span ∧ start ≤ span.start ∧ span.stop ≤ stop := by
  obtain ⟨more, after, rfl⟩ := List.append_of_mem hx
  obtain ⟨first, hle, span, hat, ⟨cs, hslice, -⟩, -, hrest⟩ := h.of_append
  exact ⟨span, hat, Nat.le_trans hle hslice.le, hrest.le⟩

theorem Tiled.between (h : Tiled file start es stop) (hyz : [y, z] <:+: es) :
    ∃ s s', At file y s ∧ At file z s' ∧ s.stop ≤ s'.start ∧ Filled file s.stop s'.start := by
  obtain ⟨more, after, rfl⟩ := hyz
  rw [List.append_assoc] at h
  obtain ⟨first, -, s, hs, -, -, s', hs', ⟨cs, hslice, hfiller⟩, -, -⟩ := h.of_append
  exact ⟨s, s', hs, hs', hslice.le, cs, hslice, hfiller⟩

/-- The children of a block lie behind its opening brace and before its closing one. -/
theorem Block.mem {span : Span} (h : Block file x span) (hy : y ∈ x.children) :
    ∃ inner, At file y inner ∧ span.start < inner.start ∧ inner.stop < span.stop := by
  obtain ⟨head, first, last, hopen, -, htiled, hclose⟩ := h
  obtain ⟨inner, hat, hfirst, hlast⟩ := htiled.mem hy
  have hlt := hopen.lt (by simp)
  have hgt := hclose.lt (by simp)
  exact ⟨inner, hat, by omega, by omega⟩

/-- Where all nodes of a style sheet stand in its text. -/
structure Placed (file : SourceText) (sheet : Element) : Prop where
  root : sheet.kind = .root ∧ At file sheet ⟨0, file.content.utf8ByteSize⟩
  located : ∀ x ∈ sheet.parts, ∃ span, At file x span ∧ span.start ≤ span.stop ∧
    span.stop ≤ file.content.utf8ByteSize ∧ file.Boundary span.start ∧ file.Boundary span.stop
  inside : ∀ x ∈ sheet.parts, ∀ y ∈ x.children, ∃ outer inner, At file x outer ∧ At file y inner ∧
    outer.start ≤ inner.start ∧ inner.stop ≤ outer.stop
  block : ∀ x ∈ partsAll sheet.children, x.children ≠ [] → ∃ outer, At file x outer ∧ Block file x outer ∧
    ∀ y ∈ x.children, ∃ inner, At file y inner ∧ outer.start < inner.start ∧ inner.stop < outer.stop
  between : ∀ x ∈ sheet.parts, ∀ y z, [y, z] <:+: x.children → ∃ s s', At file y s ∧ At file z s' ∧
    s.stop ≤ s'.start ∧ Filled file s.stop s'.start
  /-- A text of blanks alone may hold other blanks than filler has. -/
  whole : sheet.children = [] ∧ (∀ c ∈ file.content.toList, Text.isBlank c = true) ∨
    Tiled file 0 sheet.children file.content.utf8ByteSize

theorem tiled_of_document? (h : document? file = some es) :
    Tiled file 0 es file.content.utf8ByteSize ∧ ∀ x ∈ partsAll es, Stands file x := by
  obtain ⟨last, hread, hrest⟩ := reading_of_document? h
  have hstart := Cursor.within_ofText file
  obtain ⟨taken, m, -⟩ := hread.covers
  have hlast := (hstart.moves (moves_skip _)).moves m
  have hoffset : last.place.offset = file.content.utf8ByteSize := by
    have htext := hlast.text_eq
    rw [hrest, List.append_nil] at htext
    rw [hlast.offset_eq, ← htext, String.ofList_toList]
  have htiled := hread.tiled hstart (moves_skip _) (filler_gap _)
  rwa [hoffset] at htiled

theorem Stands.located (h : Stands file x) : ∃ span, At file x span ∧ span.start ≤ span.stop ∧
    span.stop ≤ file.content.utf8ByteSize ∧ file.Boundary span.start ∧ file.Boundary span.stop := by
  obtain ⟨span, hat, ⟨cs, hslice⟩, -⟩ := h
  obtain ⟨hfirst, hlast⟩ := hslice.boundaries
  exact ⟨span, hat, hslice.le, hlast.le, hfirst, hlast⟩

theorem Stands.block (h : Stands file x) (hy : y ∈ x.children) : ∃ span, At file x span ∧ Block file x span := by
  obtain ⟨span, hat, -, hnil | hblock⟩ := h
  · simp [hnil] at hy
  · exact ⟨span, hat, hblock⟩

theorem Stands.tiled (h : Stands file x) (hy : y ∈ x.children) :
    ∃ outer first last, At file x outer ∧ outer.start ≤ first ∧ last ≤ outer.stop ∧ Tiled file first x.children last := by
  obtain ⟨outer, hat, head, first, last, hopen, -, htiled, hclose⟩ := h.block hy
  exact ⟨outer, first, last, hat, hopen.le, hclose.le, htiled⟩

/-- Every style sheet that is read stands in its text, statement by statement, and no other text is left over but
filler. -/
theorem placed_of_parse {sheet : Element} (h : parse file = .ok sheet) : Placed file sheet := by
  obtain ⟨es, hsheet, hes⟩ := parse_cases h
  obtain rfl : sheet.children = es := by rw [hsheet]; rfl
  have hparts : sheet.parts = sheet :: partsAll sheet.children := by rw [hsheet]; rfl
  have hroot : At file sheet ⟨0, file.content.utf8ByteSize⟩ := ⟨_, by rw [hsheet]; rfl, rfl, rfl⟩
  have hwhole : sheet.children = [] ∧ (∀ c ∈ file.content.toList, Text.isBlank c = true) ∨
      Tiled file 0 sheet.children file.content.utf8ByteSize :=
    hes.imp (fun hnil => ⟨hnil.1, Text.trim_eq_nil hnil.2⟩) fun hd => (tiled_of_document? hd).1
  have hstands : ∀ x ∈ partsAll sheet.children, Stands file x := by
    rcases hes with ⟨hnil, -⟩ | hd
    · simp [hnil]
    · exact (tiled_of_document? hd).2
  have htiled : ∀ x ∈ sheet.parts, ∀ y ∈ x.children, ∃ outer first last, At file x outer ∧ outer.start ≤ first ∧
      last ≤ outer.stop ∧ Tiled file first x.children last := by
    rw [hparts]
    refine List.forall_mem_cons.mpr ⟨fun y hy => ?_, fun x hx y hy => (hstands x hx).tiled hy⟩
    rcases hwhole with ⟨hnil, -⟩ | hwhole
    · simp [hnil] at hy
    · exact ⟨_, _, _, hroot, Nat.le_refl _, Nat.le_refl _, hwhole⟩
  refine ⟨⟨by rw [hsheet]; rfl, hroot⟩, ?_, ?_, ?_, ?_, hwhole⟩
  · have hzero : file.Boundary 0 := String.Pos.Raw.isValid_zero
    have hend : file.Boundary file.content.utf8ByteSize := String.Pos.Raw.isValid_rawEndPos
    rw [hparts]
    exact List.forall_mem_cons.mpr
      ⟨⟨_, hroot, Nat.zero_le _, Nat.le_refl _, hzero, hend⟩, fun x hx => (hstands x hx).located⟩
  · intro x hx y hy
    obtain ⟨outer, first, last, hat, hfirst, hlast, hinner⟩ := htiled x hx y hy
    obtain ⟨inner, haty, hstart, hstop⟩ := hinner.mem hy
    exact ⟨outer, inner, hat, haty, Nat.le_trans hfirst hstart, Nat.le_trans hstop hlast⟩
  · intro x hx hne
    obtain ⟨y, hy⟩ := List.exists_mem_of_ne_nil _ hne
    obtain ⟨outer, hat, hblock⟩ := (hstands x hx).block hy
    exact ⟨outer, hat, hblock, fun y hy => hblock.mem hy⟩
  · intro x hx y z hyz
    have hy : y ∈ x.children := hyz.subset (List.mem_cons_self ..)
    obtain ⟨outer, first, last, -, -, -, hinner⟩ := htiled x hx y hy
    exact hinner.between hyz

/-- Two statements in a block and one behind it. Comments, semicolons and a character of two bytes stand around
them. -/
theorem placed_of_parse_nested :
    let file : SourceText := ⟨inlineName, "/*\x7b*/é \x7bb: c;; ;@d e\x7d/* */ f:g"⟩
    ∃ sheet, parse file = .ok sheet ∧
      (partsAll sheet.children).map (fun x => x.source.map Source.span) =
        [some ⟨5, 22⟩, some ⟨9, 14⟩, some ⟨17, 21⟩, some ⟨28, 31⟩] ∧ Placed file sheet := by
  intro file
  have hread : (document? file).map (fun es => (partsAll es).map fun x => x.source.map Source.span) =
      some [some ⟨5, 22⟩, some ⟨9, 14⟩, some ⟨17, 21⟩, some ⟨28, 31⟩] := by decide +kernel
  obtain ⟨es, hes, hspans⟩ := Option.map_eq_some_iff.mp hread
  obtain ⟨source, hparse⟩ := parse_of_document? (by decide) hes
  exact ⟨_, hparse, hspans, placed_of_parse hparse⟩

end Sheet

end StyleMixins
