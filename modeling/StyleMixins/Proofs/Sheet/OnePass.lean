import StyleMixins.Proofs.Sheet.Readers
import StyleMixins.Proofs.Sheet.Segments

namespace StyleMixins.Sheet

open Element

variable {file : SourceText} {c d : Cursor} {head rest cs more : List Char} {es es' : List Element}

def Plain (cs : List Char) : Prop :=
  ∀ tail, tail <:+ cs → comment? tail = none

theorem Plain.tail (h : Plain cs) (hr : rest <:+ cs) : Plain rest :=
  fun tail ht => h tail (ht.trans hr)

theorem plain_of_not_opening (h : ¬['/', '*'] <:+: cs) : Plain cs := by
  intro tail ht
  apply comment?_eq_none
  intro hopen
  exact h (hopen.isInfix.trans ht.isInfix)

theorem Plain.solid (h : Plain cs) (hx : ∀ x ∈ cs.head?, isGapChar x = false) : Solid cs :=
  solid_of_comment? hx (h cs List.suffix_rfl)

theorem Plain.gapChars (h : Plain cs) : ∀ x ∈ (gap cs).1, isGapChar x = true := by
  fun_induction gap cs with
  | case1 => simp
  | case2 x rest hx ignored left gapRest ih =>
    have ih := ih (h.tail (List.suffix_cons x rest))
    rw [gapRest] at ih
    exact List.forall_mem_cons.mpr ⟨hx, ih⟩
  | case3 x rest _ body after closed =>
    have hnone := h (x :: rest) List.suffix_rfl
    simp [closed] at hnone
  | case4 => simp

theorem mem_head?_append {x : Char} (h : x ∈ (cs ++ rest).head?) : x ∈ cs.head? ∨ cs = [] ∧ x ∈ rest.head? := by
  cases cs with
  | nil => exact Or.inr ⟨rfl, h⟩
  | cons y cs => exact Or.inl h

/-- A part of a head, without the gap characters at its start. -/
theorem Plain.solid_dropWhile (h : Plain (cs ++ rest)) (hstop : AtStop rest) :
    Solid (cs.dropWhile isGapChar ++ rest) := by
  have hsuffix : cs.dropWhile isGapChar ++ rest <:+ cs ++ rest := by
    obtain ⟨front, hfront⟩ := List.dropWhile_suffix isGapChar (l := cs)
    exact ⟨front, by rw [← List.append_assoc, hfront]⟩
  refine (h.tail hsuffix).solid fun x hx => ?_
  rcases mem_head?_append hx with hx | ⟨-, hx⟩
  · exact Text.head_dropWhile hx
  · exact hstop.solid.head hx

section

variable (hc : c.rest = head ++ rest) (hhead : ∀ x ∈ head, isHeadChar x = true) (hstop : AtStop rest)
  (hplain : Plain c.rest)

include hc hhead hstop hplain

theorem atHead?_of_begins (hb : beginsAtRule head = true) :
    ∃ name params, c.atHead? = some (name, params, c.pass head rest) ∧
      ∀ b, Kind.atRule (String.ofList name) (trimmedText params) b = atRuleKind head b := by
  obtain ⟨x, more, rfl, hx⟩ := beginsAtRule_iff.mp hb
  have hname : (x :: more).takeWhile isKeywordChar ++ (x :: more).dropWhile isKeywordChar = x :: more :=
    List.takeWhile_append_dropWhile
  generalize ht : (x :: more).dropWhile isKeywordChar = tail at hname
  have htail : tail.takeWhile isGapChar ++ tail.dropWhile isGapChar = tail := List.takeWhile_append_dropWhile
  have hgap : ∀ y ∈ tail.takeWhile isGapChar, isGapChar y = true := fun y hy => List.mem_takeWhile_imp hy
  have hsplit : '@' :: ((x :: more).takeWhile isKeywordChar ++ (tail.takeWhile isGapChar ++ tail.dropWhile isGapChar)) =
      '@' :: x :: more := by
    rw [htail, hname]
  have hrest : c.rest = '@' :: ((x :: more).takeWhile isKeywordChar ++
      (tail.takeWhile isGapChar ++ (tail.dropWhile isGapChar ++ rest))) := by
    rw [hc, ← hsplit]
    simp only [List.cons_append, List.append_assoc]
  have hnext : ∀ y ∈ (tail.takeWhile isGapChar ++ (tail.dropWhile isGapChar ++ rest)).head?,
      isKeywordChar y = false := by
    intro y hy
    rw [← List.append_assoc, htail] at hy
    rcases mem_head?_append hy with hy | ⟨-, hy⟩
    · rw [← ht] at hy
      exact Text.head_dropWhile hy
    · exact hstop.not_keyword hy
  have hsolid : Solid (tail.dropWhile isGapChar ++ rest) := by
    refine Plain.solid_dropWhile (hplain.tail ?_) hstop
    rw [hc, ← hname]
    exact ⟨'@' :: (x :: more).takeWhile isKeywordChar, by simp⟩
  have hparams : ∀ y ∈ tail.dropWhile isGapChar, isHeadChar y = true := by
    intro y hy
    apply hhead
    rw [← hsplit]
    exact List.mem_cons_of_mem _ (List.mem_append_right _ (List.mem_append_right _ hy))
  have hread := Cursor.atHead?_eq_pass hrest (by simp [hx]) (fun y hy => List.mem_takeWhile_imp hy) hnext hgap hsolid
    hparams hstop
  rw [hsplit] at hread
  refine ⟨_, _, hread, fun b => ?_⟩
  rw [atRuleKind, List.drop_one, List.tail_cons, ht, ← trimmedText_append_left hgap, htail]

theorem declaration?_of_declares (hd : Declares head) :
    ∃ property value, c.declaration? = (c.pass head rest).close?.map (fun d => (property, value, d)) ∧
      trimmedText property = trimmedText (head.takeWhile (· != ':')) ∧
      trimmedText value = trimmedText ((head.dropWhile (· != ':')).drop 1) := by
  obtain ⟨property, ws, value, rfl, hne, hprop, hws⟩ := hd
  have hvalue : value.takeWhile isGapChar ++ value.dropWhile isGapChar = value := List.takeWhile_append_dropWhile
  have hgap : ∀ y ∈ value.takeWhile isGapChar, isGapChar y = true := fun y hy => List.mem_takeWhile_imp hy
  have hcolon : ∀ y ∈ property ++ ws, (y != ':') = true := by
    intro y hy
    rcases List.mem_append.mp hy with hy | hy
    · simpa using (hprop y hy).1
    · rcases eq_of_isGapChar (hws y hy) with rfl | rfl | rfl | rfl <;> decide
  have hrest : c.rest =
      property ++ (ws ++ ':' :: (value.takeWhile isGapChar ++ (value.dropWhile isGapChar ++ rest))) := by
    rw [hc, ← List.append_assoc _ _ rest, hvalue]
    simp
  have hpropChars : ∀ y ∈ property, isPropertyChar y = true := by
    intro y hy
    have hstopped := hhead y (by simp [hy])
    simp only [isHeadChar] at hstopped
    simp [isPropertyChar, hstopped, hprop y hy]
  have hsolid : Solid (value.dropWhile isGapChar ++ rest) := by
    refine Plain.solid_dropWhile (hplain.tail ?_) hstop
    rw [hc]
    exact ⟨property ++ (ws ++ [':']), by simp⟩
  have hvalueChars : ∀ y ∈ value.dropWhile isGapChar, isHeadChar y = true := by
    intro y hy
    apply hhead
    simp [(List.dropWhile_suffix isGapChar).subset hy]
  have hread := Cursor.declaration?_eq_close? hrest hne hpropChars hws hgap hsolid hvalueChars hstop
  rw [hvalue] at hread
  refine ⟨_, _, hread, ?_, ?_⟩
  · rw [← List.append_assoc, List.takeWhile_append_of_pos hcolon, List.takeWhile_cons_of_neg (by decide),
      List.append_nil, trimmedText_append hws]
  · rw [← List.append_assoc, List.dropWhile_append_of_pos hcolon, List.dropWhile_cons_of_neg (by decide),
      List.drop_one, List.tail_cons, ← trimmedText_append_left hgap, hvalue]

end

theorem declaration?_of_not_declares (hc : c.rest = head ++ rest) (hstop : AtStop rest) (hplain : Plain c.rest)
    (hd : ¬Declares head) : c.declaration? = none := by
  have hproperty : head.takeWhile isPropertyChar ++ head.dropWhile isPropertyChar = head :=
    List.takeWhile_append_dropWhile
  generalize ht : head.dropWhile isPropertyChar = tail at hproperty
  have htail : tail.takeWhile isGapChar ++ tail.dropWhile isGapChar = tail := List.takeWhile_append_dropWhile
  have hgap : ∀ y ∈ tail.takeWhile isGapChar, isGapChar y = true := fun y hy => List.mem_takeWhile_imp hy
  have hprop : ∀ y ∈ head.takeWhile isPropertyChar, isPropertyChar y = true := fun y hy => List.mem_takeWhile_imp hy
  have hnext : ∀ y ∈ (tail ++ rest).head?, isPropertyChar y = false := by
    intro y hy
    rcases mem_head?_append hy with hy | ⟨-, hy⟩
    · rw [← ht] at hy
      exact Text.head_dropWhile hy
    · simp [isPropertyChar, hstop y hy]
  have hread : c.property? = none := by
    by_cases hne : head.takeWhile isPropertyChar = []
    · rw [hne, List.nil_append] at hproperty
      exact Cursor.property?_eq_none (by rwa [hc, ← hproperty])
    · have hsplit : tail.takeWhile isGapChar ++ (tail.dropWhile isGapChar ++ rest) = tail ++ rest := by
        rw [← List.append_assoc, htail]
      have hrest : c.rest = head.takeWhile isPropertyChar ++
          (tail.takeWhile isGapChar ++ (tail.dropWhile isGapChar ++ rest)) := by
        rw [hsplit, ← List.append_assoc, hproperty, hc]
      have hsolid : Solid (tail.dropWhile isGapChar ++ rest) := by
        refine Plain.solid_dropWhile (hplain.tail ?_) hstop
        rw [hrest, hsplit]
        exact List.suffix_append ..
      refine Cursor.property?_eq_none_of_not_colon hrest hprop hgap (by rwa [hsplit]) hsolid fun hcolon => ?_
      rcases mem_head?_append hcolon with hcolon | ⟨-, hcolon⟩
      · -- A colon behind the property would make a declaration of the head.
        obtain ⟨value, hvalue⟩ := List.head?_eq_some_iff.mp hcolon
        refine hd ⟨_, _, value, ?_, hne, fun y hy => ?_, hgap⟩
        · rw [← hvalue, htail, hproperty]
        · have hy := hprop y hy
          simp only [isPropertyChar, Bool.and_eq_true, bne_iff_ne, Bool.not_eq_true'] at hy
          exact ⟨hy.1.2, hy.2⟩
      · exact absurd (hstop ':' hcolon) (by decide)
  rw [Cursor.declaration?, hread]

/-- What a reader has read of a text as the statements `es`: the rest is sound just when the whole is, and a pass
over it comes to the same. -/
structure Consumed (cs : List Char) (es : List Element) (rest : List Char) : Prop where
  tail : rest <:+ cs
  sound : ∀ n, Sound n cs ↔ Sound n rest
  across : ∀ p : Pass, p.across cs = (p.add (bareAll es)).across rest

theorem Consumed.refl (cs : List Char) : Consumed cs [] cs :=
  ⟨List.suffix_rfl, fun _ => Iff.rfl, fun p => by rw [bareAll_nil, Pass.add_nil]⟩

theorem Consumed.trans (h : Consumed cs es rest) (k : Consumed rest es' more) : Consumed cs (es ++ es') more where
  tail := k.tail.trans h.tail
  sound n := (h.sound n).trans (k.sound n)
  across p := by rw [h.across, k.across, Pass.add_add, bareAll_append]

theorem consumed_skip (h : Plain c.rest) : Consumed c.rest [] c.skip.rest := by
  have hsplit : (gap c.rest).1 ++ c.skip.rest = c.rest := gap_split c.rest
  refine ⟨⟨_, hsplit⟩, fun n => ?_, fun p => ?_⟩
  · rw [← hsplit, sound_gap h.gapChars]
  · rw [← hsplit, p.across_gap h.gapChars, bareAll_nil, Pass.add_nil]

/-- A statement without a block ends at a semicolon, and before a closing brace or the end of the text. -/
theorem exists_close? (hc : c.rest = head ++ rest) (hhead : ∀ x ∈ head, isHeadChar x = true)
    (hsolid : ∀ x ∈ head.head?, isGapChar x = false) (hsimple : Simple head) (hstop : AtStop rest)
    (hopen : '{' ∉ rest.head?) :
    ∃ d, (c.pass head rest).close? = some d ∧ d.rest <:+ rest ∧
      ∀ es, bareAll es = simpleElements head → Consumed c.rest es d.rest := by
  rw [hc]
  have hlast (hr : rest = [] ∨ ∃ more, rest = '}' :: more) (es : List Element)
      (hes : bareAll es = simpleElements head) : Consumed (head ++ rest) es rest := by
    refine ⟨List.suffix_append .., fun n => ?_, fun p => ?_⟩
    · rw [sound_last hhead hsolid hr]
      exact and_iff_right hsimple
    · rw [p.across_last hhead hsolid hr, hes]
  cases rest with
  | nil => exact ⟨_, rfl, List.suffix_rfl, hlast (Or.inl rfl)⟩
  | cons x more =>
    rcases eq_of_isStop (hstop x rfl) with rfl | rfl | rfl
    · simp at hopen
    · exact ⟨_, rfl, List.suffix_rfl, hlast (Or.inr ⟨more, rfl⟩)⟩
    · refine ⟨_, Cursor.close?_semicolon rfl, List.suffix_cons .., fun es hes => ?_⟩
      rw [Cursor.rest_pass]
      refine ⟨⟨head ++ [';'], by simp⟩, fun n => ?_, fun p => ?_⟩
      · rw [sound_semicolon hhead hsolid]
        exact and_iff_right hsimple
      · rw [p.across_semicolon hhead hsolid, hes]

theorem atRule?_of_not_begins (hc : c.rest = head ++ rest) (hne : head ≠ []) (hstop : AtStop rest)
    (hb : beginsAtRule head = false) : atRule? file c = none := by
  refine atRule?_of_no_head (Cursor.atHead?_eq_none ?_)
  rw [hc]
  exact beginsAtRule_append hb hne fun x hx => hstop.not_keyword hx

theorem char?_semicolon_of_head (hc : c.rest = head ++ rest) (hhead : ∀ x ∈ head, isHeadChar x = true)
    (hne : head ≠ []) : c.char? ';' = none := by
  refine Cursor.char?_eq_none fun hx => ?_
  rw [hc] at hx
  rcases mem_head?_append hx with hx | ⟨rfl, -⟩
  · exact absurd (hhead ';' (List.mem_of_mem_head? hx)) (by decide)
  · exact hne rfl

section

variable (hc : c.rest = head ++ rest) (hhead : ∀ x ∈ head, isHeadChar x = true) (hne : head ≠ [])
  (hstop : AtStop rest) (hplain : Plain c.rest)

include hc hhead hne hstop hplain

/-- A segment that opens no block is read as the statement it says. -/
theorem statement?_of_simple (hsolid : ∀ x ∈ head.head?, isGapChar x = false) (hopen : '{' ∉ rest.head?)
    (hsimple : Simple head) :
    ∃ found d, statement? file c = some (some found, d) ∧ d.rest <:+ rest ∧ Consumed c.rest [found] d.rest := by
  obtain ⟨d, hclose, htail, hconsumed⟩ := exists_close? hc hhead hsolid hsimple hstop hopen
  have hblock : block? file (c.pass head rest) = none := block?_of_not_open (Cursor.char?_eq_none hopen)
  by_cases hb : beginsAtRule head = true
  · obtain ⟨name, params, hread, hkind⟩ := atHead?_of_begins hc hhead hstop hplain hb
    have hrule : atRule? file c = _ := atRule?_of_no_block hread hblock
    rw [hclose, Option.map_some] at hrule
    refine ⟨_, d, statement?_of_atRule hrule, htail, hconsumed _ ?_⟩
    simp [element, simpleElements, simpleKind, hne, hb, hkind]
  · have hb : beginsAtRule head = false := by simpa using hb
    have hd : Declares head := by
      rcases hsimple with rfl | hbegins | hd
      · exact absurd rfl hne
      · simp [hb] at hbegins
      · exact hd
    obtain ⟨property, value, hread, hproperty, hvalue⟩ := declaration?_of_declares hc hhead hstop hplain hd
    have hrule : rule? file c = none := by
      rw [rule?_of_selector (Cursor.selector?_eq_pass hc hne hhead hstop), hblock, Option.map_none]
    have hstatement := statement?_of_no_block (atRule?_of_not_begins hc hne hstop hb) hrule
    rw [declaration?, hread, hclose] at hstatement
    refine ⟨_, d, hstatement, htail, hconsumed _ ?_⟩
    simp [element, simpleElements, simpleKind, hne, hb, hproperty, hvalue]

theorem statement?_of_not_simple (hopen : '{' ∉ rest.head?) (hsimple : ¬Simple head) : statement? file c = none := by
  have hb : beginsAtRule head = false := by
    by_contra hb
    exact hsimple (Or.inr (Or.inl (by simpa using hb)))
  have hd : ¬Declares head := fun hd => hsimple (Or.inr (Or.inr hd))
  have hrule : rule? file c = none := by
    rw [rule?_of_selector (Cursor.selector?_eq_pass hc hne hhead hstop),
      block?_of_not_open (Cursor.char?_eq_none hopen), Option.map_none]
  rw [statement?_of_no_block (atRule?_of_not_begins hc hne hstop hb) hrule, declaration?,
    declaration?_of_not_declares hc hstop hplain hd, char?_semicolon_of_head hc hhead hne]
  rfl

/-- Before an opening brace, the statement is there just when its block is. -/
theorem statement?_of_open (hopen : '{' ∈ rest.head?) :
    statement? file c = (block? file (c.pass head rest)).map fun (children, e) =>
      (some (element file c e (blockKind head) children), e) := by
  have hclose : (c.pass head rest).close? = none := by
    obtain ⟨more, rfl⟩ := List.head?_eq_some_iff.mp hopen
    rfl
  have hselector : rule? file c = _ := rule?_of_selector (Cursor.selector?_eq_pass hc hne hhead hstop)
  have hdeclaration : declaration? file c = none := by
    by_cases hd : Declares head
    · obtain ⟨property, value, hread, -⟩ := declaration?_of_declares hc hhead hstop hplain hd
      rw [declaration?, hread, hclose]
      rfl
    · rw [declaration?, declaration?_of_not_declares hc hstop hplain hd]
  have hnone (ha : atRule? file c = none) (hr : rule? file c = none) : statement? file c = none := by
    rw [statement?_of_no_block ha hr, hdeclaration, char?_semicolon_of_head hc hhead hne]
    rfl
  by_cases hb : beginsAtRule head = true
  · obtain ⟨name, params, hread, hkind⟩ := atHead?_of_begins hc hhead hstop hplain hb
    cases hblock : block? file (c.pass head rest) with
    | some found =>
      rw [statement?_of_atRule (atRule?_of_block hread hblock), hkind]
      simp [blockKind, hb]
    | none =>
      rw [hblock, Option.map_none] at hselector
      rw [hnone _ hselector, Option.map_none]
      rw [atRule?_of_no_block hread hblock, hclose, Option.map_none]
  · have hb : beginsAtRule head = false := by simpa using hb
    have hat : atRule? file c = none := atRule?_of_not_begins hc hne hstop hb
    cases hblock : block? file (c.pass head rest) with
    | some found =>
      rw [hblock, Option.map_some] at hselector
      rw [statement?_of_rule hat hselector]
      simp [blockKind, hb]
    | none =>
      rw [hblock, Option.map_none] at hselector
      rw [hnone hat hselector, Option.map_none]

end

/-- Where no statement starts: at the end, at a closing brace, or where the text is not sound. -/
def Stuck (cs : List Char) : Prop :=
  cs = [] ∨ '}' ∈ cs.head? ∨ ∀ n, ¬Sound n cs

/-- The reader goes as far as there are statements. -/
structure Reads (file : SourceText) (c : Cursor) : Prop where
  consumed : Consumed c.rest (statements file c).1 (statements file c).2.rest
  stuck : Stuck (statements file c).2.rest

theorem block?_cases (hd : d.rest = '{' :: rest) (hplain : Plain rest) (h : Reads file (d.pass ['{'] rest).skip) :
    (∃ children e, block? file d = some (children, e) ∧ Consumed rest children ('}' :: e.rest)) ∨
      block? file d = none ∧ ∀ n, ¬Sound (n + 1) rest := by
  have hskip : Consumed rest [] (d.pass ['{'] rest).skip.rest := consumed_skip (c := d.pass ['{'] rest) hplain
  have hread := hskip.trans h.consumed
  have hblock : block? file d = _ := block?_of_open (Cursor.char?_eq_pass hd) rfl
  by_cases hclose : '}' ∈ (statements file (d.pass ['{'] rest).skip).2.rest.head?
  · obtain ⟨after, hafter⟩ := List.head?_eq_some_iff.mp hclose
    rw [Cursor.char?_eq_pass hafter, Option.map_some] at hblock
    rw [hafter] at hread
    exact Or.inl ⟨_, _, hblock, hread⟩
  · rw [Cursor.char?_eq_none hclose, Option.map_none] at hblock
    refine Or.inr ⟨hblock, fun n hsound => ?_⟩
    have hsound := (hread.sound _).mp hsound
    rcases h.stuck with hnil | hclose' | hnot
    · rw [hnil, sound_nil] at hsound
      omega
    · exact hclose hclose'
    · exact hnot _ hsound

theorem consumed_block (hhead : ∀ x ∈ head, isHeadChar x = true) (hsolid : ∀ x ∈ head.head?, isGapChar x = false)
    (hne : head ≠ []) (h : Consumed rest es ('}' :: more)) {x : Element}
    (hx : x.bare = .mk (blockKind head) none (bareAll es)) : Consumed (head ++ '{' :: rest) [x] more where
  tail := by
    have hrest := (List.suffix_cons '}' more).trans h.tail
    exact hrest.trans ⟨head ++ ['{'], by simp⟩
  sound n := by
    rw [sound_open hhead hsolid, h.sound, sound_close]
    exact and_iff_right hne
  across p := by
    rw [p.across_open hhead hsolid, h.across, Pass.across_close, Pass.leave_add_enter, bareAll, hx, bareAll_nil]

theorem not_sound_of_not_simple (hhead : ∀ x ∈ head, isHeadChar x = true)
    (hsolid : ∀ x ∈ head.head?, isGapChar x = false) (hstop : AtStop rest) (hopen : '{' ∉ rest.head?)
    (hsimple : ¬Simple head) (n : Nat) : ¬Sound n (head ++ rest) := by
  intro hsound
  cases rest with
  | nil => exact hsimple ((sound_last hhead hsolid (Or.inl rfl)).mp hsound).1
  | cons x more =>
    rcases eq_of_isStop (hstop x rfl) with rfl | rfl | rfl
    · simp at hopen
    · exact hsimple ((sound_last hhead hsolid (Or.inr ⟨more, rfl⟩)).mp hsound).1
    · exact hsimple ((sound_semicolon hhead hsolid).mp hsound).1

theorem statement?_cases_atStop (hstop : AtStop c.rest) :
    (∃ d, statement? file c = some (none, d) ∧ d.rest.length < c.rest.length ∧ Consumed c.rest [] d.rest) ∨
      statement? file c = none ∧ Stuck c.rest := by
  have hread : statement? file c = _ := statement?_of_atStop hstop
  cases hc : c.rest with
  | nil =>
    rw [Cursor.char?_eq_none (by simp [hc]), Option.map_none] at hread
    exact Or.inr ⟨hread, Or.inl rfl⟩
  | cons x more =>
    rw [hc] at hstop
    rcases eq_of_isStop (hstop x rfl) with rfl | rfl | rfl
    · rw [Cursor.char?_eq_none (by simp [hc]), Option.map_none] at hread
      refine Or.inr ⟨hread, Or.inr (Or.inr fun n hsound => ?_)⟩
      have hblock : Sound n ([] ++ '{' :: more) ↔ _ := sound_open (by simp) (by simp)
      exact (hblock.mp hsound).1 rfl
    · rw [Cursor.char?_eq_none (by simp [hc]), Option.map_none] at hread
      exact Or.inr ⟨hread, Or.inr (Or.inl rfl)⟩
    · rw [Cursor.char?_eq_pass hc, Option.map_some] at hread
      refine Or.inl ⟨_, hread, by simp, List.suffix_cons .., fun n => ?_, fun p => ?_⟩
      · have hempty : Sound n ([] ++ ';' :: more) ↔ _ := sound_semicolon (by simp) (by simp)
        exact hempty.trans (and_iff_right simple_nil)
      · have hempty : p.across ([] ++ ';' :: more) = _ := p.across_semicolon (by simp) (by simp)
        exact hempty

/-- The block decides, whichever of the two kinds of statement it belongs to. -/
theorem statement?_cases_open {inner : List Char} (hc : c.rest = head ++ '{' :: inner)
    (hhead : ∀ x ∈ head, isHeadChar x = true) (hne : head ≠ []) (hfirst : ∀ x ∈ head.head?, isGapChar x = false)
    (hplain : Plain c.rest)
    (ih : ∀ d : Cursor, d.rest.length < c.rest.length → Solid d.rest → Plain d.rest → Reads file d) :
    (∃ found d, statement? file c = some (found, d) ∧ d.rest.length < c.rest.length ∧
      Consumed c.rest found.toList d.rest) ∨ statement? file c = none ∧ Stuck c.rest := by
  have hread : statement? file c = _ := statement?_of_open hc hhead hne (atStop_cons rfl) hplain rfl
  have hinner : Plain inner := by
    refine hplain.tail ?_
    rw [hc]
    exact ⟨head ++ ['{'], by simp⟩
  have hlt : inner.length < c.rest.length := by
    rw [hc, List.length_append, List.length_cons]
    omega
  have hskip := Cursor.length_skip_le ((c.pass head ('{' :: inner)).pass ['{'] inner)
  rw [Cursor.rest_pass] at hskip
  have hskipped : Consumed inner [] ((c.pass head ('{' :: inner)).pass ['{'] inner).skip.rest :=
    consumed_skip (c := (c.pass head ('{' :: inner)).pass ['{'] inner) hinner
  have hreads := ih _ (by omega) (solid_gap _) (hinner.tail hskipped.tail)
  rcases block?_cases (Cursor.rest_pass ..) hinner hreads with ⟨children, e, hblock, hconsumed⟩ | ⟨hblock, hnot⟩
  · rw [hblock, Option.map_some] at hread
    have hlen := hconsumed.tail.length_le
    rw [List.length_cons] at hlen
    refine Or.inl ⟨_, e, hread, by omega, ?_⟩
    rw [hc]
    exact consumed_block hhead hfirst hne hconsumed rfl
  · rw [hblock, Option.map_none] at hread
    refine Or.inr ⟨hread, Or.inr (Or.inr fun n hsound => hnot n ?_)⟩
    rw [hc] at hsound
    exact ((sound_open hhead hfirst).mp hsound).2

/-- One statement. What is not read as one is not sound. -/
theorem statement?_cases (hsolid : Solid c.rest) (hplain : Plain c.rest)
    (ih : ∀ d : Cursor, d.rest.length < c.rest.length → Solid d.rest → Plain d.rest → Reads file d) :
    (∃ found d, statement? file c = some (found, d) ∧ d.rest.length < c.rest.length ∧
      Consumed c.rest found.toList d.rest) ∨ statement? file c = none ∧ Stuck c.rest := by
  have hc : c.rest = c.rest.takeWhile isHeadChar ++ c.rest.dropWhile isHeadChar :=
    List.takeWhile_append_dropWhile.symm
  have hhead : ∀ x ∈ c.rest.takeWhile isHeadChar, isHeadChar x = true := fun x hx => List.mem_takeWhile_imp hx
  have hstop : AtStop (c.rest.dropWhile isHeadChar) := by
    intro x hx
    simpa [isHeadChar] using Text.head_dropWhile hx
  generalize c.rest.takeWhile isHeadChar = head at hc hhead
  generalize c.rest.dropWhile isHeadChar = rest at hc hstop
  have hfirst : ∀ x ∈ head.head?, isGapChar x = false := by
    intro x hx
    refine hsolid.head ?_
    rw [hc, List.head?_append]
    exact Option.mem_def.mpr (Option.or_eq_some_iff.mpr (Or.inl hx))
  by_cases hne : head = []
  · rw [hne, List.nil_append] at hc
    rcases statement?_cases_atStop (by rwa [hc]) with ⟨d, hd⟩ | hnone
    · exact Or.inl ⟨none, d, hd⟩
    · exact Or.inr hnone
  have hlt : rest.length < c.rest.length := by
    have := List.length_pos_iff.mpr hne
    rw [hc, List.length_append]
    omega
  by_cases hopen : '{' ∈ rest.head?
  · obtain ⟨inner, rfl⟩ := List.head?_eq_some_iff.mp hopen
    exact statement?_cases_open hc hhead hne hfirst hplain ih
  · by_cases hsimple : Simple head
    · obtain ⟨found, d, hread, htail, hconsumed⟩ :=
        statement?_of_simple hc hhead hne hstop hplain hfirst hopen hsimple
      have hlen := htail.length_le
      exact Or.inl ⟨some found, d, hread, by omega, hconsumed⟩
    · refine Or.inr ⟨statement?_of_not_simple hc hhead hne hstop hplain hopen hsimple, Or.inr (Or.inr ?_)⟩
      rw [hc]
      exact not_sound_of_not_simple hhead hfirst hstop hopen hsimple

theorem reads (file : SourceText) (c : Cursor) (hsolid : Solid c.rest) (hplain : Plain c.rest) : Reads file c := by
  induction hn : c.rest.length using Nat.strong_induction_on generalizing c with
  | _ n ih =>
    subst hn
    have ih : ∀ d : Cursor, d.rest.length < c.rest.length → Solid d.rest → Plain d.rest → Reads file d :=
      fun d hlt hs hp => ih _ hlt d hs hp rfl
    rcases statement?_cases hsolid hplain ih with ⟨found, d, hread, hlt, hconsumed⟩ | ⟨hnone, hstuck⟩
    · have hle := Cursor.length_skip_le d
      have hd : Plain d.rest := hplain.tail hconsumed.tail
      have hskip := consumed_skip hd
      have hnext := ih d.skip (by omega) (solid_gap _) (hd.tail hskip.tail)
      have hall := statements_of_some hread (by omega) (Prod.eta (statements file d.skip)).symm
      refine ⟨?_, ?_⟩
      · rw [hall]
        exact hconsumed.trans (hskip.trans hnext.consumed)
      · rw [hall]
        exact hnext.stuck
    · have hall : statements file c = _ := statements_of_none hnone
      refine ⟨?_, ?_⟩
      · rw [hall]
        exact Consumed.refl _
      · rw [hall]
        exact hstuck

theorem consumed_text (hplain : Plain file.content.toList) :
    Consumed file.content.toList (statements file (Cursor.ofText file.content).skip).1
      (statements file (Cursor.ofText file.content).skip).2.rest ∧
    Stuck (statements file (Cursor.ofText file.content).skip).2.rest := by
  have hskip : Consumed file.content.toList [] (Cursor.ofText file.content).skip.rest :=
    consumed_skip (c := Cursor.ofText file.content) hplain
  have h := reads file (Cursor.ofText file.content).skip (solid_gap _) (hplain.tail hskip.tail)
  exact ⟨hskip.trans h.consumed, h.stuck⟩

theorem exists_document?_iff (hplain : Plain file.content.toList) :
    (∃ es, document? file = some es) ↔ Sound 0 file.content.toList := by
  obtain ⟨hread, hstuck⟩ := consumed_text hplain
  rw [hread.sound, document?]
  rcases hstuck with hnil | hclose | hnot
  · simp [hnil, sound_nil]
  · obtain ⟨more, hmore⟩ := List.head?_eq_some_iff.mp hclose
    simp [hmore, not_sound_zero]
  · have hne : (statements file (Cursor.ofText file.content).skip).2.rest ≠ [] := by
      intro hnil
      exact hnot 0 (by rw [hnil]; exact sound_nil.mpr rfl)
    simp [hne, hnot]

theorem bareAll_document? (hplain : Plain file.content.toList) (h : document? file = some es) :
    bareAll es = (({} : Pass).across file.content.toList).done := by
  obtain ⟨hread, -⟩ := consumed_text hplain
  rw [document?] at h
  split at h
  next found d hfound =>
    split at h
    next hend =>
      obtain rfl := Option.some.inj h
      rw [hfound, List.isEmpty_iff.mp hend] at hread
      rw [hread.across, Pass.across_nil]
      rfl
    next => simp at h

/-- A text without comments is a style sheet just when its braces are balanced and each of its segments fits, and
then it is the one that a single pass over the segments builds. -/
theorem parse_iff_segments (hopen : ¬['/', '*'] <:+: file.content.toList)
    (hblank : ∃ x ∈ file.content.toList, Text.isBlank x = false) :
    ((∃ e, parse file = .ok e) ↔
      Balanced file.content.toList ∧ ∀ s ∈ segments file.content.toList, s.Fits) ∧
    ∀ e, parse file = .ok e → e.bare = .mk .root none (({} : Pass).across file.content.toList).done := by
  have hplain := plain_of_not_opening hopen
  have htrim : Text.trim file.content.toList ≠ [] := by
    intro htrim
    obtain ⟨x, hx, hnot⟩ := hblank
    simp [Text.trim_eq_nil htrim x hx] at hnot
  have haccepts := exists_document?_iff hplain
  cases hd : document? file with
  | none =>
    have hparse := parse_of_no_document htrim hd
    rw [hd] at haccepts
    refine ⟨Iff.trans ?_ haccepts, fun e he => by simp [hparse] at he⟩
    simp [hparse]
  | some es =>
    obtain ⟨source, hparse⟩ := parse_of_document? htrim hd
    rw [hd] at haccepts
    refine ⟨Iff.trans ?_ haccepts, fun e he => ?_⟩
    · simp [hparse]
    · obtain rfl := Except.ok.inj (hparse.symm.trans he)
      rw [bare, bareAll_document? hplain hd]

/-- A rule in an at-rule, a declaration that the closing brace ends, and semicolons alone. -/
def Sample.text : String :=
  "@media print \x7b a:hover \x7b;color : red\x7d ; @content \x7d\n --x:"

example : (({} : Pass).across Sample.text.toList).done =
    [.mk (.atRule "media" "print" true) none
      [.mk (.rule "a:hover") none [.mk (.declaration "color" "red") none []],
        .mk (.atRule "content" "" false) none []],
      .mk (.declaration "--x" "") none []] := by
  rfl

theorem parse_iff_segments_media :
    ((∃ e, parse ⟨inlineName, Sample.text⟩ = .ok e) ↔
      Balanced Sample.text.toList ∧ ∀ s ∈ segments Sample.text.toList, s.Fits) ∧
    ∀ e, parse ⟨inlineName, Sample.text⟩ = .ok e →
      e.bare = .mk .root none (({} : Pass).across Sample.text.toList).done :=
  parse_iff_segments (by decide +kernel) ⟨'@', by decide +kernel, by decide⟩

end StyleMixins.Sheet
