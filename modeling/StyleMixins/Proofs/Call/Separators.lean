import Mathlib.Data.List.Forall2
import Mathlib.Data.List.Induction
import StyleMixins.Proofs.Call.Segments

namespace StyleMixins.Call

open Nesting

variable {s : Nesting} {q : Char} {n : Nat} {cs body : List Char} {raws left right : List (List Char)}

/-- What may stand behind an opening quote without ending the quotation. A backslash protects the character
behind it. -/
inductive Quoted (q : Char) : List Char → Prop
  | nil : Quoted q []
  | plain {body : List Char} {c : Char} (h : Quoted q body) (hquote : c ≠ q) (hslash : c ≠ '\\') :
      Quoted q (body ++ [c])
  | escaped {body : List Char} (h : Quoted q body) (c : Char) : Quoted q (body ++ ['\\', c])

/-- A text that ends outside quotations, with some number of brackets open. Brackets of both kinds are counted
together, and one that closes nothing changes nothing. -/
inductive Outside : List Char → Nat → Prop
  | nil : Outside [] 0
  | plain {cs : List Char} {n : Nat} {c : Char} (h : Outside cs n) (hc : c ∉ ['"', '\'', '(', '[', ')', ']']) :
      Outside (cs ++ [c]) n
  | opening {cs : List Char} {n : Nat} {c : Char} (h : Outside cs n) (hc : c ∈ ['(', '[']) : Outside (cs ++ [c]) (n + 1)
  | closing {cs : List Char} {n : Nat} {c : Char} (h : Outside cs n) (hc : c ∈ [')', ']']) : Outside (cs ++ [c]) (n - 1)
  | quotation {cs body : List Char} {n : Nat} {q : Char} (h : Outside cs n) (hq : q ∈ ['"', '\''])
      (hbody : Quoted q body) : Outside (cs ++ q :: body ++ [q]) n

/-- What has been read where a scan stands: a quotation that is still open has its opening quote and, perhaps, a
backslash at the end. -/
inductive Stands : List Char → Nesting → Prop
  | outside {cs : List Char} {n : Nat} (h : Outside cs n) : Stands cs ⟨none, false, n⟩
  | quoted {cs body : List Char} {n : Nat} {q : Char} (h : Outside cs n) (hq : q ∈ ['"', '\'']) (hbody : Quoted q body) :
      Stands (cs ++ q :: body) ⟨some q, false, n⟩
  | escaped {cs body : List Char} {n : Nat} {q : Char} (h : Outside cs n) (hq : q ∈ ['"', '\''])
      (hbody : Quoted q body) : Stands (cs ++ q :: body ++ ['\\']) ⟨some q, true, n⟩

theorem Outside.stands_step (h : Outside cs n) (c : Char) : Stands (cs ++ [c]) (step ⟨none, false, n⟩ c) := by
  simp only [step]
  split
  next hquote => exact .quoted h (by simpa using hquote) .nil
  next hquote =>
    split
    next hopen => exact .outside (h.opening (by simpa using hopen))
    next hopen =>
      split
      next hclose => exact .outside (h.closing (by simpa using hclose))
      next hclose =>
        rw [not_or] at hquote hopen hclose
        exact .outside (h.plain (by simp [hquote, hopen, hclose]))

theorem Quoted.stands_step (hbody : Quoted q body) (h : Outside cs n) (hq : q ∈ ['"', '\'']) (c : Char) :
    Stands (cs ++ q :: body ++ [c]) (step ⟨some q, false, n⟩ c) := by
  simp only [step, Bool.false_eq_true, if_false]
  split
  next hslash =>
    rw [hslash]
    exact .escaped h hq hbody
  next hslash =>
    split
    next hclose =>
      rw [hclose]
      exact .outside (h.quotation hq hbody)
    next hopen =>
      rw [List.append_assoc]
      exact .quoted h hq (hbody.plain hopen hslash)

theorem Stands.step (h : Stands cs s) (c : Char) : Stands (cs ++ [c]) (s.step c) := by
  cases h with
  | outside h => exact h.stands_step c
  | quoted h hq hbody => exact hbody.stands_step h hq c
  | escaped h hq hbody =>
    -- Behind a backslash any character goes on with the quotation, its own quote too.
    have hnext := Stands.quoted h hq (hbody.escaped c)
    simpa [Nesting.step] using hnext

theorem stands_run (cs : List Char) : Stands cs (start.run cs) := by
  -- The grammar adds to the end of a text, as the scan does.
  induction cs using List.reverseRecOn with
  | nil => exact .outside .nil
  | append_singleton cs c ih =>
    rw [run_append]
    exact ih.step c

theorem Quoted.run (h : Quoted q body) (n : Nat) : Nesting.run ⟨some q, false, n⟩ body = ⟨some q, false, n⟩ := by
  induction h with
  | nil => rfl
  | plain h hquote hslash ih =>
    rw [run_append, ih]
    simp [step, hquote, hslash]
  | escaped h c ih =>
    rw [run_append, ih]
    simp [step]

theorem Outside.run (h : Outside cs n) : start.run cs = ⟨none, false, n⟩ := by
  induction h with
  | nil => rfl
  | plain h hc ih =>
    simp only [List.mem_cons, List.not_mem_nil, or_false, not_or] at hc
    rw [run_append, ih]
    simp [step, hc]
  | opening h hc ih =>
    rw [run_append, ih]
    simp only [List.mem_cons, List.not_mem_nil, or_false] at hc
    rcases hc with rfl | rfl <;> rfl
  | closing h hc ih =>
    rw [run_append, ih]
    simp only [List.mem_cons, List.not_mem_nil, or_false] at hc
    rcases hc with rfl | rfl <;> rfl
  | @quotation cs body n q h hq hbody ih =>
    simp only [List.mem_cons, List.not_mem_nil, or_false] at hq
    have hopen : step ⟨none, false, n⟩ q = ⟨some q, false, n⟩ := by simp [step, hq]
    have hclose : step ⟨some q, false, n⟩ q = ⟨none, false, n⟩ := by
      rcases hq with rfl | rfl <;> rfl
    rw [run_append, run_append, ih, run_cons _ q body, hopen, hbody.run n]
    exact hclose

theorem outside_iff : Outside cs n ↔ start.run cs = ⟨none, false, n⟩ := by
  refine ⟨Outside.run, fun h => ?_⟩
  have hstands := stands_run cs
  rw [h] at hstands
  cases hstands with
  | outside h => exact h

theorem outside_zero_iff : Outside cs 0 ↔ Closed cs := by
  rw [outside_iff]
  constructor
  · intro h
    rw [Closed, h]
    rfl
  · exact Closed.run_eq

instance (cs : List Char) (n : Nat) : Decidable (Outside cs n) :=
  decidable_of_iff _ outside_iff.symm

/-- A text in which no comma separates: each has a quotation or a bracket open before it. -/
def Unseparated (cs : List Char) : Prop :=
  ∀ before after, cs = before ++ ',' :: after → ¬Outside before 0

theorem unseparated_iff : Unseparated cs ↔ Uncut start cs := by
  simp only [Unseparated, outside_zero_iff, uncut_iff, Closed]

instance (cs : List Char) : Decidable (Unseparated cs) :=
  decidable_of_iff _ unseparated_iff.symm

/-- A text cut into pieces at the commas that separate, and at no others. -/
structure CutAtSeparators (cs : List Char) (raws : List (List Char)) : Prop where
  ne_nil : raws ≠ []
  joined : [','].intercalate raws = cs
  separators : ∀ before after, cs = before ++ ',' :: after → (Outside before 0 ↔
    ∃ left right, left ≠ [] ∧ right ≠ [] ∧ raws = left ++ right ∧ before = [','].intercalate left ∧
      after = [','].intercalate right)

theorem closed_intercalate (h : ∀ r ∈ raws, Closed r) : Closed ([','].intercalate raws) := by
  induction raws with
  | nil => rfl
  | cons r raws ih =>
    obtain ⟨hr, hraws⟩ := List.forall_mem_cons.mp h
    by_cases hne : raws = []
    · rwa [hne, List.intercalate_singleton]
    · have hcomma : start.run [','] = start := rfl
      rw [List.intercalate_cons_of_ne_nil hne, Closed, run_append, run_append, hr.run_eq, hcomma]
      exact ih hraws

theorem segments_ne_nil (cs : List Char) : segments cs ≠ [] := by
  obtain ⟨first, more, he⟩ := exists_segmentsFrom_eq start cs
  simp [segments, he]

/-- The pieces in front of a cut are closed, all of them. -/
theorem closed_of_segments_eq (h : segments cs = left ++ right) (hright : right ≠ []) : ∀ r ∈ left, Closed r := by
  have hpairs := segments_closed cs
  rw [h, List.pairwise_append] at hpairs
  obtain ⟨r', hr'⟩ := List.exists_mem_of_ne_nil right hright
  exact fun r hr => hpairs.2.2 r hr r' hr'

theorem cutAtSeparators_segments (cs : List Char) : CutAtSeparators cs (segments cs) := by
  refine ⟨segments_ne_nil cs, intercalate_segmentsFrom start cs, ?_⟩
  rintro before after rfl
  rw [outside_zero_iff]
  constructor
  · intro h
    exact ⟨segments before, segments after, segments_ne_nil before, segments_ne_nil after, segments_append_comma h after,
      (intercalate_segmentsFrom start before).symm, (intercalate_segmentsFrom start after).symm⟩
  · rintro ⟨left, right, -, hright, he, rfl, -⟩
    exact closed_intercalate (closed_of_segments_eq he hright)

/-- All members but the last have a property. -/
theorem pairwise_left_iff {α : Type} {p : α → Prop} {l : List α} :
    (l.Pairwise fun a _ => p a) ↔ ∀ a ∈ l.dropLast, p a := by
  induction l with
  | nil => simp
  | cons a l ih =>
    cases l with
    | nil => simp
    | cons b l =>
      have hfirst : (∀ x ∈ b :: l, p a) ↔ p a := ⟨fun h => h b (by simp), fun h _ _ => h⟩
      rw [List.pairwise_cons, hfirst, ih, List.dropLast_cons_cons, List.forall_mem_cons]

def Padded (e padded : String) : Prop :=
  ∃ left right, padded.toList = left ++ e.toList ++ right ∧ (∀ c ∈ left, Text.isBlank c = true) ∧
    ∀ c ∈ right, Text.isBlank c = true

theorem Padded.trim_eq {e padded : String} (h : Padded e padded) (he : Text.Trimmed e.toList) :
    Text.trim padded.toList = e.toList := by
  obtain ⟨left, right, hsplit, hleft, hright⟩ := h
  rw [hsplit, Text.trim_append hright, Text.trim_append_left hleft]
  exact he

/-- Entries are read back from between commas, with any blanks around them. -/
theorem entries_intercalate_padded (h : ∀ e ∈ raws.map Text.trim, IsEntry e)
    (hclosed : (raws.map Text.trim).Pairwise fun e _ => Closed e) :
    entries ([','].intercalate raws) = raws.map Text.trim := by
  have huncut : ∀ r ∈ raws, Uncut start r := fun r hr => uncut_trim.mp (h _ (List.mem_map_of_mem hr)).uncut
  have hends : raws.Pairwise fun r _ => Closed r := (List.pairwise_map.mp hclosed).imp closed_trim.mp
  rw [entries_intercalate_comma huncut hends, List.filter_eq_self]
  exact fun e he => by simpa using (h e he).ne_nil

theorem entries_of_isEntry {e : List Char} (h : IsEntry e) : entries e = [e] := by
  rw [entries, segments, segmentsFrom_of_uncut h.uncut, List.map_singleton, show Text.trim e = e from h.trimmed]
  simp [h.ne_nil]

theorem mem_splitTopLevel {text e : String} : e ∈ splitTopLevel text ↔ e.toList ∈ entries text.toList := by
  rw [splitTopLevel, List.mem_map]
  constructor
  · rintro ⟨cs, hcs, rfl⟩
    rwa [String.toList_ofList]
  · exact fun h => ⟨e.toList, h, String.ofList_toList⟩

theorem splitTopLevel_closed (text : String) : ∀ e ∈ (splitTopLevel text).dropLast, Closed e.toList := by
  rw [← pairwise_left_iff, splitTopLevel, List.pairwise_map]
  simpa only [String.toList_ofList] using entries_closed text.toList

/-- Written between commas, with any blanks around them, texts that may be entries are read back. -/
theorem splitTopLevel_intercalate {es padded : List String} (h : ∀ e ∈ es, IsEntry e.toList)
    (hclosed : ∀ e ∈ es.dropLast, Closed e.toList) (hpadded : List.Forall₂ Padded es padded) :
    splitTopLevel (",".intercalate padded) = es := by
  have htrim : (padded.map String.toList).map Text.trim = es.map String.toList := by
    clear hclosed
    induction hpadded with
    | nil => rfl
    | cons hp _ ih =>
      obtain ⟨he, hes⟩ := List.forall_mem_cons.mp h
      simp only [List.map_cons, hp.trim_eq he.trimmed, ih hes]
  have hjoin : (",".intercalate padded).toList = [','].intercalate (padded.map String.toList) := by
    simp [String.toList_intercalate]
  have hentries : entries ([','].intercalate (padded.map String.toList)) = es.map String.toList := by
    rw [entries_intercalate_padded, htrim]
    · rw [htrim]
      exact List.forall_mem_map.mpr h
    · rw [htrim, List.pairwise_map, pairwise_left_iff]
      exact hclosed
  rw [splitTopLevel, hjoin, hentries, List.map_map]
  simp [Function.comp_def]

/-- A list is cut at the commas outside quotes and brackets and nowhere else, and its entries are the pieces without
the blanks around them, as far as anything is left. No entry has such a comma of its own, so each is read as a list of
one entry, and only the last may have something open at its end. Texts of this kind are read back from between commas,
with any blanks around them. -/
theorem splitTopLevel_cuts_at_separators :
    (∀ text : String,
      (∃ raws, CutAtSeparators text.toList raws ∧
        splitTopLevel text = ((raws.map Text.trim).filter (· ≠ [])).map String.ofList) ∧
      (∀ e ∈ splitTopLevel text, Unseparated e.toList ∧ splitTopLevel e = [e]) ∧
      ∀ e ∈ (splitTopLevel text).dropLast, Outside e.toList 0) ∧
    ∀ es padded : List String, (∀ e ∈ es, e ≠ "" ∧ Text.Trimmed e.toList ∧ Unseparated e.toList) →
      (∀ e ∈ es.dropLast, Outside e.toList 0) → List.Forall₂ Padded es padded →
      splitTopLevel (",".intercalate padded) = es := by
  constructor
  · intro text
    refine ⟨⟨segments text.toList, cutAtSeparators_segments text.toList, ?_⟩, ?_, ?_⟩
    · simp [splitTopLevel, entries, ← List.isEmpty_eq_false_iff]
    · intro e he
      have hentry := isEntry_of_mem (mem_splitTopLevel.mp he)
      refine ⟨unseparated_iff.mpr hentry.uncut, ?_⟩
      rw [splitTopLevel, entries_of_isEntry hentry, List.map_singleton, String.ofList_toList]
    · exact fun e he => outside_zero_iff.mpr (splitTopLevel_closed text e he)
  · intro es padded h hclosed hpadded
    refine splitTopLevel_intercalate ?_ (fun e he => outside_zero_iff.mp (hclosed e he)) hpadded
    intro e he
    obtain ⟨hne, htrimmed, hseparated⟩ := h e he
    exact ⟨mt String.toList_eq_nil_iff.mp hne, htrimmed, unseparated_iff.mp hseparated⟩

/-- Blanks of several kinds, an escaped quote, a bracket that closes nothing, and a quotation that is never closed. -/
theorem splitTopLevel_cuts_at_separators_open :
    let es := ["rgb(0, [1)]", "'a, \\', (b'", "x)", "\"y, z"]
    let padded := [" rgb(0, [1)]", "'a, \\', (b'\t", "\u00a0x) ", "\n\"y, z\u3000"]
    (∀ e ∈ es, e ≠ "" ∧ Text.Trimmed e.toList ∧ Unseparated e.toList) ∧ (∀ e ∈ es.dropLast, Outside e.toList 0) ∧
      List.Forall₂ Padded es padded ∧ splitTopLevel (",".intercalate padded) = es ∧
      splitTopLevel "\"y, z" = ["\"y, z"] := by
  intro es padded
  have hentries : ∀ e ∈ es, e ≠ "" ∧ Text.Trimmed e.toList ∧ Unseparated e.toList := by
    simp only [es, List.forall_mem_cons]
    exact ⟨by decide, by decide, by decide, by decide, by simp⟩
  have hclosed : ∀ e ∈ es.dropLast, Outside e.toList 0 := by
    simp only [es, List.dropLast_cons_cons, List.dropLast_singleton, List.forall_mem_cons]
    exact ⟨by decide, by decide, by decide, by simp⟩
  have hpadded : List.Forall₂ Padded es padded :=
    .cons ⟨[' '], [], by decide, by simp; decide, by simp⟩
      (.cons ⟨[], ['\t'], by decide, by simp, by simp; decide⟩
        (.cons ⟨['\u00a0'], [' '], by decide, by simp; decide, by simp; decide⟩
          (.cons ⟨['\n'], ['\u3000'], by decide, by simp; decide, by simp; decide⟩ .nil)))
  have hsplit := splitTopLevel_cuts_at_separators.2 es padded hentries hclosed hpadded
  have hlast : "\"y, z" ∈ splitTopLevel (",".intercalate padded) := by
    rw [hsplit]
    simp [es]
  exact ⟨hentries, hclosed, hpadded, hsplit, ((splitTopLevel_cuts_at_separators.1 _).2.1 _ hlast).2⟩

end StyleMixins.Call
