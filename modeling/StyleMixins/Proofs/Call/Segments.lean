import StyleMixins.Call.Split
import StyleMixins.Proofs.Text.Trim

namespace StyleMixins.Call

namespace Nesting

variable {s : Nesting} {c : Char} {cs ds : List Char}

def run (s : Nesting) (cs : List Char) : Nesting :=
  cs.foldl step s

@[simp] theorem run_nil (s : Nesting) : s.run [] = s := rfl

@[simp] theorem run_cons (s : Nesting) (c : Char) (cs : List Char) : s.run (c :: cs) = (s.step c).run cs := rfl

@[simp] theorem run_append (s : Nesting) (cs ds : List Char) : s.run (cs ++ ds) = (s.run cs).run ds :=
  List.foldl_append

/-- A backslash counts inside quotes only, and there are two kinds of quotes. -/
def Sound (s : Nesting) : Prop :=
  match s.quote with
  | none => s.escaped = false
  | some q => q = '"' ∨ q = '\''

theorem sound_start : start.Sound := rfl

theorem Sound.step (h : s.Sound) (c : Char) : (s.step c).Sound := by
  obtain ⟨quote, escaped, depth⟩ := s
  cases quote with
  | none =>
    simp only [Sound] at h
    simp only [Nesting.step]
    split
    next hc => exact hc
    next =>
      split
      next => exact h
      next => split <;> exact h
  | some q =>
    simp only [Sound] at h
    simp only [Nesting.step]
    split
    next => exact h
    next hescaped =>
      split
      next => exact h
      next =>
        split
        next => simpa [Sound] using hescaped
        next => exact h

theorem Sound.run (h : s.Sound) (cs : List Char) : (s.run cs).Sound := by
  induction cs generalizing s with
  | nil => exact h
  | cons c cs ih => exact ih (h.step c)

theorem Sound.eq_start (h : s.Sound) (htop : s.isTop = true) : s = start := by
  obtain ⟨quote, escaped, depth⟩ := s
  simp only [isTop, Bool.and_eq_true, Option.isNone_iff_eq_none, beq_iff_eq] at htop
  obtain ⟨rfl, rfl⟩ := htop
  obtain rfl : escaped = false := h
  rfl

/-- A character that opens and closes nothing. -/
def Neutral (c : Char) : Prop :=
  c ∉ ['"', '\'', '\\', '(', '[', ')', ']']

instance (c : Char) : Decidable (Neutral c) :=
  inferInstanceAs (Decidable (c ∉ ['"', '\'', '\\', '(', '[', ')', ']']))

theorem neutral_of_isBlank (h : Text.isBlank c = true) : Neutral c := by
  intro hm
  simp only [List.mem_cons, List.not_mem_nil, or_false] at hm
  rcases hm with rfl | rfl | rfl | rfl | rfl | rfl | rfl <;> exact absurd h (by decide)

theorem Sound.step_neutral (h : s.Sound) (hc : Neutral c) : s.step c = { s with escaped := false } := by
  obtain ⟨quote, escaped, depth⟩ := s
  simp only [Neutral, List.mem_cons, List.not_mem_nil, or_false, not_or] at hc
  cases quote with
  | none =>
    obtain rfl : escaped = false := h
    simp [Nesting.step, hc]
  | some q =>
    have hq : c ≠ q := by
      rintro rfl
      exact h.elim hc.1 hc.2.1
    cases escaped <;> simp [Nesting.step, hc, hq]

theorem Sound.run_neutral (h : s.Sound) (hcs : ∀ c ∈ cs, Neutral c) (hne : cs ≠ []) :
    s.run cs = { s with escaped := false } := by
  induction cs generalizing s with
  | nil => exact absurd rfl hne
  | cons c cs ih =>
    have hstep := h.step_neutral (hcs c (by simp))
    rw [run_cons, hstep]
    cases cs with
    | nil => rfl
    | cons d ds => exact ih (hstep ▸ h.step c) (fun x hx => hcs x (by simp [hx])) (by simp)

theorem Sound.isTop_run_neutral (h : s.Sound) (hcs : ∀ c ∈ cs, Neutral c) : (s.run cs).isTop = s.isTop := by
  by_cases hne : cs = []
  · rw [hne, run_nil]
  · rw [h.run_neutral hcs hne]
    rfl

theorem run_start_neutral (hcs : ∀ c ∈ cs, Neutral c) : start.run cs = start :=
  (sound_start.run cs).eq_start (sound_start.isTop_run_neutral hcs)

end Nesting

open Nesting

variable {s : Nesting} {cs ds e : List Char} {raws es : List (List Char)}

/-- No comma of a text separates, read from where a scan stands. -/
def Uncut : Nesting → List Char → Prop
  | _, [] => True
  | s, c :: cs => ¬(c = ',' ∧ s.isTop = true) ∧ Uncut (s.step c) cs

instance (s : Nesting) : (cs : List Char) → Decidable (Uncut s cs)
  | [] => .isTrue trivial
  | c :: cs => @instDecidableAnd _ _ inferInstance (instDecidableUncut (s.step c) cs)

theorem uncut_append : Uncut s (cs ++ ds) ↔ Uncut s cs ∧ Uncut (s.run cs) ds := by
  induction cs generalizing s with
  | nil => simp [Uncut]
  | cons c cs ih => simp [Uncut, ih, and_assoc]

/-- Each comma of such a text has something open before it. -/
theorem uncut_iff : Uncut s cs ↔ ∀ before after, cs = before ++ ',' :: after → ¬(s.run before).isTop = true := by
  induction cs generalizing s with
  | nil => simp [Uncut]
  | cons c cs ih =>
    constructor
    · rintro ⟨hc, hcs⟩ before after he
      cases before with
      | nil => exact fun htop => hc ⟨(List.cons.inj he).1, htop⟩
      | cons b before =>
        obtain ⟨rfl, htail⟩ := List.cons.inj he
        exact ih.mp hcs before after htail
    · intro h
      refine ⟨fun hc => h [] cs (by rw [hc.1]; rfl) hc.2, ih.mpr fun before after he => ?_⟩
      exact h (c :: before) after (by rw [he]; rfl)

theorem uncut_of_not_mem (h : ',' ∉ cs) : Uncut s cs := by
  induction cs generalizing s with
  | nil => trivial
  | cons c cs ih =>
    rw [List.mem_cons, not_or] at h
    exact ⟨fun hc => h.1 hc.1.symm, ih h.2⟩

/-- A text after which a scan stands outside quotes and brackets again. -/
def Closed (cs : List Char) : Prop :=
  (start.run cs).isTop = true

instance (cs : List Char) : Decidable (Closed cs) :=
  inferInstanceAs (Decidable (_ = true))

theorem Closed.run_eq (h : Closed cs) : start.run cs = start :=
  (sound_start.run cs).eq_start h

theorem segmentsFrom_cons_of_uncut {c : Char} (h : ¬(c = ',' ∧ s.isTop = true)) {first : List Char}
    {more : List (List Char)} (hcs : segmentsFrom (s.step c) cs = first :: more) :
    segmentsFrom s (c :: cs) = (c :: first) :: more := by
  rw [segmentsFrom, if_neg h, hcs]

theorem exists_segmentsFrom_eq (s : Nesting) (cs : List Char) : ∃ first more, segmentsFrom s cs = first :: more := by
  induction cs generalizing s with
  | nil => exact ⟨[], [], rfl⟩
  | cons c cs ih =>
    by_cases hcut : c = ',' ∧ s.isTop = true
    · exact ⟨[], segmentsFrom s cs, if_pos hcut⟩
    · obtain ⟨first, more, he⟩ := ih (s.step c)
      exact ⟨c :: first, more, segmentsFrom_cons_of_uncut hcut he⟩

theorem segmentsFrom_of_uncut (h : Uncut s cs) : segmentsFrom s cs = [cs] := by
  induction cs generalizing s with
  | nil => rfl
  | cons c cs ih => exact segmentsFrom_cons_of_uncut h.1 (ih h.2)

/-- A comma that separates has the segments before it on its left and those behind it on its right. -/
theorem segmentsFrom_append_comma (hs : s.Sound) (htop : (s.run cs).isTop = true) (rest : List Char) :
    segmentsFrom s (cs ++ ',' :: rest) = segmentsFrom s cs ++ segmentsFrom (s.run cs) rest := by
  induction cs generalizing s with
  | nil => exact if_pos ⟨rfl, htop⟩
  | cons c cs ih =>
    by_cases hcut : c = ',' ∧ s.isTop = true
    · have hstep : s.step c = s := by rw [hs.eq_start hcut.2, hcut.1]; rfl
      rw [run_cons, hstep] at htop ⊢
      rw [List.cons_append, segmentsFrom, if_pos hcut, ih hs htop, segmentsFrom, if_pos hcut, List.cons_append]
    · obtain ⟨first, more, he⟩ := exists_segmentsFrom_eq (s.step c) cs
      have hrest := ih (hs.step c) htop
      rw [he, List.cons_append] at hrest
      rw [List.cons_append, segmentsFrom_cons_of_uncut hcut hrest, segmentsFrom_cons_of_uncut hcut he, run_cons,
        List.cons_append]

theorem segments_append_comma (h : Closed cs) (rest : List Char) :
    segments (cs ++ ',' :: rest) = segments cs ++ segments rest := by
  rw [segments, segmentsFrom_append_comma sound_start h, h.run_eq]
  rfl

/-- No comma inside a segment separates, and only the last one may end inside quotes or brackets. -/
theorem exists_segmentsFrom (hs : s.Sound) (cs : List Char) :
    ∃ first more, segmentsFrom s cs = first :: more ∧ Uncut s first ∧ (more ≠ [] → (s.run first).isTop = true) ∧
      (∀ r ∈ more, Uncut start r) ∧ more.Pairwise fun r _ => Closed r := by
  induction cs generalizing s with
  | nil => exact ⟨[], [], rfl, trivial, by simp, by simp, .nil⟩
  | cons c cs ih =>
    by_cases hcut : c = ',' ∧ s.isTop = true
    · obtain ⟨first, more, he, hu, htop, hmore, hp⟩ := ih hs
      rw [hs.eq_start hcut.2] at he hu htop
      refine ⟨[], first :: more, ?_, trivial, fun _ => hcut.2, ?_, ?_⟩
      · rw [segmentsFrom, if_pos hcut, hs.eq_start hcut.2, he]
      · exact List.forall_mem_cons.mpr ⟨hu, hmore⟩
      · exact List.pairwise_cons.mpr ⟨fun r hr => htop (List.ne_nil_of_mem hr), hp⟩
    · obtain ⟨first, more, he, hu, htop, hmore, hp⟩ := ih (hs.step c)
      exact ⟨c :: first, more, segmentsFrom_cons_of_uncut hcut he, ⟨hcut, hu⟩, htop, hmore, hp⟩

theorem segments_uncut (cs : List Char) : ∀ r ∈ segments cs, Uncut start r := by
  obtain ⟨first, more, he, hu, -, hmore, -⟩ := exists_segmentsFrom sound_start cs
  rw [segments, he]
  exact List.forall_mem_cons.mpr ⟨hu, hmore⟩

theorem segments_closed (cs : List Char) : (segments cs).Pairwise fun r _ => Closed r := by
  obtain ⟨first, more, he, -, htop, -, hp⟩ := exists_segmentsFrom sound_start cs
  rw [segments, he]
  exact List.pairwise_cons.mpr ⟨fun r hr => htop (List.ne_nil_of_mem hr), hp⟩

/-- Segments joined by commas are cut apart again. -/
theorem segments_intercalate (hne : raws ≠ []) (hu : ∀ r ∈ raws, Uncut start r)
    (hclosed : raws.Pairwise fun r _ => Closed r) : segments ([','].intercalate raws) = raws := by
  induction raws with
  | nil => exact absurd rfl hne
  | cons r raws ih =>
    obtain ⟨hr, hraws⟩ := List.forall_mem_cons.mp hu
    obtain ⟨hfirst, hrest⟩ := List.pairwise_cons.mp hclosed
    cases raws with
    | nil =>
      rw [List.intercalate_singleton]
      exact segmentsFrom_of_uncut hr
    | cons r' raws =>
      have htop : Closed r := hfirst r' (by simp)
      rw [List.intercalate_cons_cons, List.append_assoc, List.singleton_append, segments_append_comma htop,
        ih (by simp) hraws hrest, segments, segmentsFrom_of_uncut hr, List.singleton_append]

theorem intercalate_cons_cons_head (sep : List Char) (c : Char) (r : List Char) (raws : List (List Char)) :
    sep.intercalate ((c :: r) :: raws) = c :: sep.intercalate (r :: raws) := by
  cases raws <;> simp [List.intercalate]

/-- Nothing but the separating commas is lost. -/
theorem intercalate_segmentsFrom (s : Nesting) (cs : List Char) : [','].intercalate (segmentsFrom s cs) = cs := by
  induction cs generalizing s with
  | nil => rfl
  | cons c cs ih =>
    by_cases hcut : c = ',' ∧ s.isTop = true
    · obtain ⟨first, more, he⟩ := exists_segmentsFrom_eq s cs
      rw [segmentsFrom, if_pos hcut, List.intercalate_cons_of_ne_nil (by simp [he]), ih, hcut.1]
      rfl
    · obtain ⟨first, more, he⟩ := exists_segmentsFrom_eq (s.step c) cs
      rw [segmentsFrom_cons_of_uncut hcut he, intercalate_cons_cons_head, ← he, ih]

theorem infix_intercalate {sep r : List Char} (h : r ∈ raws) : r <:+: sep.intercalate raws := by
  induction raws with
  | nil => simp at h
  | cons r' raws ih =>
    by_cases hne : raws = []
    · obtain rfl : r = r' := by simpa [hne] using h
      simp only [hne, List.intercalate_singleton, List.infix_refl]
    · rw [List.intercalate_cons_of_ne_nil hne]
      rcases List.mem_cons.mp h with rfl | h
      · exact ⟨[], sep ++ sep.intercalate raws, by simp⟩
      · exact (ih h).trans (List.suffix_append _ _).isInfix

structure IsEntry (e : List Char) : Prop where
  ne_nil : e ≠ []
  trimmed : Text.Trimmed e
  uncut : Uncut start e

theorem uncut_of_isBlank (h : ∀ c ∈ cs, Text.isBlank c = true) : Uncut s cs :=
  uncut_of_not_mem fun hcomma => absurd (h _ hcomma) (by decide)

theorem uncut_trim : Uncut start (Text.trim cs) ↔ Uncut start cs := by
  obtain ⟨left, right, he, hleft, hright⟩ := Text.exists_blanks cs
  have hsplit : Uncut start cs ↔ Uncut start (left ++ Text.trim cs ++ right) := by rw [← he]
  rw [hsplit, uncut_append, uncut_append, run_start_neutral fun c hc => neutral_of_isBlank (hleft c hc)]
  simp only [uncut_of_isBlank hleft, uncut_of_isBlank hright, true_and, and_true]

theorem closed_trim : Closed (Text.trim cs) ↔ Closed cs := by
  obtain ⟨left, right, he, hleft, hright⟩ := Text.exists_blanks cs
  have hstart := run_start_neutral fun c hc => neutral_of_isBlank (hleft c hc)
  have hend := (sound_start.run (Text.trim cs)).isTop_run_neutral fun c hc => neutral_of_isBlank (hright c hc)
  have hrun : start.run cs = (start.run (Text.trim cs)).run right := by
    rw [← congrArg start.run he.symm, run_append, run_append, hstart]
  rw [Closed, Closed, hrun, hend]

theorem isEntry_of_mem (h : e ∈ entries cs) : IsEntry e := by
  obtain ⟨hm, hne⟩ := List.mem_filter.mp h
  obtain ⟨r, hr, rfl⟩ := List.mem_map.mp hm
  exact ⟨by simpa using hne, Text.trimmed_trim r, uncut_trim.mpr (segments_uncut cs r hr)⟩

theorem infix_of_mem_entries (h : e ∈ entries cs) : e <:+: cs := by
  obtain ⟨r, hr, rfl⟩ := List.mem_map.mp (List.mem_filter.mp h).1
  obtain ⟨left, right, he, -⟩ := Text.exists_blanks r
  have hsegment : r <:+: cs := intercalate_segmentsFrom start cs ▸ infix_intercalate hr
  exact List.IsInfix.trans ⟨left, right, he.symm⟩ hsegment

theorem entries_closed (cs : List Char) : (entries cs).Pairwise fun e _ => Closed e :=
  (List.pairwise_map.mpr ((segments_closed cs).imp closed_trim.mpr)).filter _

/-- Texts with commas between them are read back trimmed, and without those that are blank. -/
theorem entries_intercalate_comma (hu : ∀ r ∈ raws, Uncut start r) (hclosed : raws.Pairwise fun r _ => Closed r) :
    entries ([','].intercalate raws) = (raws.map Text.trim).filter (!·.isEmpty) := by
  by_cases hne : raws = []
  · rw [hne]
    rfl
  · rw [entries, segments_intercalate hne hu hclosed]

theorem intercalate_comma_blank (e : List Char) (es : List (List Char)) :
    [',', ' '].intercalate (e :: es) = [','].intercalate (e :: es.map (' ' :: ·)) := by
  induction es generalizing e with
  | nil => rfl
  | cons e' es ih =>
    rw [List.intercalate_cons_cons, ih, List.map_cons, List.intercalate_cons_cons, intercalate_cons_cons_head]
    simp

/-- Texts that are written with a comma and a blank between them are read back trimmed, and without those that are
blank. -/
theorem entries_intercalate_trim (hu : ∀ r ∈ raws, Uncut start r) (hclosed : raws.Pairwise fun r _ => Closed r) :
    entries ([',', ' '].intercalate raws) = (raws.map Text.trim).filter (!·.isEmpty) := by
  cases raws with
  | nil => rfl
  | cons r raws =>
    have huncut : ∀ r' ∈ r :: raws.map (' ' :: ·), Uncut start r' := by
      obtain ⟨hr, hraws⟩ := List.forall_mem_cons.mp hu
      exact List.forall_mem_cons.mpr ⟨hr, List.forall_mem_map.mpr fun r' hr' => ⟨by simp, hraws r' hr'⟩⟩
    have hends : (r :: raws.map (' ' :: ·)).Pairwise fun r' _ => Closed r' := by
      obtain ⟨hfirst, hrest⟩ := List.pairwise_cons.mp hclosed
      exact List.pairwise_cons.mpr ⟨List.forall_mem_map.mpr hfirst, List.pairwise_map.mpr (hrest.imp fun he => he)⟩
    have htrim : (r :: raws.map (' ' :: ·)).map Text.trim = (r :: raws).map Text.trim := by
      rw [List.map_cons, List.map_map, List.map_cons]
      exact congrArg _ (List.map_congr_left fun r' _ => Text.trim_cons_of_isBlank (by decide))
    rw [intercalate_comma_blank, entries_intercalate_comma huncut hends, htrim]

/-- Entries that are written with a comma and a blank between them are read back. -/
theorem entries_intercalate (h : ∀ e ∈ es, IsEntry e) (hclosed : es.Pairwise fun e _ => Closed e) :
    entries ([',', ' '].intercalate es) = es := by
  have htrim : es.map Text.trim = es := (List.map_congr_left fun e he => (h e he).trimmed).trans (List.map_id es)
  rw [entries_intercalate_trim (fun e he => (h e he).uncut) hclosed, htrim, List.filter_eq_self]
  exact fun e he => by simpa using (h e he).ne_nil

end StyleMixins.Call
