import StyleMixins.Text.Blank
import Mathlib.Data.List.TakeWhile

namespace StyleMixins.Text

variable {cs ws : List Char}

/-- The blank characters by their numbers. -/
def blankCodes : List Nat :=
  [0x09, 0x0A, 0x0B, 0x0C, 0x0D, 0x20, 0x85, 0xA0, 0x1680, 0x2000, 0x2001, 0x2002, 0x2003, 0x2004, 0x2005, 0x2006,
    0x2007, 0x2008, 0x2009, 0x200A, 0x2028, 0x2029, 0x202F, 0x205F, 0x3000]

theorem mem_blankCodes {c : Char} (h : isBlank c = true) : c.toNat ∈ blankCodes := by
  simp only [isBlank, Bool.or_eq_true, Bool.and_eq_true, beq_iff_eq, decide_eq_true_eq] at h
  simp only [blankCodes, List.mem_cons, List.not_mem_nil, or_false]
  omega

theorem forall_isBlank {p : Char → Prop} (h : ∀ n ∈ blankCodes, p (Char.ofNat n)) {c : Char} (hc : isBlank c = true) :
    p c := by
  have hp := h c.toNat (mem_blankCodes hc)
  rwa [Char.ofNat_toNat] at hp

def Trimmed (cs : List Char) : Prop :=
  trim cs = cs

instance (cs : List Char) : Decidable (Trimmed cs) :=
  inferInstanceAs (Decidable (trim cs = cs))

theorem head_dropWhile {p : Char → Bool} {c : Char} (h : c ∈ (cs.dropWhile p).head?) : p c = false := by
  cases hd : cs.dropWhile p with
  | nil => simp [hd] at h
  | cons d ds =>
    have hp := List.head_dropWhile_not p (l := cs) (by simp [hd])
    obtain rfl : d = c := by simpa [hd] using h
    simpa [hd] using hp

theorem dropWhile_eq_self {p : Char → Bool} (h : ∀ c ∈ cs.head?, p c = false) : cs.dropWhile p = cs := by
  cases cs with
  | nil => rfl
  | cons c cs => rw [List.dropWhile_cons_of_neg (by simpa using h c rfl)]

theorem exists_trimEnd_append (cs : List Char) :
    ∃ dropped, trimEnd cs ++ dropped = cs ∧ ∀ c ∈ dropped, isBlank c = true := by
  refine ⟨(cs.reverse.takeWhile isBlank).reverse, ?_, fun c hc => List.mem_takeWhile_imp (List.mem_reverse.mp hc)⟩
  rw [trimEnd, ← List.reverse_append, List.takeWhile_append_dropWhile, List.reverse_reverse]

theorem exists_blanks (cs : List Char) : ∃ left right, cs = left ++ trim cs ++ right ∧
    (∀ c ∈ left, isBlank c = true) ∧ ∀ c ∈ right, isBlank c = true := by
  obtain ⟨right, hend, hright⟩ := exists_trimEnd_append (trimStart cs)
  refine ⟨cs.takeWhile isBlank, right, ?_, fun c hc => List.mem_takeWhile_imp hc, hright⟩
  rw [trim, List.append_assoc, hend, trimStart, List.takeWhile_append_dropWhile]

theorem getLast_trimEnd {c : Char} (h : c ∈ (trimEnd cs).getLast?) : isBlank c = false := by
  rw [trimEnd, List.getLast?_reverse] at h
  exact head_dropWhile h

theorem trimEnd_eq_self (h : ∀ c ∈ cs.getLast?, isBlank c = false) : trimEnd cs = cs := by
  rw [trimEnd, dropWhile_eq_self (by simpa using h), List.reverse_reverse]

theorem head_trim {c : Char} (h : c ∈ (trim cs).head?) : isBlank c = false := by
  obtain ⟨dropped, hsplit, -⟩ := exists_trimEnd_append (trimStart cs)
  have hhead : c ∈ (trimStart cs).head? := by
    rw [← hsplit, List.head?_append]
    exact Option.mem_def.mpr (Option.or_eq_some_iff.mpr (Or.inl h))
  exact head_dropWhile hhead

theorem trimmed_trim (cs : List Char) : Trimmed (trim cs) := by
  have hlast : trimEnd (trim cs) = trim cs := trimEnd_eq_self fun c hc => getLast_trimEnd hc
  rw [Trimmed, trim, trimStart, dropWhile_eq_self fun c hc => head_trim hc, hlast]

theorem trimmed_iff :
    Trimmed cs ↔ (∀ c ∈ cs.head?, isBlank c = false) ∧ ∀ c ∈ cs.getLast?, isBlank c = false := by
  constructor
  · intro h
    rw [← show trim cs = cs from h]
    exact ⟨fun c hc => head_trim hc, fun c hc => getLast_trimEnd hc⟩
  · rintro ⟨hfirst, hlast⟩
    rw [Trimmed, trim, trimStart, dropWhile_eq_self hfirst, trimEnd_eq_self hlast]

theorem Trimmed.cons_append (cs : List Char) {c : Char} {ds : List Char} (hc : isBlank c = false) (h : Trimmed ds)
    (hne : ds ≠ []) : Trimmed (c :: cs ++ ds) := by
  refine trimmed_iff.mpr ⟨by simpa using hc, ?_⟩
  rw [List.getLast?_append, List.getLast?_eq_some_getLast hne, Option.some_or, ← List.getLast?_eq_some_getLast hne]
  exact (trimmed_iff.mp h).2

theorem Trimmed.cons {c : Char} (hc : isBlank c = false) (h : Trimmed cs) : Trimmed (c :: cs) := by
  cases cs with
  | nil => exact trimmed_iff.mpr ⟨by simpa using hc, by simpa using hc⟩
  | cons d ds => exact h.cons_append [] hc (by simp)

theorem trimEnd_append (h : ∀ c ∈ ws, isBlank c = true) : trimEnd (cs ++ ws) = trimEnd cs := by
  rw [trimEnd, trimEnd, List.reverse_append, List.dropWhile_append_of_pos (by simpa using h)]

theorem trim_append (h : ∀ c ∈ ws, isBlank c = true) : trim (cs ++ ws) = trim cs := by
  rw [trim, trim, trimStart, trimStart, List.dropWhile_append]
  split
  next hempty =>
    have hblank : ws.dropWhile isBlank = [] := List.dropWhile_eq_nil_iff.mpr h
    rw [hblank, List.isEmpty_iff.mp hempty]
  next => exact trimEnd_append h

theorem trim_append_left (h : ∀ c ∈ ws, isBlank c = true) : trim (ws ++ cs) = trim cs := by
  rw [trim, trim, trimStart, trimStart, List.dropWhile_append_of_pos h]

theorem trim_cons_of_isBlank {c : Char} (h : isBlank c = true) : trim (c :: cs) = trim cs := by
  rw [← List.singleton_append, trim_append_left (by simpa using h)]

theorem trim_eq_nil (h : trim cs = []) : ∀ c ∈ cs, isBlank c = true := by
  have hstart : trimStart cs = [] := by
    cases hs : trimStart cs with
    | nil => rfl
    | cons c rest =>
      -- The first character is no blank, so it is not lost at the other end.
      rw [trim, hs, trimEnd, List.reverse_eq_nil_iff, List.dropWhile_eq_nil_iff] at h
      have hhead : c ∈ (cs.dropWhile isBlank).head? := by rw [← trimStart, hs]; rfl
      have hc := head_dropWhile hhead
      simp [h c (by simp)] at hc
  exact List.dropWhile_eq_nil_iff.mp hstart

theorem mem_of_mem_trim {c : Char} (h : c ∈ trim cs) : c ∈ cs := by
  obtain ⟨dropped, hsplit, -⟩ := exists_trimEnd_append (trimStart cs)
  have hstart : c ∈ trimStart cs := hsplit ▸ List.mem_append_left _ h
  exact (List.dropWhile_suffix isBlank).subset hstart

end StyleMixins.Text
