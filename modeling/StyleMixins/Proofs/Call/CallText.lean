import StyleMixins.Proofs.Call.Signature

namespace StyleMixins

theorem Text.isAlphanumeric_of_isBlank {c : Char} (h : isBlank c = true) : isAlphanumeric c = false :=
  forall_isBlank (p := fun c => isAlphanumeric c = false) (by decide +kernel) h

namespace Call

open Nesting

variable {c : Char} {cs key value : List Char} {a : Argument}

def IsKeyName (cs : List Char) : Prop :=
  cs ≠ [] ∧ ∀ c ∈ cs, Text.isAlphanumeric c = true ∨ c = '-' ∨ c = '_'

instance (cs : List Char) : Decidable (IsKeyName cs) :=
  have := List.decidableBAll (fun c => Text.isAlphanumeric c = true ∨ c = '-' ∨ c = '_') cs
  instDecidableAnd

/-- A key as it may be written, with its `$` or without. -/
def KeyShaped (cs : List Char) : Prop :=
  IsKeyName cs ∨ ∃ name, cs = '$' :: name ∧ IsKeyName name

theorem IsKeyName.not_mem (h : IsKeyName cs) (hc : ¬(Text.isAlphanumeric c = true ∨ c = '-' ∨ c = '_')) : c ∉ cs :=
  fun hm => hc (h.2 c hm)

theorem IsKeyName.ne_dollar (h : IsKeyName cs) (rest : List Char) : cs ≠ '$' :: rest := by
  rintro rfl
  exact h.not_mem (by decide) List.mem_cons_self

theorem isKey_iff : isKey cs = true ↔ KeyShaped cs := by
  have hname : ∀ name : List Char, (!name.isEmpty &&
      name.all fun c => Text.isAlphanumeric c || c == '-' || c == '_') = true ↔ IsKeyName name := by
    intro name
    simp [IsKeyName, or_assoc]
  unfold isKey KeyShaped
  split
  next rest =>
    rw [hname]
    constructor
    · exact fun h => .inr ⟨rest, rfl, h⟩
    · rintro (h | ⟨name, he, h⟩)
      · exact absurd rfl (h.ne_dollar rest)
      · rwa [(List.cons.inj he).2]
  next hdollar =>
    rw [hname, or_iff_left]
    rintro ⟨name, rfl, -⟩
    exact hdollar name rfl

instance (cs : List Char) : Decidable (KeyShaped cs) :=
  decidable_of_iff _ isKey_iff

/-- Nothing in a key opens or closes anything. -/
theorem IsKeyName.neutral (h : IsKeyName cs) (hc : c ∈ cs) : Neutral c := by
  intro hm
  simp only [List.mem_cons, List.not_mem_nil, or_false] at hm
  rcases hm with rfl | rfl | rfl | rfl | rfl | rfl | rfl <;> exact h.not_mem (by decide) hc

theorem IsKeyName.not_isBlank (h : IsKeyName cs) (hc : c ∈ cs) : Text.isBlank c = false := by
  by_contra hblank
  rw [Bool.not_eq_false] at hblank
  rcases h.2 c hc with halpha | rfl | rfl
  · simp [Text.isAlphanumeric_of_isBlank hblank] at halpha
  · exact absurd hblank (by decide)
  · exact absurd hblank (by decide)

theorem IsKeyName.trimmed (h : IsKeyName cs) : Text.Trimmed cs :=
  Text.trimmed_iff.mpr ⟨fun _ hc => h.not_isBlank (List.mem_of_mem_head? hc),
    fun _ hc => h.not_isBlank (List.mem_of_mem_getLast? hc)⟩

def Argument.text (a : Argument) : String :=
  match a.key with
  | some key => "$" ++ key ++ ": " ++ a.value
  | none => a.value

/-- An argument that can stand in a list. -/
structure Argument.Writable (a : Argument) : Prop where
  key : ∀ key ∈ a.key, IsKeyName key.toList
  trimmed : Text.Trimmed a.value.toList
  closed : Closed a.value.toList
  uncut : Uncut start a.value.toList
  ne_empty : a.key = none → a.value ≠ ""
  unkeyed : a.key = none → ':' ∈ a.value.toList → ¬KeyShaped (Text.trim (a.value.toList.takeWhile (· ≠ ':')))

instance (a : Argument) : Decidable a.Writable :=
  decidable_of_iff ((∀ key ∈ a.key, IsKeyName key.toList) ∧ Text.Trimmed a.value.toList ∧ Closed a.value.toList ∧
      Uncut start a.value.toList ∧ (a.key = none → a.value ≠ "") ∧
      (a.key = none → ':' ∈ a.value.toList → ¬KeyShaped (Text.trim (a.value.toList.takeWhile (· ≠ ':')))))
    ⟨fun ⟨h₁, h₂, h₃, h₄, h₅, h₆⟩ => ⟨h₁, h₂, h₃, h₄, h₅, h₆⟩,
      fun ⟨h₁, h₂, h₃, h₄, h₅, h₆⟩ => ⟨h₁, h₂, h₃, h₄, h₅, h₆⟩⟩

/-- In front of the value of a keyed argument, the list is read as before. -/
theorem IsKeyName.run_front (h : IsKeyName key) (value : List Char) :
    start.run ('$' :: key ++ ':' :: ' ' :: value) = start.run value ∧
      (Uncut start value → Uncut start ('$' :: key ++ ':' :: ' ' :: value)) := by
  have hsplit : '$' :: key ++ ':' :: ' ' :: value = ('$' :: key ++ [':', ' ']) ++ value := by simp
  have hneutral : ∀ c ∈ '$' :: key ++ [':', ' '], Neutral c := by
    simp only [List.cons_append, List.forall_mem_cons, List.forall_mem_append]
    exact ⟨by decide, fun c hc => h.neutral hc, by decide, by decide, by simp⟩
  have hcomma : ',' ∉ '$' :: key ++ [':', ' '] := by
    simp only [List.cons_append, List.mem_cons, List.mem_append, List.not_mem_nil, not_or]
    exact ⟨by decide, h.not_mem (by decide), by decide, by decide, by simp⟩
  rw [hsplit, run_append, run_start_neutral hneutral, uncut_append, run_start_neutral hneutral]
  exact ⟨rfl, fun hvalue => ⟨uncut_of_not_mem hcomma, hvalue⟩⟩

/-- Trimmed, a keyed argument may lose the blank behind its colon. -/
theorem trim_keyed (key : List Char) (hvalue : Text.Trimmed value) :
    ∃ after, Text.trim ('$' :: key ++ ':' :: ' ' :: value) = '$' :: key ++ ':' :: after ∧ Text.trim after = value := by
  cases value with
  | nil =>
    have hfront : Text.Trimmed ('$' :: key ++ [':']) := Text.Trimmed.cons_append key (by decide) (by decide) (by simp)
    have hsplit : '$' :: key ++ [':', ' '] = ('$' :: key ++ [':']) ++ [' '] := by simp
    refine ⟨[], ?_, rfl⟩
    rw [hsplit, Text.trim_append (by simp; decide)]
    exact hfront
  | cons c value =>
    have hsplit : '$' :: key ++ ':' :: ' ' :: c :: value = '$' :: (key ++ [':', ' ']) ++ (c :: value) := by simp
    refine ⟨' ' :: c :: value, ?_, (Text.trim_cons_of_isBlank (by decide)).trans hvalue⟩
    rw [hsplit]
    exact hvalue.cons_append (key ++ [':', ' ']) (by decide) (by simp)

theorem IsKeyName.ofEntry_keyed (h : IsKeyName key) (after : List Char) :
    Argument.ofEntry ('$' :: key ++ ':' :: after) = ⟨some (String.ofList key), String.ofList (Text.trim after)⟩ := by
  have hcolon : ':' ∉ '$' :: key := by
    rw [List.mem_cons, not_or]
    exact ⟨by decide, h.not_mem (by decide)⟩
  have htrim : Text.trim ('$' :: key) = '$' :: key := h.trimmed.cons (by decide)
  have hbare : bareName ('$' :: key) = key := by
    rw [bareName, htrim]
    exact h.trimmed
  rw [Argument.ofEntry, splitColon_append hcolon]
  simp only [htrim, hbare, isKey_iff.mpr (.inr ⟨key, rfl, h⟩), if_true]

theorem ofEntry_of_unkeyed (h : ':' ∈ cs → ¬KeyShaped (Text.trim (cs.takeWhile (· ≠ ':')))) :
    Argument.ofEntry cs = ⟨none, String.ofList cs⟩ := by
  by_cases hcolon : ':' ∈ cs
  · have hshape := h hcolon
    obtain ⟨before, after, rfl, hbefore⟩ := List.eq_append_cons_of_mem hcolon
    have hall : ∀ c ∈ before, decide (c ≠ ':') = true := fun c hc => by
      simpa using fun he : c = ':' => hbefore (he ▸ hc)
    have htake : (before ++ ':' :: after).takeWhile (· ≠ ':') = before := by
      rw [List.takeWhile_append_of_pos hall]
      simp
    have hkey := mt isKey_iff.mp (htake ▸ hshape)
    rw [Argument.ofEntry, splitColon_append hbefore]
    exact if_neg hkey
  · rw [Argument.ofEntry, splitColon_of_not_mem hcolon]

/-- What is written for an argument stays in one piece in a list, and is read back as the argument. -/
theorem Argument.Writable.text (h : a.Writable) :
    Uncut start a.text.toList ∧ Closed a.text.toList ∧ Text.trim a.text.toList ≠ [] ∧
      Argument.ofEntry (Text.trim a.text.toList) = a := by
  obtain ⟨key, value⟩ := a
  cases key with
  | none =>
    have htrim : Text.trim value.toList = value.toList := h.trimmed
    refine ⟨h.uncut, h.closed, ?_, ?_⟩
    · intro hnil
      exact h.ne_empty rfl (String.toList_eq_nil_iff.mp (htrim.symm.trans hnil))
    · have hentry := ofEntry_of_unkeyed (h.unkeyed rfl)
      rw [String.ofList_toList] at hentry
      exact (congrArg Argument.ofEntry htrim).trans hentry
  | some key =>
    have hkey : IsKeyName key.toList := h.key key rfl
    have htext : (Argument.text ⟨some key, value⟩).toList = '$' :: key.toList ++ ':' :: ' ' :: value.toList := by
      simp [Argument.text]
    obtain ⟨hrun, huncut⟩ := hkey.run_front value.toList
    obtain ⟨after, htrim, hafter⟩ := trim_keyed key.toList h.trimmed
    rw [htext, htrim, Closed, hrun, hkey.ofEntry_keyed, hafter]
    exact ⟨huncut h.uncut, h.closed, by simp, by simp⟩

def callText (name : String) (arguments : List Argument) : String :=
  name ++ "(" ++ ", ".intercalate (arguments.map Argument.text) ++ ")"

theorem readArguments_intercalate {arguments : List Argument} (h : ∀ a ∈ arguments, a.Writable) :
    readArguments (", ".intercalate (arguments.map Argument.text)) = arguments := by
  have hlist : (", ".intercalate (arguments.map Argument.text)).toList =
      [',', ' '].intercalate (arguments.map fun a => a.text.toList) := by
    simp [String.toList_intercalate, Function.comp_def]
  have hentries : entries ([',', ' '].intercalate (arguments.map fun a => a.text.toList)) =
      arguments.map fun a => Text.trim a.text.toList := by
    have huncut : ∀ r ∈ arguments.map fun a => a.text.toList, Uncut start r := by
      rw [List.forall_mem_map]
      exact fun a ha => (h a ha).text.1
    have hclosed : (arguments.map fun a => a.text.toList).Pairwise fun r _ => Closed r := by
      rw [List.pairwise_map]
      exact List.pairwise_of_forall_mem_list fun a ha _ _ => (h a ha).text.2.1
    rw [entries_intercalate_trim huncut hclosed, List.map_map]
    refine List.filter_eq_self.mpr (List.forall_mem_map.mpr ?_)
    exact fun a ha => by simpa using (h a ha).text.2.2.1
  rw [readArguments, hlist, hentries, List.map_map]
  exact (List.map_congr_left fun a ha => (h a ha).text.2.2.2).trans (List.map_id arguments)

/-- A call is read back as it was written. -/
theorem read_callText {name : String} {arguments : List Argument} (hname : Text.Trimmed name.toList)
    (hparen : '(' ∉ name.toList) (harguments : ∀ a ∈ arguments, a.Writable) :
    (Invocation.read (callText name arguments)).map (fun call => (call.name, call.list.map readArguments)) =
      some (name, some arguments) := by
  have htext : callText name arguments = String.ofList
      (name.toList ++ '(' :: (", ".intercalate (arguments.map Argument.text)).toList ++ [')']) := by
    rw [← String.toList_inj, String.toList_ofList, callText]
    simp
  rw [htext, read_call hname hparen, String.ofList_toList, String.ofList_toList]
  simp only [Option.map_some, readArguments_intercalate harguments]

/-- Values with commas, colons, parentheses and an escaped quote, and an empty one behind a key. -/
theorem read_callText_protected :
    let arguments : List Argument := [⟨none, "rgb(0, 1)"⟩, ⟨some "label", "\"a, (\\\" b\""⟩, ⟨none, "url(a:b)"⟩,
      ⟨some "rest", ""⟩]
    (∀ a ∈ arguments, a.Writable) ∧
      (Invocation.read (callText "shade" arguments)).map (fun call => (call.name, call.list.map readArguments)) =
        some ("shade", some arguments) := by
  intro arguments
  have hwritable : ∀ a ∈ arguments, a.Writable := by
    simp only [arguments, List.forall_mem_cons]
    exact ⟨by decide, by decide, by decide, by decide, by simp⟩
  exact ⟨hwritable, read_callText (by decide) (by decide) hwritable⟩

end Call

end StyleMixins
