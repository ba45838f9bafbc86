import StyleMixins.Mixin.Harvest
import StyleMixins.Proofs.Call.Name
import StyleMixins.Proofs.Call.Segments

namespace StyleMixins

namespace Call

open Nesting

variable {c : Char} {cs ds e : List Char} {p : Parameter}

def HasEllipsis (cs : List Char) : Prop :=
  ['.', '.', '.'] <:+: cs

theorem withoutEllipsis_cons (h : ¬['.', '.', '.'] <+: c :: cs) :
    withoutEllipsis (c :: cs) = (c :: (withoutEllipsis cs).1, (withoutEllipsis cs).2) := by
  rw [withoutEllipsis]
  rintro rest rfl rfl
  exact h ⟨rest, rfl⟩

theorem head_withoutEllipsis (cs : List Char) (h : (withoutEllipsis cs).1.head? = some '.') : cs.head? = some '.' := by
  cases cs with
  | nil => exact h
  | cons c cs =>
    by_cases hp : ['.', '.', '.'] <+: c :: cs
    · obtain ⟨rest, he⟩ := hp
      rw [← (List.cons.inj he).1]
      rfl
    · simpa [withoutEllipsis_cons hp] using h

theorem not_hasEllipsis_withoutEllipsis (cs : List Char) : ¬HasEllipsis (withoutEllipsis cs).1 := by
  fun_induction withoutEllipsis cs with
  | case1 rest ih => exact ih
  | case2 => simp [HasEllipsis]
  | case3 c rest hdots ih =>
    rw [HasEllipsis, List.infix_cons_iff]
    rintro (⟨more, hprefix⟩ | hinfix)
    · -- Two dots in front of `rest` were two dots before, and the three would have been taken out.
      obtain ⟨rfl, hrest⟩ := List.cons.inj hprefix
      have hfirst := head_withoutEllipsis rest (by rw [← hrest]; rfl)
      obtain ⟨rest', rfl⟩ := List.head?_eq_some_iff.mp hfirst
      have hthree : ¬['.', '.', '.'] <+: '.' :: rest' := by
        rintro ⟨rest'', he⟩
        exact hdots _ rfl he.symm
      rw [withoutEllipsis_cons hthree] at hrest
      have hsecond := head_withoutEllipsis rest' (by rw [← (List.cons.inj hrest).2]; rfl)
      obtain ⟨rest'', rfl⟩ := List.head?_eq_some_iff.mp hsecond
      exact hdots _ rfl rfl
    · exact ih hinfix

theorem withoutEllipsis_of_not (h : ¬HasEllipsis cs) : withoutEllipsis cs = (cs, false) := by
  induction cs with
  | nil => rfl
  | cons c cs ih =>
    rw [HasEllipsis, List.infix_cons_iff, not_or] at h
    rw [withoutEllipsis_cons h.1, ih h.2]

theorem withoutEllipsis_append_marker (h : ¬HasEllipsis cs) :
    withoutEllipsis (cs ++ ['.', '.', '.']) = (cs, true) := by
  induction cs with
  | nil => rfl
  | cons c cs ih =>
    rw [HasEllipsis, List.infix_cons_iff, not_or] at h
    by_cases hp : ['.', '.', '.'] <+: c :: (cs ++ ['.', '.', '.'])
    · -- Only dots stand in front of the marker, one or two of them.
      obtain ⟨rest, he⟩ := hp
      obtain ⟨rfl, hsecond⟩ := List.cons.inj he
      cases cs with
      | nil => rfl
      | cons d cs =>
        obtain ⟨rfl, hthird⟩ := List.cons.inj hsecond
        cases cs with
        | nil => rfl
        | cons d cs =>
          obtain ⟨rfl, -⟩ := List.cons.inj hthird
          exact absurd ⟨cs, rfl⟩ h.1
    · rw [List.cons_append, withoutEllipsis_cons hp, ih h.2]

theorem dots_of_append_cons (cs : List Char) (hc : c ≠ '.') (h : ['.', '.', '.'] <+: cs ++ c :: ds) :
    ['.', '.', '.'] <+: cs := by
  have hwith : cs ++ [c] <+: cs ++ c :: ds := ⟨ds, by simp⟩
  rcases List.prefix_or_prefix_of_prefix h hwith with h | h
  · refine (List.prefix_concat_iff.mp h).resolve_left fun he => hc ?_
    have hlast := congrArg List.getLast? he
    simpa using hlast.symm
  · have hm : c ∈ ['.', '.', '.'] := h.subset (by simp)
    simp [hc] at hm

theorem hasEllipsis_of_cons (hc : c ≠ '.') (h : HasEllipsis (c :: ds)) : HasEllipsis ds :=
  (List.infix_cons_iff.mp h).resolve_left fun h => absurd (dots_of_append_cons [] hc h) (by simp)

/-- Another character keeps dots apart. -/
theorem hasEllipsis_of_append_cons (hc : c ≠ '.') (h : HasEllipsis (cs ++ c :: ds)) :
    HasEllipsis cs ∨ HasEllipsis ds := by
  induction cs with
  | nil => exact Or.inr (hasEllipsis_of_cons hc h)
  | cons d cs ih =>
    rcases List.infix_cons_iff.mp h with h | h
    · exact Or.inl (dots_of_append_cons (d :: cs) hc h).isInfix
    · exact (ih h).imp_left List.infix_cons

theorem hasEllipsis_intercalate {es : List (List Char)} (h : HasEllipsis ([',', ' '].intercalate es)) :
    ∃ e ∈ es, HasEllipsis e := by
  induction es with
  | nil => simp [HasEllipsis, List.intercalate] at h
  | cons e es ih =>
    cases es with
    | nil => exact ⟨e, by simp, by rwa [List.intercalate_singleton] at h⟩
    | cons e' es =>
      rw [List.intercalate_cons_cons, List.append_assoc] at h
      rcases hasEllipsis_of_append_cons (by decide) h with h | h
      · exact ⟨e, by simp, h⟩
      · obtain ⟨e'', hm, he⟩ := ih (hasEllipsis_of_cons (by decide) h)
        exact ⟨e'', by simp [hm], he⟩

theorem splitColon_of_not_mem (h : ':' ∉ cs) : splitColon cs = none := by
  induction cs with
  | nil => rfl
  | cons c cs ih =>
    rw [List.mem_cons, not_or] at h
    rw [splitColon, ih h.2]
    · rfl
    · exact fun hc => h.1 hc.symm

theorem splitColon_append (h : ':' ∉ cs) (after : List Char) : splitColon (cs ++ ':' :: after) = some (cs, after) := by
  induction cs with
  | nil => rfl
  | cons c cs ih =>
    rw [List.mem_cons, not_or] at h
    rw [List.cons_append, splitColon, ih h.2]
    · rfl
    · exact fun hc => h.1 hc.symm

theorem trimmed_bareName (cs : List Char) : Text.Trimmed (bareName cs) := by
  unfold bareName
  split <;> exact Text.trimmed_trim _

theorem exists_bareName (cs : List Char) : ∃ left right, cs = left ++ bareName cs ++ right ∧
    (∀ c ∈ left, Neutral c) ∧ ∀ c ∈ right, Neutral c := by
  obtain ⟨left, right, he, hleft, hright⟩ := Text.exists_blanks cs
  have hleft := fun c hc => neutral_of_isBlank (hleft c hc)
  have hright := fun c hc => neutral_of_isBlank (hright c hc)
  unfold bareName
  split
  next rest heq =>
    obtain ⟨left', right', he', hleft', hright'⟩ := Text.exists_blanks rest
    refine ⟨left ++ '$' :: left', right' ++ right, ?_, ?_, ?_⟩
    · conv => lhs; rw [he, heq, he']
      simp
    · simp only [List.forall_mem_append, List.forall_mem_cons]
      exact ⟨hleft, by decide, fun c hc => neutral_of_isBlank (hleft' c hc)⟩
    · rw [List.forall_mem_append]
      exact ⟨fun c hc => neutral_of_isBlank (hright' c hc), hright⟩
  next => exact ⟨left, right, he, hleft, hright⟩

/-- The entry holds a name and a fallback, and around them nothing that opens or closes anything. -/
structure Declares (e name fallback : List Char) : Prop where
  trimmed_name : Text.Trimmed name
  trimmed_fallback : Text.Trimmed fallback
  not_mem : ':' ∉ name
  split : ∃ left gap right, e = left ++ name ++ gap ++ fallback ++ right ∧ (∀ c ∈ left, Neutral c) ∧
    (∀ c ∈ gap, Neutral c) ∧ (∀ c ∈ right, Neutral c) ∧ (gap = [] → fallback = [])

theorem exists_declares (e : List Char) : ∃ name fallback, Declares e name fallback ∧
    Parameter.ofEntry e = ⟨String.ofList name, String.ofList fallback⟩ := by
  by_cases hcolon : ':' ∈ e
  · obtain ⟨before, after, rfl, hbefore⟩ := List.eq_append_cons_of_mem hcolon
    obtain ⟨left, gap, he, hleft, hgap⟩ := exists_bareName before
    obtain ⟨gap', right, he', hgap', hright⟩ := Text.exists_blanks after
    refine ⟨bareName before, Text.trim after, ⟨trimmed_bareName before, Text.trimmed_trim after, ?_,
      left, gap ++ ':' :: gap', right, ?_, hleft, ?_, fun c hc => neutral_of_isBlank (hright c hc), by simp⟩, ?_⟩
    · exact fun hm => hbefore (he ▸ by simp [hm])
    · conv => lhs; rw [he, he']
      simp
    · simp only [List.forall_mem_append, List.forall_mem_cons]
      exact ⟨hgap, by decide, fun c hc => neutral_of_isBlank (hgap' c hc)⟩
    · rw [Parameter.ofEntry, splitColon_append hbefore]
  · obtain ⟨left, right, he, hleft, hright⟩ := exists_bareName e
    refine ⟨bareName e, [], ⟨trimmed_bareName e, rfl, ?_, left, [], right, ?_, hleft, by simp, hright,
      fun _ => rfl⟩, ?_⟩
    · exact fun hm => hcolon (he ▸ by simp [hm])
    · simpa using he
    · rw [Parameter.ofEntry, splitColon_of_not_mem hcolon]

def written (name fallback : List Char) : List Char :=
  '$' :: name ++ if fallback = [] then [] else ':' :: ' ' :: fallback

theorem toList_parameterText (name fallback : List Char) :
    (Definition.parameterText ⟨String.ofList name, String.ofList fallback⟩).toList = written name fallback := by
  have hempty : (String.ofList fallback).isEmpty = true ↔ fallback = [] := by
    rw [String.isEmpty_iff, ← String.toList_inj, String.toList_ofList]
    rfl
  unfold Definition.parameterText written
  by_cases h : fallback = [] <;> simp [hempty, h]

section Written

variable {name fallback : List Char}

theorem Declares.run_written (h : Declares e name fallback) (hne : fallback ≠ []) :
    ∃ left gap right, e = left ++ name ++ gap ++ fallback ++ right ∧ start.run left = start ∧
      (start.run name).run gap = (start.run name).run [':', ' '] ∧ ∀ c ∈ right, Neutral c := by
  obtain ⟨left, gap, right, he, hleft, hgap, hright, hnone⟩ := h.split
  refine ⟨left, gap, right, he, run_start_neutral hleft, ?_, hright⟩
  have hs := sound_start.run name
  have hcolon : ∀ c ∈ [':', ' '], Neutral c := by
    intro c hc
    simp only [List.mem_cons, List.not_mem_nil, or_false] at hc
    rcases hc with rfl | rfl <;> decide
  rw [hs.run_neutral hgap (mt hnone hne), hs.run_neutral hcolon (by simp)]

theorem Declares.uncut_written (h : Declares e name fallback) (he : Uncut start e) :
    Uncut start (written name fallback) := by
  have hdollar : ∀ ds, Uncut start ('$' :: ds) ↔ Uncut start ds := fun ds => and_iff_right (by decide)
  by_cases hne : fallback = []
  · obtain ⟨left, gap, right, rfl, hleft, -⟩ := h.split
    simp only [uncut_append, run_start_neutral hleft] at he
    rw [written, if_pos hne, List.append_nil, hdollar]
    exact he.1.1.1.2
  · obtain ⟨left, gap, right, rfl, hleft, hgap, -⟩ := h.run_written hne
    simp only [uncut_append, run_append, hleft, hgap] at he
    rw [written, if_neg hne, List.cons_append, hdollar, uncut_append]
    exact ⟨he.1.1.1.2, uncut_append.mpr ⟨uncut_of_not_mem (by decide : ',' ∉ [':', ' ']), he.1.2⟩⟩

theorem Declares.closed_written (h : Declares e name fallback) (he : Closed e) : Closed (written name fallback) := by
  have hdollar : ∀ ds, start.run ('$' :: ds) = start.run ds := fun ds => rfl
  by_cases hne : fallback = []
  · obtain ⟨left, gap, right, rfl, hleft, hgap, hright, -⟩ := h.split
    subst hne
    have hs := sound_start.run name
    simp only [Closed, List.append_nil, run_append, run_start_neutral hleft,
      (hs.run gap).isTop_run_neutral hright, hs.isTop_run_neutral hgap] at he
    rwa [Closed, written, if_pos rfl, List.append_nil, hdollar]
  · obtain ⟨left, gap, right, rfl, hleft, hgap, hright⟩ := h.run_written hne
    have hs := ((sound_start.run name).run [':', ' ']).run fallback
    simp only [Closed, run_append, hleft, hgap, hs.isTop_run_neutral hright] at he
    rw [Closed, written, if_neg hne, List.cons_append, hdollar, run_append]
    exact he

theorem Declares.trimmed_written (h : Declares e name fallback) : Text.Trimmed (written name fallback) := by
  by_cases hne : fallback = []
  · rw [written, if_pos hne, List.append_nil]
    exact h.trimmed_name.cons (by decide)
  · have hsplit : written name fallback = '$' :: (name ++ [':', ' ']) ++ fallback := by simp [written, hne]
    rw [hsplit]
    exact h.trimmed_fallback.cons_append _ (by decide) hne

theorem Declares.ofEntry_written (h : Declares e name fallback) :
    Parameter.ofEntry (written name fallback) = ⟨String.ofList name, String.ofList fallback⟩ := by
  have hcolon : ':' ∉ '$' :: name := by simp [h.not_mem]
  have hname : bareName ('$' :: name) = name := by
    have htrim : Text.trim ('$' :: name) = '$' :: name := h.trimmed_name.cons (by decide)
    rw [bareName, htrim]
    exact h.trimmed_name
  by_cases hne : fallback = []
  · rw [written, if_pos hne, List.append_nil, Parameter.ofEntry, splitColon_of_not_mem hcolon, hne]
    simp only [hname, String.ofList_nil]
  · have hblank : Text.trim (' ' :: fallback) = fallback :=
      (Text.trim_cons_of_isBlank (by decide)).trans h.trimmed_fallback
    rw [written, if_neg hne, Parameter.ofEntry, splitColon_append hcolon]
    simp only [hname, hblank]

theorem Declares.not_hasEllipsis_written (h : Declares e name fallback) (he : ¬HasEllipsis e) :
    ¬HasEllipsis (written name fallback) := by
  obtain ⟨left, gap, right, rfl, -⟩ := h.split
  have hname : ¬HasEllipsis name := fun hn => he (hn.trans ⟨left, gap ++ fallback ++ right, by simp⟩)
  have hfallback : ¬HasEllipsis fallback := fun hf => he (hf.trans ⟨left ++ name ++ gap, right, rfl⟩)
  intro hw
  rw [written] at hw
  have hw := hasEllipsis_of_cons (by decide) hw
  split at hw
  next => exact hname (by simpa using hw)
  next =>
    have hw := (hasEllipsis_of_append_cons (by decide) hw).resolve_left hname
    exact hfallback (hasEllipsis_of_cons (by decide) hw)

end Written

/-- What a parameter is written as declares it again, and can stand in a list wherever its entry could. -/
theorem parameterText_ofEntry (h : IsEntry e) :
    IsEntry (Definition.parameterText (.ofEntry e)).toList ∧
    Parameter.ofEntry (Definition.parameterText (.ofEntry e)).toList = .ofEntry e ∧
    (Closed e → Closed (Definition.parameterText (.ofEntry e)).toList) ∧
    (¬HasEllipsis e → ¬HasEllipsis (Definition.parameterText (.ofEntry e)).toList) := by
  obtain ⟨name, fallback, hd, he⟩ := exists_declares e
  rw [he, toList_parameterText]
  exact ⟨⟨by simp [written], hd.trimmed_written, hd.uncut_written h.uncut⟩, hd.ofEntry_written,
    hd.closed_written, hd.not_hasEllipsis_written⟩

def ParameterList.text (l : ParameterList) : String :=
  ", ".intercalate (l.parameters.map Definition.parameterText) ++ if l.variadic then "..." else ""

theorem ParameterList.toList_text (l : ParameterList) :
    l.text.toList = [',', ' '].intercalate (l.parameters.map fun p => (Definition.parameterText p).toList) ++
      if l.variadic then ['.', '.', '.'] else [] := by
  have hcomma : ", ".toList = [',', ' '] := rfl
  have hdots : (if l.variadic then "..." else "").toList = if l.variadic then ['.', '.', '.'] else [] := by
    cases l.variadic <;> rfl
  rw [text, String.toList_append, String.toList_intercalate, List.map_map, hcomma, hdots]
  rfl

/-- A list with the marker behind it, or without one, is taken apart. -/
theorem withoutEllipsis_append (h : ¬HasEllipsis cs) (variadic : Bool) :
    withoutEllipsis (cs ++ if variadic then ['.', '.', '.'] else []) = (cs, variadic) := by
  cases variadic with
  | true => exact withoutEllipsis_append_marker h
  | false => exact (List.append_nil cs).symm ▸ withoutEllipsis_of_not h

/-- The entries of a list as its parameters are written. -/
def printed (cs : List Char) : List (List Char) :=
  (entries cs).map fun e => (Definition.parameterText (.ofEntry e)).toList

theorem entries_printed (cs : List Char) : entries ([',', ' '].intercalate (printed cs)) = printed cs := by
  have h : ∀ e ∈ entries cs, _ := fun e he => parameterText_ofEntry (isEntry_of_mem he)
  refine entries_intercalate ?_ (List.pairwise_map.mpr ?_)
  · intro w hw
    obtain ⟨e, he, rfl⟩ := List.mem_map.mp hw
    exact (h e he).1
  · exact (entries_closed cs).imp_of_mem fun he _ hclosed => (h _ he).2.2.1 hclosed

theorem ofEntry_printed (cs : List Char) :
    (printed cs).map Parameter.ofEntry = (entries cs).map Parameter.ofEntry := by
  rw [printed, List.map_map]
  exact List.map_congr_left fun e he => (parameterText_ofEntry (isEntry_of_mem he)).2.1

theorem not_hasEllipsis_printed (h : ¬HasEllipsis cs) : ¬HasEllipsis ([',', ' '].intercalate (printed cs)) := by
  intro hdots
  obtain ⟨w, hw, hdots⟩ := hasEllipsis_intercalate hdots
  obtain ⟨e, he, rfl⟩ := List.mem_map.mp hw
  exact (parameterText_ofEntry (isEntry_of_mem he)).2.2.2 (fun hin => h (hin.trans (infix_of_mem_entries he))) hdots

theorem readParameters_text (list : String) : readParameters (readParameters list).text = readParameters list := by
  have hnone := not_hasEllipsis_withoutEllipsis list.toList
  have htext : (readParameters list).text.toList =
      [',', ' '].intercalate (printed (withoutEllipsis list.toList).1) ++
        if (withoutEllipsis list.toList).2 then ['.', '.', '.'] else [] := by
    rw [ParameterList.toList_text, readParameters, List.map_map]
    rfl
  rw [readParameters, htext, withoutEllipsis_append (not_hasEllipsis_printed hnone)]
  simp only [entries_printed, ofEntry_printed]
  rfl

theorem read_call {name list : List Char} (hname : Text.Trimmed name) (hparen : '(' ∉ name) :
    Invocation.read (String.ofList (name ++ '(' :: list ++ [')'])) =
      some ⟨String.ofList name, some (String.ofList list)⟩ := by
  have hall : ∀ c ∈ name, decide (c ≠ '(') = true := fun c hc => by
    simpa using fun he : c = '(' => hparen (he ▸ hc)
  have htake : (name ++ '(' :: list ++ [')']).takeWhile (· ≠ '(') = name := by
    rw [List.append_assoc, List.takeWhile_append_of_pos hall]
    simp
  have hdrop : (name ++ '(' :: list ++ [')']).dropWhile (· ≠ '(') = '(' :: list ++ [')'] := by
    rw [List.append_assoc, List.dropWhile_append_of_pos hall]
    simp
  have htrim : Text.trim ('(' :: list ++ [')']) = '(' :: (list ++ [')']) :=
    Text.Trimmed.cons_append list (by decide) (by decide) (by simp)
  rw [Invocation.read, String.toList_ofList]
  simp only [htake, hdrop, htrim, show Text.trim name = name from hname]
  simp

/-- A name that was read can be read again. -/
theorem trimmed_name_of_read {text : String} {head : Invocation} (h : Invocation.read text = some head) :
    Text.Trimmed head.name.toList ∧ '(' ∉ head.name.toList := by
  rw [name_of_read h, headName, String.toList_ofList]
  refine ⟨Text.trimmed_trim _, fun hm => ?_⟩
  have hp := List.mem_takeWhile_imp (Text.mem_of_mem_trim hm)
  simp at hp

theorem signature_block (name : String) (m : BlockMixin) :
    (Definition.block m).signature name =
      String.ofList (name.toList ++ '(' :: (ParameterList.mk m.parameters m.variadic).text.toList ++ [')']) := by
  rw [← String.toList_inj, String.toList_ofList, Definition.signature, ParameterList.text]
  simp

end Call

namespace Tree

/-- The signature of a definition names it and declares its parameters, as the block did that it was taken from. -/
theorem signature_reads_back (t : Tree) (block : NodeId) (head : Call.Invocation)
    (h : Call.Invocation.read (t.params block) = some head) :
    ∃ m list, t.definition block = .ok (head.name, .block m) ∧
      Call.Invocation.read ((Definition.block m).signature head.name) = some ⟨head.name, some list⟩ ∧
      Call.readParameters list = ⟨m.parameters, m.variadic⟩ := by
  -- A definition without parentheses has the parameters of an empty list.
  have hlist : (head.list.map Call.readParameters).getD ⟨[], false⟩ = Call.readParameters (head.list.getD "") := by
    cases head.list <;> rfl
  obtain ⟨htrim, hparen⟩ := Call.trimmed_name_of_read h
  let list := Call.readParameters (head.list.getD "")
  let m : BlockMixin := ⟨t.fragment block, list.parameters, list.variadic,
    (t.firstAtRule block Keyword.placeholder).isSome⟩
  refine ⟨m, list.text, ?_, ?_, Call.readParameters_text _⟩
  · rw [definition, h]
    simp only [hlist]
    rfl
  · rw [Call.signature_block, Call.read_call htrim hparen, String.ofList_toList, String.ofList_toList]

namespace Sample

/-- Names without sigil and with two, a comma in quotes, a fallback without text, and a marker that is not last. -/
def signed : Tree :=
  .ofElement (.mk .root none
    [.mk (.atRule "mixin" " button (size , $$tone: 'a, b' ...,$ url:f(x:y, [z]) , edge : )" true) none []])

end Sample

theorem signature_reads_back_button : ∃ m list, Sample.signed.definition 1 = .ok ("button", .block m) ∧
    (Definition.block m).signature "button" = "button($size, $$tone: 'a, b', $url: f(x:y, [z]), $edge...)" ∧
    Call.Invocation.read ((Definition.block m).signature "button") = some ⟨"button", some list⟩ ∧
    Call.readParameters list = ⟨m.parameters, m.variadic⟩ := by
  have hread : Call.Invocation.read (Sample.signed.params 1) =
      some ⟨"button", some "size , $$tone: 'a, b' ...,$ url:f(x:y, [z]) , edge : "⟩ := by decide +kernel
  have htext : (Sample.signed.definition 1).toOption.map (fun d => d.2.signature d.1) =
      some "button($size, $$tone: 'a, b', $url: f(x:y, [z]), $edge...)" := by decide +kernel
  obtain ⟨m, list, hm, hsignature, hlist⟩ := signature_reads_back Sample.signed 1 _ hread
  rw [hm] at htext
  exact ⟨m, list, hm, Option.some.inj htext, hsignature, hlist⟩

end Tree

end StyleMixins
