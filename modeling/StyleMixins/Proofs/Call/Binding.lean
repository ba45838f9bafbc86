import StyleMixins.Call.Binding
import StyleMixins.Proofs.Entries
import Mathlib.Data.List.TakeWhile

namespace StyleMixins.Call

variable {parameters : List Parameter} {arguments : List Argument} {set : List String} {s : Slots} {a : Argument}
  {name : String}

/-- The name that an argument goes to when others have gone to the names `set` before: its key, or else the first
parameter whose name is not among them. -/
def target? (parameters : List Parameter) (set : List String) (a : Argument) : Option String :=
  a.key.or ((parameters.find? fun p => p.name ∉ set).map Parameter.name)

/-- Names with the values that the arguments give them, in call order. An argument that goes nowhere is dropped. -/
def assignments (parameters : List Parameter) : (set : List String) → List Argument → List (String × String)
  | _, [] => []
  | set, a :: rest =>
    match target? parameters set a with
    | some name => (name, a.value) :: assignments parameters (name :: set) rest
    | none => assignments parameters set rest

def fallbacks (parameters : List Parameter) : List (String × String) :=
  parameters.map fun p => (p.name, p.fallback)

/-- All positional values for the first parameter, where the list is variadic. -/
def gathered (parameters : List Parameter) (variadic : Bool) (arguments : List Argument) : List (String × String) :=
  match variadic, parameters with
  | true, first :: _ =>
    [(first.name, " ".intercalate (arguments.filterMap fun a => if a.key = none then some a.value else none))]
  | _, _ => []

/-- The table in which fallbacks give way to the values of arguments, and these to gathered values. -/
def naiveBinding (parameters : List Parameter) (variadic : Bool) (arguments : List Argument) : Entries String :=
  .ofPairs (fallbacks parameters ++ assignments parameters [] arguments ++ gathered parameters variadic arguments)

/-- Every parameter that positional arguments have passed is set. -/
def Slots.Passed (parameters : List Parameter) (s : Slots) : Prop :=
  ∃ passed, parameters = passed ++ s.waiting ∧ ∀ p ∈ passed, p.name ∈ s.filled

theorem Slots.passed_start (parameters : List Parameter) : (Slots.start parameters).Passed parameters :=
  ⟨[], rfl, by simp⟩

theorem Slots.Passed.find? (h : s.Passed parameters) :
    parameters.find? (fun p => p.name ∉ s.filled) =
      (s.waiting.dropWhile fun p => s.filled.contains p.name).head? := by
  obtain ⟨passed, rfl, hset⟩ := h
  have hnone : passed.find? (fun p => p.name ∉ s.filled) = none := by
    rw [List.find?_eq_none]
    intro p hp
    simpa using hset p hp
  rw [List.find?_append, hnone, Option.none_or, List.find?_eq_head?_dropWhile_not]
  simp

theorem Slots.Passed.keyed (h : s.Passed parameters) (values : Entries String) (key : String) :
    Slots.Passed parameters ⟨values, key :: s.filled, s.waiting⟩ := by
  obtain ⟨passed, hsplit, hset⟩ := h
  exact ⟨passed, hsplit, fun p hp => List.mem_cons_of_mem _ (hset p hp)⟩

/-- On the way to the next parameter that is not set, only such as are set are passed. -/
theorem Slots.Passed.next (h : s.Passed parameters) {p : Parameter} {waiting : List Parameter}
    (hdrop : (s.waiting.dropWhile fun p => s.filled.contains p.name) = p :: waiting) (values : Entries String) :
    Slots.Passed parameters ⟨values, p.name :: s.filled, waiting⟩ := by
  obtain ⟨passed, rfl, hset⟩ := h
  have hsplit : s.waiting.takeWhile (fun p => s.filled.contains p.name) ++ p :: waiting = s.waiting := by
    rw [← hdrop, List.takeWhile_append_dropWhile]
  refine ⟨passed ++ s.waiting.takeWhile (fun p => s.filled.contains p.name) ++ [p], ?_, ?_⟩
  · conv => lhs; rw [← hsplit]
    simp
  · intro q hq
    rcases List.mem_append.mp hq with hq | hq
    · refine List.mem_cons_of_mem _ ?_
      rcases List.mem_append.mp hq with hq | hq
      · exact hset q hq
      · simpa using List.mem_takeWhile_imp hq
    · rw [List.mem_singleton.mp hq]
      exact List.mem_cons_self

theorem Slots.Passed.give_of_some (h : s.Passed parameters) (ht : target? parameters s.filled a = some name) :
    ∃ waiting, s.give a = ⟨s.values.put name a.value, name :: s.filled, waiting⟩ ∧ (s.give a).Passed parameters := by
  rw [target?, h.find?] at ht
  cases hkey : a.key with
  | some key =>
    obtain rfl : key = name := by simpa [hkey] using ht
    have hgive : s.give a = ⟨s.values.put key a.value, key :: s.filled, s.waiting⟩ := by rw [give, hkey]
    exact ⟨s.waiting, hgive, hgive ▸ h.keyed _ key⟩
  | none =>
    rw [hkey, Option.none_or, Option.map_eq_some_iff] at ht
    obtain ⟨p, hhead, rfl⟩ := ht
    obtain ⟨waiting, hdrop⟩ := List.head?_eq_some_iff.mp hhead
    have hgive : s.give a = ⟨s.values.put p.name a.value, p.name :: s.filled, waiting⟩ := by
      simp only [give, hkey, hdrop]
    exact ⟨waiting, hgive, hgive ▸ h.next hdrop _⟩

theorem Slots.Passed.give_of_none (h : s.Passed parameters) (ht : target? parameters s.filled a = none) :
    s.give a = { s with waiting := [] } ∧ (s.give a).Passed parameters := by
  obtain ⟨hkey, hnone⟩ := Option.or_eq_none_iff.mp ht
  have hall : parameters.find? (fun p => p.name ∉ s.filled) = none := Option.map_eq_none_iff.mp hnone
  have hdrop : (s.waiting.dropWhile fun p => s.filled.contains p.name) = [] := by
    rwa [h.find?, List.head?_eq_none_iff] at hall
  have hgive : s.give a = { s with waiting := [] } := by simp only [give, hkey, hdrop]
  -- The cursor runs to the end, and rightly so: all parameters are set.
  refine ⟨hgive, hgive ▸ ⟨parameters, by simp, fun p hp => ?_⟩⟩
  simpa using List.find?_eq_none.mp hall p hp

/-- From any point on, the arguments are given as without a cursor. -/
theorem Slots.Passed.values_foldl (h : s.Passed parameters) (arguments : List Argument) :
    (arguments.foldl Slots.give s).values =
      (assignments parameters s.filled arguments).foldl (fun table pair => table.put pair.1 pair.2) s.values := by
  induction arguments generalizing s with
  | nil => rfl
  | cons a arguments ih =>
    rw [List.foldl_cons, assignments]
    cases ht : target? parameters s.filled a with
    | some name =>
      obtain ⟨waiting, hgive, hpassed⟩ := h.give_of_some ht
      rw [ih hpassed, hgive]
      rfl
    | none =>
      obtain ⟨hgive, hpassed⟩ := h.give_of_none ht
      rw [ih hpassed, hgive]

theorem positionalValues_eq (arguments : List Argument) :
    positionalValues arguments = arguments.filterMap fun a => if a.key = none then some a.value else none := by
  induction arguments with
  | nil => rfl
  | cons a arguments ih =>
    rw [positionalValues] at ih
    cases hkey : a.key <;> simp [positionalValues, hkey, ih]

theorem bindArguments_eq_naiveBinding (parameters : List Parameter) (variadic : Bool) (arguments : List Argument) :
    bindArguments parameters variadic arguments = naiveBinding parameters variadic arguments := by
  have hvalues : (arguments.foldl Slots.give (Slots.start parameters)).values =
      .ofPairs (fallbacks parameters ++ assignments parameters [] arguments) := by
    rw [(Slots.passed_start parameters).values_foldl, Entries.ofPairs, List.foldl_append, fallbacks, List.foldl_map]
    rfl
  cases variadic with
  | false => simp [bindArguments, hvalues, naiveBinding, gathered]
  | true =>
    cases parameters with
    | nil => simp [bindArguments, hvalues, naiveBinding, gathered]
    | cons first parameters =>
      rw [bindArguments, hvalues, positionalValues_eq, naiveBinding, gathered, Entries.ofPairs_concat]

theorem mem_names_assignments (h : name ∈ (assignments parameters set arguments).map Prod.fst) :
    name ∈ parameters.map Parameter.name ∨ some name ∈ arguments.map Argument.key := by
  induction arguments generalizing set with
  | nil => simp [assignments] at h
  | cons a arguments ih =>
    rw [assignments] at h
    rw [List.map_cons, List.mem_cons]
    cases ht : target? parameters set a with
    | none =>
      rw [ht] at h
      rcases ih h with hp | hk
      · exact .inl hp
      · exact .inr (.inr hk)
    | some other =>
      rw [ht, List.map_cons, List.mem_cons] at h
      rcases h with rfl | h
      · rcases Option.or_eq_some_iff.mp ht with hkey | ⟨-, hfree⟩
        · exact .inr (.inl hkey.symm)
        · obtain ⟨p, hfind, rfl⟩ := Option.map_eq_some_iff.mp hfree
          exact .inl (List.mem_map_of_mem (List.mem_of_find?_eq_some hfind))
      · rcases ih h with hp | hk
        · exact .inl hp
        · exact .inr (.inr hk)

theorem key_mem_names_assignments (h : some name ∈ arguments.map Argument.key) :
    name ∈ (assignments parameters set arguments).map Prod.fst := by
  induction arguments generalizing set with
  | nil => simp at h
  | cons a arguments ih =>
    rw [List.map_cons, List.mem_cons] at h
    rw [assignments]
    rcases h with hkey | hrest
    · have ht : target? parameters set a = some name := by rw [target?, ← hkey, Option.some_or]
      rw [ht]
      exact List.mem_cons_self
    · cases target? parameters set a with
      | none => exact ih hrest
      | some other => exact List.mem_cons_of_mem _ (ih hrest)

theorem last?_gathered (parameters : List Parameter) (variadic : Bool) (arguments : List Argument) (name : String) :
    Entries.last? (gathered parameters variadic arguments) name =
      if variadic = true ∧ parameters.head?.map Parameter.name = some name then
        some (" ".intercalate (arguments.filterMap fun a => if a.key = none then some a.value else none))
      else none := by
  cases variadic with
  | false => rfl
  | true =>
    cases parameters with
    | nil => rfl
    | cons first parameters =>
      simp only [true_and, List.head?_cons, Option.map_some, Option.some.injEq]
      exact Entries.last?_concat [] (first.name, _) name

theorem mem_names_naiveBinding (parameters : List Parameter) (variadic : Bool) (arguments : List Argument)
    (name : String) : name ∈ (naiveBinding parameters variadic arguments).keys ↔
      name ∈ parameters.map Parameter.name ∨ some name ∈ arguments.map Argument.key := by
  have hfallbacks : (fallbacks parameters).map Prod.fst = parameters.map Parameter.name := by
    simp [fallbacks, Function.comp_def]
  rw [naiveBinding, Entries.mem_keys_ofPairs, List.map_append, List.map_append, hfallbacks, List.mem_append,
    List.mem_append]
  constructor
  · rintro ((hp | ha) | hg)
    · exact .inl hp
    · exact mem_names_assignments ha
    · rw [← Entries.isSome_last?_iff, last?_gathered] at hg
      split at hg
      · next hfirst =>
        obtain ⟨first, hhead, rfl⟩ := Option.map_eq_some_iff.mp hfirst.2
        exact .inl (List.mem_map_of_mem (List.mem_of_mem_head? hhead))
      · simp at hg
  · rintro (hp | hk)
    · exact .inl (.inl hp)
    · exact .inl (.inr (key_mem_names_assignments hk))

/-- Arguments bind as they do without a cursor. The bound names are those of the parameters and the keys; each has the
value of the last argument that went to it, or else the last fallback given for it, and the first of a variadic list
has all positional values. -/
theorem bindArguments_last_wins (parameters : List Parameter) (variadic : Bool) (arguments : List Argument) :
    bindArguments parameters variadic arguments = naiveBinding parameters variadic arguments ∧
      (bindArguments parameters variadic arguments).keys.Nodup ∧
      (∀ name, name ∈ (bindArguments parameters variadic arguments).keys ↔
        name ∈ parameters.map Parameter.name ∨ some name ∈ arguments.map Argument.key) ∧
      ∀ name, (bindArguments parameters variadic arguments).find? name =
        if variadic = true ∧ parameters.head?.map Parameter.name = some name then
          some (" ".intercalate (arguments.filterMap fun a => if a.key = none then some a.value else none))
        else (Entries.last? (assignments parameters [] arguments) name).or
          (Entries.last? (fallbacks parameters) name) := by
  rw [bindArguments_eq_naiveBinding]
  refine ⟨rfl, Entries.nodup_keys_ofPairs _, mem_names_naiveBinding parameters variadic arguments, fun name => ?_⟩
  rw [naiveBinding, Entries.find?_ofPairs, Entries.last?_append, Entries.last?_append, last?_gathered]
  split <;> simp

/-- A key may come before the positional arguments, and after the one that it overrides. -/
example : bindArguments [⟨"a", "1"⟩, ⟨"b", "2"⟩, ⟨"c", "3"⟩] false
    [⟨some "b", "x"⟩, ⟨none, "y"⟩, ⟨none, "z"⟩, ⟨some "a", "w"⟩, ⟨none, "dropped"⟩] =
      [("a", "w"), ("b", "x"), ("c", "z")] := by
  decide

end StyleMixins.Call
