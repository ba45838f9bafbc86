import Mathlib.Data.List.Basic
import StyleMixins.Loading

namespace StyleMixins.Loading

variable {host : Host} {o : Options} {f : Found} {e : Error}

section Verdict

variable {α β : Type} {failures : List Error}

def failure? : Except Error α → Option Error
  | .ok _ => none
  | .error e => some e

/-- The first error that there is; the value if there is none. -/
def verdict (failures : List Error) (value : α) : Except Error α :=
  failures.head?.elim (.ok value) .error

theorem verdict_eq_ok_iff {value result : α} :
    verdict failures value = .ok result ↔ failures = [] ∧ value = result := by
  cases failures <;> simp [verdict]

theorem verdict_eq_error_iff {value : α} : verdict failures value = .error e ↔ failures.head? = some e := by
  cases failures <;> simp [verdict]

/-- Of two levels, the first error of the first part that has one counts. -/
theorem mapM_flatten_eq_verdict {f : α → Except Error (List β)} {wrong : α → List Error} {right : α → List β}
    (h : ∀ x, f x = verdict (wrong x) (right x)) (xs : List α) :
    (xs.mapM f).map List.flatten = verdict (xs.flatMap wrong) (xs.flatMap right) := by
  induction xs with
  | nil => rfl
  | cons x xs ih =>
    rw [List.mapM_cons, h, List.flatMap_cons, List.flatMap_cons]
    cases wrong x with
    | cons e rest => rfl
    | nil =>
      cases hxs : xs.mapM f with
      | error e =>
        rw [hxs] at ih
        exact (verdict_eq_error_iff.mpr (verdict_eq_error_iff.mp ih.symm)).symm
      | ok ys =>
        rw [hxs] at ih
        obtain ⟨hnone, hys⟩ := verdict_eq_ok_iff.mp ih.symm
        rw [hnone, hys]
        rfl

end Verdict

/-- The data files that lie directly in a directory, as far as its entries can be read. -/
def filesIn (host : Host) (directory : String) : List Found :=
  ((host.entries directory).filterMap Except.toOption).filter fun f => f.isFile && isDataFile f

def filesMatching (host : Host) (text : String) : List Found :=
  match host.glob text with
  | .error _ => []
  | .ok found => (found.filterMap Except.toOption).filter Found.isFile

def directoryFiles (host : Host) (o : Options) : List Found :=
  o.directories.flatMap (filesIn host)

def patternFiles (host : Host) (o : Options) : List Found :=
  o.patterns.flatMap (filesMatching host)

theorem ok_of_toOption {x : Except String Found} (h : x.toOption = some f) : x = .ok f := by
  cases x with
  | error cause => simp [Except.toOption] at h
  | ok f' => rw [Option.some.inj h]

def mixinIn? (host : Host) (f : Found) : Option (String × Definition) :=
  (file host f).toOption.map fun found => (found.1, .record found.2)

theorem stem_of_file {name : String} {fields : Record} (h : file host f = .ok (name, fields)) : f.stem = some name := by
  rw [file] at h
  split at h
  next => simp at h
  next stem hstem =>
    split at h
    next => simp at h
    next =>
      split at h
      next => simp at h
      next => rw [hstem, (Prod.mk.inj (Except.ok.inj h)).1]
      next => simp at h

def entryFailure? (host : Host) (directory : String) : Except String Found → Option Error
  | .error cause => some (.unloadable directory "cannot read directory" (some cause))
  | .ok f => if f.isFile && isDataFile f then failure? (file host f) else none

def failuresIn (host : Host) (directory : String) : List Error :=
  if host.isDirectory directory then (host.entries directory).filterMap (entryFailure? host directory)
  else [.unloadable directory "not a readable directory" none]

/-- A file that matches must be a data file. -/
def matchFailure? (host : Host) (text : String) : Except String Found → Option Error
  | .error cause => some (.unloadable text "cannot read match" (some cause))
  | .ok f =>
    if !f.isFile then none
    else if isDataFile f then failure? (file host f)
    else some (.unloadable f.path unsupported none)

def failuresMatching (host : Host) (text : String) : List Error :=
  match host.glob text with
  | .error cause => [.unloadable text "invalid glob pattern" (some cause)]
  | .ok found => found.filterMap (matchFailure? host text)

/-- All errors about directories and their files, then all about patterns and the files that match. -/
def failures (host : Host) (o : Options) : List Error :=
  o.directories.flatMap (failuresIn host) ++ o.patterns.flatMap (failuresMatching host)

theorem file_eq_verdict (host : Host) (f : Found) :
    ((file host f).map fun mixin => [mixin]) =
      verdict (failure? (file host f)).toList (file host f).toOption.toList := by
  cases file host f <;> rfl

/-- A row of paths, some of which are passed over, and each of the others of which is loaded or gives an error. -/
theorem mapM_found_eq_verdict {g : Except String Found → Except Error (List (String × Record))}
    {wrong : Except String Found → Option Error} {keep : Found → Bool}
    (h : ∀ x, g x = verdict (wrong x).toList
      ((x.toOption.filter keep).bind fun f => (file host f).toOption).toList)
    (xs : List (Except String Found)) :
    (xs.mapM g).map List.flatten = verdict (xs.filterMap wrong)
      (((xs.filterMap Except.toOption).filter keep).filterMap fun f => (file host f).toOption) := by
  rw [mapM_flatten_eq_verdict h, List.filter_filterMap, List.filterMap_filterMap, List.filterMap_eq_flatMap_toList,
    List.filterMap_eq_flatMap_toList]

theorem directory_eq_verdict (host : Host) (path : String) :
    directory host path =
      verdict (failuresIn host path) ((filesIn host path).filterMap fun f => (file host f).toOption) := by
  rw [directory, failuresIn]
  split
  next =>
    refine mapM_found_eq_verdict (fun x => ?_) (host.entries path)
    cases x with
    | error cause => rfl
    | ok f =>
      rw [entry, entryFailure?, Except.toOption, Option.filter_some]
      split
      next => exact file_eq_verdict host f
      next => rfl
  next => rfl

theorem pattern_eq_verdict (host : Host) (text : String) :
    pattern host text =
      verdict (failuresMatching host text) ((filesMatching host text).filterMap fun f => (file host f).toOption) := by
  rw [pattern, failuresMatching, filesMatching]
  cases host.glob text with
  | error cause => rfl
  | ok found =>
    refine mapM_found_eq_verdict (fun x => ?_) found
    cases x with
    | error cause => rfl
    | ok f =>
      rw [matched, matchFailure?, Except.toOption, Option.filter_some]
      cases f.isFile with
      | false => rfl
      | true =>
        cases isDataFile f with
        | false => rfl
        | true => exact file_eq_verdict host f

/-- Loading ends with the first of all errors. Without one, it gives the mixins of all files of the directories, then
those of the files that match, then those of the options. -/
theorem definitions_eq_verdict (host : Host) (o : Options) :
    definitions host o = verdict (failures host o)
      ((directoryFiles host o ++ patternFiles host o).filterMap (mixinIn? host) ++ o.mixins) := by
  have hdirectories := mapM_flatten_eq_verdict (directory_eq_verdict host) o.directories
  have hpatterns := mapM_flatten_eq_verdict (pattern_eq_verdict host) o.patterns
  have hmixins : mixinIn? host = fun f => (file host f).toOption.map fun found => (found.1, .record found.2) := rfl
  rw [definitions, failures]
  cases hd : o.directories.mapM (directory host) with
  | error e =>
    rw [hd] at hdirectories
    refine (verdict_eq_error_iff.mpr ?_).symm
    rw [List.head?_append, verdict_eq_error_iff.mp hdirectories.symm, Option.some_or]
  | ok inDirectories =>
    rw [hd] at hdirectories
    obtain ⟨hfirst, hright⟩ := verdict_eq_ok_iff.mp hdirectories.symm
    rw [hfirst, List.nil_append]
    cases hp : o.patterns.mapM (pattern host) with
    | error e =>
      rw [hp] at hpatterns
      exact (verdict_eq_error_iff.mpr (verdict_eq_error_iff.mp hpatterns.symm)).symm
    | ok inPatterns =>
      rw [hp] at hpatterns
      obtain ⟨hsecond, hright'⟩ := verdict_eq_ok_iff.mp hpatterns.symm
      refine (verdict_eq_ok_iff.mpr ⟨hsecond, ?_⟩).symm
      rw [List.flatten_append, ← hright, ← hright', hmixins]
      simp [directoryFiles, patternFiles, List.filterMap_append, List.filterMap_flatMap, List.map_flatMap,
        List.map_filterMap]

theorem exists_file_of_no_failures (h : failures host o = [])
    (hf : f ∈ directoryFiles host o ++ patternFiles host o) : ∃ found, file host f = .ok found := by
  obtain ⟨hdirectories, hpatterns⟩ := List.append_eq_nil_iff.mp h
  have hfile : failure? (file host f) = none := by
    rcases List.mem_append.mp hf with hin | hmatch
    · obtain ⟨directory, hmem, hin⟩ := List.mem_flatMap.mp hin
      obtain ⟨hread, hdata⟩ := List.mem_filter.mp hin
      obtain ⟨x, hx, hok⟩ := List.mem_filterMap.mp hread
      have hnone := List.flatMap_eq_nil_iff.mp hdirectories directory hmem
      rw [failuresIn] at hnone
      split at hnone
      next =>
        have hentry := List.filterMap_eq_nil_iff.mp hnone x hx
        rw [ok_of_toOption hok, entryFailure?, if_pos hdata] at hentry
        exact hentry
      next => simp at hnone
    · obtain ⟨text, hmem, hmatch⟩ := List.mem_flatMap.mp hmatch
      have hnone := List.flatMap_eq_nil_iff.mp hpatterns text hmem
      rw [failuresMatching] at hnone
      rw [filesMatching] at hmatch
      split at hnone
      next => simp at hnone
      next found hglob =>
        rw [hglob] at hmatch
        obtain ⟨hread, hisFile⟩ := List.mem_filter.mp hmatch
        obtain ⟨x, hx, hok⟩ := List.mem_filterMap.mp hread
        have hmatched := List.filterMap_eq_nil_iff.mp hnone x hx
        rw [ok_of_toOption hok, matchFailure?, if_neg (by simp [hisFile])] at hmatched
        split at hmatched
        next => exact hmatched
        next => simp at hmatched
  cases hok : file host f with
  | error e => simp [hok, failure?] at hfile
  | ok found => exact ⟨found, rfl⟩

/-- The error is about a file, a directory or a pattern. -/
def Unloadable (e : Error) : Prop :=
  ∃ path reason cause, e = .unloadable path reason cause

theorem unloadable_of_eq {α : Type} {path reason : String} {cause : Option String}
    (h : (.error (.unloadable path reason cause) : Except Error α) = .error e) : Unloadable e :=
  ⟨path, reason, cause, (Except.error.inj h).symm⟩

theorem unloadable_of_dataValue {text : String} (h : dataValue host f text = .error e) : Unloadable e := by
  rw [dataValue] at h
  split at h
  next => exact unloadable_of_eq h
  next =>
    split at h
    next =>
      split at h
      next => simp at h
      next => exact unloadable_of_eq h
    next =>
      split at h
      next =>
        split at h
        next => simp at h
        next => exact unloadable_of_eq h
      next => exact unloadable_of_eq h

theorem unloadable_of_file (h : failure? (file host f) = some e) : Unloadable e := by
  cases hfile : file host f with
  | ok found => simp [hfile, failure?] at h
  | error e' =>
    rw [hfile, failure?, Option.some.injEq] at h
    subst h
    rw [file] at hfile
    split at hfile
    next => exact unloadable_of_eq hfile
    next =>
      split at hfile
      next => exact unloadable_of_eq hfile
      next =>
        split at hfile
        next e' hvalue => exact Except.error.inj hfile ▸ unloadable_of_dataValue hvalue
        next => simp at hfile
        next => exact unloadable_of_eq hfile

theorem unloadable_of_entryFailure? {directory : String} {x : Except String Found}
    (h : entryFailure? host directory x = some e) : Unloadable e := by
  cases x with
  | error cause => exact ⟨_, _, _, (Option.some.inj h).symm⟩
  | ok f =>
    rw [entryFailure?] at h
    split at h
    next => exact unloadable_of_file h
    next => simp at h

theorem unloadable_of_matchFailure? {text : String} {x : Except String Found}
    (h : matchFailure? host text x = some e) : Unloadable e := by
  cases x with
  | error cause => exact ⟨_, _, _, (Option.some.inj h).symm⟩
  | ok f =>
    rw [matchFailure?] at h
    split at h
    next => simp at h
    next =>
      split at h
      next => exact unloadable_of_file h
      next => exact ⟨_, _, _, (Option.some.inj h).symm⟩

theorem unloadable_of_mem_failures (h : e ∈ failures host o) : Unloadable e := by
  rcases List.mem_append.mp h with hdirectory | hpattern
  · obtain ⟨directory, -, he⟩ := List.mem_flatMap.mp hdirectory
    rw [failuresIn] at he
    split at he
    next =>
      obtain ⟨x, -, hentry⟩ := List.mem_filterMap.mp he
      exact unloadable_of_entryFailure? hentry
    next => exact ⟨_, _, _, List.mem_singleton.mp he⟩
  · obtain ⟨text, -, he⟩ := List.mem_flatMap.mp hpattern
    rw [failuresMatching] at he
    split at he
    next => exact ⟨_, _, _, List.mem_singleton.mp he⟩
    next =>
      obtain ⟨x, -, hmatch⟩ := List.mem_filterMap.mp he
      exact unloadable_of_matchFailure? hmatch

theorem load_of_failure {registry : Registry} {rest : List Error} (h : failures host o = e :: rest) :
    load host o registry = ⟨registry, .error e⟩ := by
  rw [load, definitions_eq_verdict, h]
  rfl

theorem load_of_no_failures {registry : Registry} (h : failures host o = []) :
    load host o registry =
      let found := (directoryFiles host o ++ patternFiles host o).filterMap (mixinIn? host) ++ o.mixins
      ⟨found.foldl (fun r pair => r.put pair.1 pair.2) registry, .ok found.length⟩ := by
  rw [load, definitions_eq_verdict, h]
  rfl

theorem unloadable_of_load {registry : Registry} (h : (load host o registry).outcome = .error e) : Unloadable e := by
  cases hfailures : failures host o with
  | nil => simp [load_of_no_failures hfailures] at h
  | cons e' rest =>
    rw [load_of_failure hfailures, Except.error.injEq] at h
    exact unloadable_of_mem_failures (by rw [hfailures, h]; exact List.mem_cons_self)

/-- A mixin that is found after loading is a record, or one of those that the options give. -/
theorem find?_load {name : String} {d : Definition} (h : (load host o []).registry.find? name = some d) :
    (∃ fields, d = .record fields) ∨ (name, d) ∈ o.mixins := by
  cases hfailures : failures host o with
  | cons e rest => simp [load_of_failure hfailures, Entries.find?] at h
  | nil =>
    rw [load_of_no_failures hfailures] at h
    have hlast := (Entries.find?_foldl_put _ [] name).symm.trans h
    rw [Entries.find?, Option.or_none] at hlast
    rcases List.mem_append.mp (Entries.mem_of_getLast?_filter hlast) with hmem | hmem
    · obtain ⟨f, -, hmixin⟩ := List.mem_filterMap.mp hmem
      obtain ⟨found, -, hd⟩ := Option.map_eq_some_iff.mp hmixin
      exact Or.inl ⟨found.2, (congrArg Prod.snd hd).symm⟩
    · exact Or.inr hmem

end StyleMixins.Loading
