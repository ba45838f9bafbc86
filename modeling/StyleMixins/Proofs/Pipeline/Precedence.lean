import StyleMixins.Proofs.Entries
import StyleMixins.Proofs.Pipeline.ErrorPlaces

namespace StyleMixins

namespace Loading

variable {host : Host} {o : Options} {files : List Found} {f : Found}

/-- The mixin of the last of some files whose name without the extension is given. -/
def lastIn? (host : Host) (files : List Found) (name : String) : Option Definition :=
  (((files.filter fun f => f.stem = some name).getLast?).bind (mixinIn? host)).map Prod.snd

theorem lastIn?_concat {name : String} {fields : Record} (h : file host f = .ok (name, fields)) (key : String) :
    lastIn? host (files ++ [f]) key = if name = key then some (.record fields) else lastIn? host files key := by
  rw [lastIn?, List.filter_append, List.filter_singleton, stem_of_file h]
  by_cases hkey : name = key
  · simp [hkey, mixinIn?, h, Except.toOption]
  · simp [hkey, lastIn?]

/-- When all files can be loaded, the last record with a name is that of the last file with the name. -/
theorem last?_filterMap_mixinIn (hall : ∀ f ∈ files, ∃ found, file host f = .ok found) (key : String) :
    Entries.last? (files.filterMap (mixinIn? host)) key = lastIn? host files key := by
  induction files using List.reverseRecOn with
  | nil => rfl
  | append_singleton files f ih =>
    obtain ⟨⟨name, fields⟩, hfile⟩ := hall f (by simp)
    have hmixin : [f].filterMap (mixinIn? host) = [(name, .record fields)] := by
      simp [mixinIn?, hfile, Except.toOption]
    rw [List.filterMap_append, hmixin, Entries.last?_concat, lastIn?_concat hfile,
      ih fun f' hf => hall f' (by simp [hf])]

theorem length_filterMap_mixinIn (hall : ∀ f ∈ files, ∃ found, file host f = .ok found) :
    (files.filterMap (mixinIn? host)).length = files.length := by
  rw [List.filterMap_length_eq_length]
  intro f hf
  obtain ⟨found, hfile⟩ := hall f hf
  simp [mixinIn?, hfile, Except.toOption]

theorem outcome_load_of_no_failures (h : failures host o = []) (registry : Registry) :
    (load host o registry).outcome =
      .ok ((directoryFiles host o).length + (patternFiles host o).length + o.mixins.length) := by
  rw [load_of_no_failures h]
  simp only [List.length_append, Except.ok.injEq]
  rw [length_filterMap_mixinIn fun f => exists_file_of_no_failures h, List.length_append]

theorem find?_load_of_no_failures (h : failures host o = []) (registry : Registry) (name : String) :
    (load host o registry).registry.find? name =
      (((Entries.last? o.mixins name).or (lastIn? host (patternFiles host o) name)).or
        (lastIn? host (directoryFiles host o) name)).or (registry.find? name) := by
  have hall : ∀ f ∈ directoryFiles host o ++ patternFiles host o, ∃ found, file host f = .ok found :=
    fun f => exists_file_of_no_failures h
  have hlast :
      Entries.last? ((directoryFiles host o ++ patternFiles host o).filterMap (mixinIn? host) ++ o.mixins) name =
      ((Entries.last? o.mixins name).or (lastIn? host (patternFiles host o) name)).or
        (lastIn? host (directoryFiles host o) name) := by
    rw [Entries.last?_append, List.filterMap_append, Entries.last?_append,
      last?_filterMap_mixinIn fun f hf => hall f (List.mem_append_left _ hf),
      last?_filterMap_mixinIn fun f hf => hall f (List.mem_append_right _ hf), Option.or_assoc]
  rw [load_of_no_failures h, ← hlast]
  exact Entries.find?_foldl_put _ registry name

end Loading

namespace Pipeline

open Element
open Loading (failures directoryFiles patternFiles lastIn?)

variable {p : Pipeline} {host : Host} {t : Tree} {e : Error}

theorem prepare_of_failure {rest : List Error} (h : failures host p.options = e :: rest) (t : Tree) :
    p.prepare host t = ⟨t, .error e⟩ := by
  rw [prepare, Loading.load_of_failure h]

theorem prepare_of_no_failures (h : failures host p.options = []) (t : Tree) :
    p.prepare host t =
      let harvested := t.harvest Tree.root (Loading.load host p.options []).registry
      ⟨harvested.tree, harvested.outcome.map fun _ => harvested.registry⟩ := by
  rw [prepare, Loading.outcome_load_of_no_failures h]

/-- The registry of a style sheet exists when all of its definitions can be read, and they come first in it. -/
theorem outcome_prepare_of_no_failures (h : failures host p.options = []) (ht : t.WellFormed) :
    ((∃ registry, (p.prepare host t).outcome = .ok registry) ↔
      ∀ b ∈ atRulesAll Keyword.definition (t.forest Tree.root), b.definition?.isSome) ∧
    ∀ registry, (p.prepare host t).outcome = .ok registry → ∀ name,
      registry.find? name = (lastDefinition? name (atRulesAll Keyword.definition (t.forest Tree.root))).or
        ((Loading.load host p.options []).registry.find? name) := by
  rw [prepare_of_no_failures h]
  rcases readable_or_refused (atRulesAll Keyword.definition (t.forest Tree.root)) with
    hall | ⟨before, b, after, hsplit, hbefore, hb⟩
  · obtain ⟨hok, hfind⟩ := ht.harvest_of_readable Tree.root (Loading.load host p.options []).registry hall
    simp only [hok, Except.map, Except.ok.injEq, exists_eq', true_iff, forall_eq']
    exact ⟨hall, hfind⟩
  · have hrefused := (ht.harvest_of_refused Tree.root (Loading.load host p.options []).registry hsplit hbefore hb).1
    have hnot : ¬∀ b ∈ atRulesAll Keyword.definition (t.forest Tree.root), b.definition?.isSome := by
      intro hall
      have hsome := hall b (by simp [hsplit])
      simp [hb] at hsome
    simp [hrefused, Except.map, hnot]

/-- The first error about a directory, a pattern or a file decides, and nothing is changed. Without one, loading counts
all files and all mixins of the options, and a name means the last mixin that has it in the style sheet, else in the
options, else among the files that match the patterns, else among the files of the directories. -/
theorem prepare_by_precedence (p : Pipeline) (host : Host) :
    (∀ e rest, failures host p.options = e :: rest →
      (∀ registry, Loading.load host p.options registry = ⟨registry, .error e⟩) ∧
      ∀ t, p.prepare host t = ⟨t, .error e⟩) ∧
    (failures host p.options = [] →
      (∀ registry, (Loading.load host p.options registry).outcome = .ok ((directoryFiles host p.options).length +
        (patternFiles host p.options).length + p.options.mixins.length)) ∧
      ∀ t : Tree, t.WellFormed →
        ((∃ registry, (p.prepare host t).outcome = .ok registry) ↔
          ∀ b ∈ atRulesAll Keyword.definition (t.forest Tree.root), b.definition?.isSome) ∧
        ∀ registry, (p.prepare host t).outcome = .ok registry → ∀ name, registry.find? name =
          (((lastDefinition? name (atRulesAll Keyword.definition (t.forest Tree.root))).or
            (Entries.last? p.options.mixins name)).or
            (lastIn? host (patternFiles host p.options) name)).or
              (lastIn? host (directoryFiles host p.options) name)) := by
  refine ⟨fun e rest h => ⟨fun registry => Loading.load_of_failure h, prepare_of_failure h⟩, fun h => ?_⟩
  refine ⟨Loading.outcome_load_of_no_failures h, fun t ht => ?_⟩
  obtain ⟨hexists, hfind⟩ := outcome_prepare_of_no_failures h ht
  refine ⟨hexists, fun registry hregistry name => ?_⟩
  rw [hfind registry hregistry name, Loading.find?_load_of_no_failures h, Entries.find?, Option.or_none,
    ← Option.or_assoc, ← Option.or_assoc]

namespace Sample

open Loading

def dataFile (path stem text : String) : Found :=
  ⟨path, some stem, some "JSON", true, .ok text⟩

/-- A directory and a pattern with a data file of the same name each, beside what has to be passed over, and a directory
whose second entry cannot be read. The data files have one field. -/
def machine : Host where
  isDirectory path := path == "mixins" || path == "locked"
  entries path :=
    if path == "mixins" then
      [.ok (dataFile "mixins/box.JSON" "box" "a"), .ok ⟨"mixins/notes.txt", some "notes", some "txt", true, .ok ""⟩]
    else [.ok (dataFile "locked/pad.JSON" "pad" "e"), .error "Permission denied (os error 13)"]
  glob text :=
    if text == "[" then .error "invalid range pattern"
    else .ok [.ok ⟨"mixins", some "mixins", none, false, .ok ""⟩, .ok (dataFile "box.JSON" "box" "c")]
  json text := .ok (.record [(text, .bool true)])

def sources : Options :=
  { directories := ["mixins"], patterns := ["*"], mixins := [("pad", .record [])] }

def broken : Options :=
  { directories := ["mixins", "locked"], patterns := ["["] }

def denied : Error :=
  .unloadable "locked" "cannot read directory" (some "Permission denied (os error 13)")

theorem directoryFiles_sources : directoryFiles machine sources = [dataFile "mixins/box.JSON" "box" "a"] := by rfl

theorem patternFiles_sources : patternFiles machine sources = [dataFile "box.JSON" "box" "c"] := by rfl

theorem file_box : file machine (dataFile "box.JSON" "box" "c") = .ok ("box", [("c", .bool true)]) := by rfl

theorem failures_sources : failures machine sources = [] := by rfl

theorem failures_broken : failures machine broken =
    [denied, .unloadable "[" "invalid glob pattern" (some "invalid range pattern")] := by rfl

def document : Tree :=
  .ofElement (.mk .root none [.mk (.atRule "mixin" "pad" true) none []])

end Sample

open Sample (machine sources broken)

/-- The matching file counts before that of the directory, and the block of the style sheet before the mixin of the
options. A directory that cannot be read to its end counts before a malformed pattern. -/
theorem prepare_by_precedence_box :
    (Loading.load machine sources []).outcome = .ok 3 ∧
    (∃ registry, (prepare ⟨sources, false, 0⟩ machine Sample.document).outcome = .ok registry ∧
      registry.find? "box" = some (.record [("c", .bool true)]) ∧
      registry.find? "pad" = some (.block ⟨.mk .root none [], [], false, false⟩)) ∧
    prepare ⟨broken, false, 0⟩ machine Sample.document = ⟨Sample.document, .error Sample.denied⟩ := by
  obtain ⟨hcount, hprepared⟩ := (prepare_by_precedence ⟨sources, false, 0⟩ machine).2 Sample.failures_sources
  obtain ⟨hexists, hfind⟩ := hprepared Sample.document (Tree.wellFormed_ofElement _)
  obtain ⟨registry, hregistry⟩ := hexists.mpr (by decide)
  have hbroken := (prepare_by_precedence ⟨broken, false, 0⟩ machine).1 _ _ Sample.failures_broken
  refine ⟨?_, ⟨registry, hregistry, ?_, ?_⟩, hbroken.2 _⟩
  · rw [hcount, Sample.directoryFiles_sources, Sample.patternFiles_sources]
    rfl
  · have hbox : Loading.lastIn? machine ([] ++ [Sample.dataFile "box.JSON" "box" "c"]) "box" =
        some (.record [("c", .bool true)]) := by
      rw [Loading.lastIn?_concat Sample.file_box, if_pos rfl]
    rw [hfind registry hregistry "box", Sample.patternFiles_sources, ← List.nil_append [_], hbox]
    rfl
  · exact hfind registry hregistry "pad"

end Pipeline

end StyleMixins
