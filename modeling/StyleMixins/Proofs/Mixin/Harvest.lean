import StyleMixins.Proofs.Forest.Fill
import StyleMixins.Proofs.Mixin.Blocks
import StyleMixins.Proofs.Tree.Moves
import StyleMixins.Proofs.Tree.Upkeep

namespace StyleMixins.Tree

variable {t u : Tree} {x b : Nat} {f g : Forest NodeId} {k : Kind} {name : String}

open Element

theorem kind?_foldl_detach (t : Tree) (ids : List NodeId) (y : NodeId) :
    (ids.foldl detach t).kind? y = t.kind? y := by
  induction ids generalizing t with
  | nil => rfl
  | cons id ids ih => rw [List.foldl_cons, ih, kind?_detach]

theorem source?_foldl_detach (t : Tree) (ids : List NodeId) (y : NodeId) :
    (ids.foldl detach t).source? y = t.source? y := by
  induction ids generalizing t with
  | nil => rfl
  | cons id ids ih => rw [List.foldl_cons, ih, source?_detach]

theorem Hangs.foldl_detach (h : t.Hangs x g) (hl : t.Linked) (ids : List NodeId) :
    (ids.foldl Tree.detach t).Hangs x (g.fillAt ids .nil fun y => y) := by
  induction ids generalizing t g with
  | nil =>
    rw [Forest.fillAt_of_disjoint (by simp), Forest.map_id]
    exact h
  | cons id ids ih =>
    have hg : (g.replace id .nil).fillAt ids .nil (fun y => y) = g.fillAt (id :: ids) .nil fun y => y :=
      Forest.fillAt_replace g rfl (by simp [Forest.marks])
    rw [List.foldl_cons, ← hg]
    exact ih (h.detach hl id) (hl.detach id)

theorem Shows.elements_fillAt_nil (h : t.Shows g) {ids : List NodeId}
    (hids : ∀ y ∈ g.marks, y ∈ ids ↔ t.isAtRule y name = true) :
    (g.fillAt ids .nil fun y => y).elements = without name g.elements := by
  induction g with
  | nil => rfl
  | cons id k s below rest hb hr =>
    obtain ⟨⟨hk, _, _⟩, h4, h5⟩ := h
    simp only [Forest.marks, List.mem_cons, List.mem_append] at hids
    have hb := hb h4 fun y hy => hids y (Or.inr (Or.inl hy))
    have hr := hr h5 fun y hy => hids y (Or.inr (Or.inr hy))
    have hid : id ∈ ids ↔ k.isAtRule name = true := by rw [hids id (Or.inl rfl), isAtRule_of_kind? hk]
    by_cases hn : k.isAtRule name
    · simp [Forest.fillAt, Forest.elements, without_cons, hid.mpr hn, hn, hr]
    · simp [Forest.fillAt, Forest.elements, without_cons, mt hid.mp hn, hn, hb, hr]

/-- The at-rules that hang below a node are those of the elements there. -/
theorem Shows.map_element? (h : t.Shows g) (hlen : g.marks.length ≤ t.size) (name : String) :
    (g.atRules name).map t.element? = (atRulesAll name g.elements).map some := by
  induction g with
  | nil => rfl
  | cons id k s below rest hb hr =>
    simp only [Forest.marks, List.length_cons, List.length_append] at hlen
    have hid := h.element?_eq (by omega)
    rw [Forest.atRules, Forest.elements, atRulesAll_cons]
    by_cases hn : k.isAtRule name <;> simp [hn, hid, hb h.2.1 (by omega), hr h.2.2 (by omega)]

theorem Hangs.map_element? (h : t.Hangs x g) (hl : t.Linked) (name : String) :
    (t.atRules x name).map t.element? = (atRulesAll name (t.forest x)).map some := by
  rw [h.atRules hl, h.forest_eq hl]
  exact h.shows.map_element? (h.length_le hl) name

theorem params_of_kind? (h : t.kind? x = some k) : t.params x = k.params := by
  rw [params, params?, h]
  cases k <;> rfl

/-- A block whose inner definitions are gone defines what it says with them left out. -/
theorem Hangs.definition_eq (h : u.Hangs b g) (hl : u.Linked) (hk : u.kind? b = some k) {es : List Element}
    (he : g.elements = without Keyword.definition es) :
    u.definition b = (Element.mk k (u.source? b) es).definition := by
  have hforest : u.forest b = without Keyword.definition es := (h.forest_eq hl).trans he
  have haccepts : (u.firstAtRule b Keyword.placeholder).isSome =
      !(atRulesAll Keyword.placeholder (without Keyword.definition es)).isEmpty := by
    have hlen := congrArg List.length (h.map_element? hl Keyword.placeholder)
    rw [List.length_map, List.length_map, hforest] at hlen
    rw [firstAtRule_eq_head?, Bool.eq_iff_iff]
    simp [← List.length_pos_iff, hlen]
  rw [Tree.definition, params_of_kind? hk]
  cases hread : Call.Invocation.read k.params with
  | none => simp [Element.definition, definition?, refusal, Element.kind, Element.source, hread]
  | some head =>
    simp [Element.definition, definition?, Element.kind, Element.source, Element.children, hread, haccepts, fragment,
      hforest]

/-- With all definitions detached, a block defines what the element read off before says. -/
theorem WellFormed.definition_of_mem (h : t.WellFormed) (hb : b ∈ t.atRules x Keyword.definition) :
    ∃ e, t.element? b = some e ∧
      ((t.atRules x Keyword.definition).foldl Tree.detach t).definition b = e.definition := by
  obtain ⟨f, hf⟩ := h.exists_hangs x
  obtain ⟨g, hg⟩ := h.exists_hangs b
  have hxb : t.Above x b := (hf.mem_marks_iff h).mp ((hf.mem_atRules h.toLinked).mp hb).1
  -- What is below the block is below `x` too, so its inner definitions are among those detached.
  have hinner : ∀ y ∈ g.marks, y ∈ t.atRules x Keyword.definition ↔ t.isAtRule y Keyword.definition = true := by
    intro y hy
    rw [hf.mem_atRules h.toLinked, hf.mem_marks_iff h]
    exact and_iff_right (hxb.trans ((hg.mem_marks_iff h).mp hy))
  obtain ⟨n, hn⟩ := lt_size_iff.mp hxb.lt_size
  have hk : t.kind? b = some n.kind := by simp [kind?, hn]
  refine ⟨_, h.element?_eq hk, ?_⟩
  rw [(hg.foldl_detach h.toLinked _).definition_eq (h.foldl_detach _).toLinked ((kind?_foldl_detach ..).trans hk)
    (hg.shows.elements_fillAt_nil hinner), source?_foldl_detach, hg.forest_eq h.toLinked]

theorem WellFormed.map_definition (h : t.WellFormed) (x : NodeId) :
    (t.atRules x Keyword.definition).map ((t.atRules x Keyword.definition).foldl Tree.detach t).definition =
      (atRulesAll Keyword.definition (t.forest x)).map Element.definition := by
  obtain ⟨f, hf⟩ := h.exists_hangs x
  have hmap := congrArg (List.map (Option.map Element.definition)) (hf.map_element? h.toLinked Keyword.definition)
  refine List.map_injective_iff.mpr (Option.some_injective _) ?_
  simp only [List.map_map] at hmap ⊢
  refine Eq.trans (List.map_congr_left fun b hb => ?_) hmap
  obtain ⟨e, he, hdefinition⟩ := h.definition_of_mem hb
  rw [Function.comp_apply, Function.comp_apply, he, hdefinition, Option.map_some]

/-- Blocks that can be read are registered in turn. -/
theorem defineAll_of_map_eq (registry : Registry) {ids : List NodeId} {found : List (String × Definition)}
    {more : List (Except Error (String × Definition))} (h : ids.map u.definition = found.map .ok ++ more) :
    ∃ rest, rest.map u.definition = more ∧
      u.defineAll registry ids =
        u.defineAll (found.foldl (fun table pair => table.put pair.1 pair.2) registry) rest := by
  induction found generalizing ids registry with
  | nil => exact ⟨ids, h, rfl⟩
  | cons pair found ih =>
    cases ids with
    | nil => simp at h
    | cons id ids =>
      simp only [List.map_cons, List.cons_append, List.cons.injEq] at h
      obtain ⟨rest, hrest, he⟩ := ih (registry.put pair.1 pair.2) h.2
      exact ⟨rest, hrest, by rw [defineAll, h.1]; exact he⟩

theorem tree_harvest (t : Tree) (x : NodeId) (registry : Registry) :
    (t.harvest x registry).tree = (t.atRules x Keyword.definition).foldl detach t := by
  rw [Tree.harvest]
  split <;> rfl

theorem WellFormed.harvest (h : t.WellFormed) (x : NodeId) (registry : Registry) :
    (t.harvest x registry).tree.WellFormed := by
  rw [tree_harvest]
  exact h.foldl_detach _

theorem WellFormed.forest_harvest (h : t.WellFormed) (x : NodeId) (registry : Registry) :
    (t.harvest x registry).tree.forest x = without Keyword.definition (t.forest x) := by
  obtain ⟨f, hf⟩ := h.exists_hangs x
  rw [tree_harvest, (hf.foldl_detach h.toLinked _).forest_eq (h.foldl_detach _).toLinked, hf.forest_eq h.toLinked]
  exact hf.shows.elements_fillAt_nil fun y hy => (hf.mem_atRules h.toLinked).trans (and_iff_right hy)

theorem WellFormed.harvest_of_readable (h : t.WellFormed) (x : NodeId) (registry : Registry)
    (hall : ∀ b ∈ atRulesAll Keyword.definition (t.forest x), b.definition?.isSome) :
    (t.harvest x registry).outcome = .ok (atRulesAll Keyword.definition (t.forest x)).length ∧
    ∀ name, (t.harvest x registry).registry.find? name =
      (lastDefinition? name (atRulesAll Keyword.definition (t.forest x))).or (registry.find? name) := by
  obtain ⟨f, hf⟩ := h.exists_hangs x
  have hlen := congrArg List.length (hf.map_element? h.toLinked Keyword.definition)
  rw [List.length_map, List.length_map] at hlen
  have hmap := h.map_definition x
  rw [map_definition_of_isSome hall] at hmap
  obtain ⟨rest, hrest, he⟩ := defineAll_of_map_eq registry (hmap.trans (List.append_nil _).symm)
  rw [List.map_eq_nil_iff.mp hrest, defineAll] at he
  simp only [Tree.harvest, he, hlen, true_and]
  exact Entries.find?_foldl_put _ registry

theorem WellFormed.harvest_of_refused (h : t.WellFormed) (x : NodeId) (registry : Registry)
    {before after : List Element} {b : Element}
    (hsplit : atRulesAll Keyword.definition (t.forest x) = before ++ b :: after)
    (hbefore : ∀ d ∈ before, d.definition?.isSome) (hb : b.definition? = none) :
    (t.harvest x registry).outcome = .error b.refusal ∧
    ∀ name, (t.harvest x registry).registry.find? name = (lastDefinition? name before).or (registry.find? name) := by
  have hmap := h.map_definition x
  rw [hsplit, List.map_append, map_definition_of_isSome hbefore, List.map_cons] at hmap
  obtain ⟨rest, hrest, he⟩ := defineAll_of_map_eq registry hmap
  obtain ⟨id, rest, rfl, hid, -⟩ := List.map_eq_cons_iff.mp hrest
  rw [defineAll, hid, Element.definition, hb, Option.elim] at he
  simp only [Tree.harvest, he, true_and]
  exact Entries.find?_foldl_put _ registry

/-- A harvest leaves the forest without its definitions. When all of them can be read it counts them and each name
means the last block that has it; otherwise the first one that cannot be read is named in the error, and those
before it are registered. -/
theorem harvest_takes_definitions (h : t.WellFormed) (x : NodeId) (registry : Registry) :
    (t.harvest x registry).tree.forest x = without Keyword.definition (t.forest x) ∧
    (t.harvest x registry).tree.atRules x Keyword.definition = [] ∧
    ((∀ b ∈ atRulesAll Keyword.definition (t.forest x), b.definition?.isSome) →
      (t.harvest x registry).outcome = .ok (atRulesAll Keyword.definition (t.forest x)).length ∧
      ∀ name, (t.harvest x registry).registry.find? name =
        (lastDefinition? name (atRulesAll Keyword.definition (t.forest x))).or (registry.find? name)) ∧
    ∀ before b after, atRulesAll Keyword.definition (t.forest x) = before ++ b :: after →
      (∀ d ∈ before, d.definition?.isSome) → b.definition? = none →
      (t.harvest x registry).outcome = .error b.refusal ∧
      ∀ name, (t.harvest x registry).registry.find? name =
        (lastDefinition? name before).or (registry.find? name) := by
  refine ⟨h.forest_harvest x registry, ?_, h.harvest_of_readable x registry,
    fun before b after hsplit hbefore hb => h.harvest_of_refused x registry hsplit hbefore hb⟩
  have hbare := h.harvest x registry
  obtain ⟨f, hf⟩ := hbare.exists_hangs x
  have hnone := hf.map_element? hbare.toLinked Keyword.definition
  rw [h.forest_harvest, atRulesAll_without] at hnone
  exact List.map_eq_nil_iff.mp hnone

/-- Three blocks, the second inside the first; the text of the last one is given. -/
def Sample.blocks (text : String) : Tree :=
  .ofElement (.mk .root none
    [.mk (.rule ".a") none
      [.mk (.atRule "mixin" "outer" true) none
        [.mk (.atRule "mixin" "inner" true) none [.mk (.atRule "content" "" false) none []],
          .mk (.declaration "color" "red") none []]],
      .mk (.atRule "mixin" text true) none []])

theorem harvest_takes_definitions_nested :
    ((Sample.blocks "inner").harvest 0 []).outcome = .ok 3 ∧
    ((Sample.blocks "inner").harvest 0 []).registry.find? "outer" =
      some (.block ⟨.mk .root none [.mk (.declaration "color" "red") none []], [], false, false⟩) ∧
    ((Sample.blocks "inner").harvest 0 []).registry.find? "inner" =
      some (.block ⟨.mk .root none [], [], false, false⟩) ∧
    ((Sample.blocks "inner(").harvest 0 []).outcome = .error (.malformedList "@mixin inner(" none) ∧
    ((Sample.blocks "inner(").harvest 0 []).registry.find? "inner" =
      some (.block ⟨.mk .root none [.mk (.atRule "content" "" false) none []], [], false, true⟩) := by
  obtain ⟨-, -, hall, -⟩ := harvest_takes_definitions (t := Sample.blocks "inner") (wellFormed_ofElement _) 0 []
  obtain ⟨-, -, -, hfirst⟩ := harvest_takes_definitions (t := Sample.blocks "inner(") (wellFormed_ofElement _) 0 []
  have hread := hall (by decide +kernel)
  have hrefused := hfirst ((atRulesAll "mixin" ((Sample.blocks "inner(").forest 0)).take 2)
    (.mk (.atRule "mixin" "inner(" true) none []) [] rfl (by decide +kernel) rfl
  exact ⟨hread.1, hread.2 "outer", hread.2 "inner", hrefused.1, hrefused.2 "inner"⟩

end StyleMixins.Tree
