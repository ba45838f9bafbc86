import StyleMixins.Proofs.Substitution.Replacing
import StyleMixins.Proofs.Tree.Rewording
import StyleMixins.Proofs.Tree.Upkeep

namespace StyleMixins

open Substitution

namespace Tree

variable {t : Tree} {id x : NodeId}

/-- At and below a node the texts were replaced, at-rule names apart, and nothing else changed. -/
structure Substituted (t : Tree) (values : Entries String) (id : NodeId) (u : Tree) : Prop where
  size_eq : u.size = t.size
  kind? : ∀ x, x = id ∨ t.Above id x → u.kind? x = (t.kind? x).map fun
    | .root => .root
    | .rule selector => .rule (substitute values selector)
    | .atRule name params hasBlock => .atRule name (substitute values params) hasBlock
    | .declaration property value => .declaration (substitute values property) (substitute values value)
  source? : ∀ x, u.source? x = t.source? x
  parent? : ∀ x, u.parent? x = t.parent? x
  children : ∀ x, u.children x = t.children x
  outside : ∀ x, x ≠ id → ¬t.Above id x → u.node? x = t.node? x

theorem substituteBelow_eq (t : Tree) (id : NodeId) (values : Entries String) :
    t.substituteBelow id values = t.mapTextsBelow id (substitute values) := by
  rw [substituteBelow]
  split
  next hempty =>
    have hsame : substitute [] = fun text => text :=
      funext fun text => (substitute_eq [] text).trans (replaceAll_nil text)
    rw [List.isEmpty_iff.mp hempty, hsame, mapTextsBelow_id]
  next => rw [reword_eq]

theorem WellFormed.node?_mapTextsBelow (h : t.WellFormed) (id : NodeId) (f : String → String) (x : NodeId) :
    (t.mapTextsBelow id f).node? x =
      if t.isAttached x id then (t.node? x).map (Node.mapTexts f) else t.node? x := by
  obtain ⟨g, hg⟩ := h.exists_hangs id
  rw [hg.node?_mapTextsBelow h.toLinked]
  simp only [hg.isAttached_iff h.toLinked]

theorem WellFormed.substituted (h : t.WellFormed) (values : Entries String) (id : NodeId) :
    t.Substituted values id (t.substituteBelow id values) := by
  rw [substituteBelow_eq]
  have hnode := h.node?_mapTextsBelow id (substitute values)
  refine ⟨size_foldl_modify _ t _, fun x hx => ?_, fun x => ?_, fun x => ?_, fun x => ?_, fun x hid hx => ?_⟩
  · rw [Tree.kind?, Tree.kind?, hnode, if_pos (h.isAttached_iff.2 hx), Option.map_map, Option.map_map]
    refine congrArg (fun f => Option.map f (t.node? x)) (funext fun n => ?_)
    simp only [Function.comp_apply, Node.mapTexts]
    cases n.kind <;> rfl
  · rw [Tree.source?, Tree.source?, hnode]
    split <;> cases t.node? x <;> rfl
  · rw [Tree.parent?, Tree.parent?, hnode]
    split <;> cases t.node? x <;> rfl
  · rw [children_eq, children_eq, hnode]
    split <;> cases t.node? x <;> rfl
  · rw [hnode, if_neg (fun ha => (h.isAttached_iff.1 ha).elim hid hx)]

end Tree

namespace Substitution

/-- Substitution touches nothing but references with a value. Of a text it replaces some that stand in it and do not
overlap, each by its value, which is not looked at again; a text without references that have a value stays, and the
result depends on the values of the references alone. In a store it does this to every text at and below a node and
changes nothing else. -/
theorem substitute_touches_references_only (values : Entries String) :
    (∀ text, ∃ ps, Replaces values text ps (substitute values text) ∧
      ∀ b w n a, HasReference ps b w n a → Occurs b w n a ∧ Known values n) ∧
    (∀ text : String, (∀ b w n a, b ++ w ++ a = text.toList → Occurs b w n a → ¬Known values n) →
      substitute values text = text) ∧
    (∀ text, substitute [] text = text) ∧
    (∀ text : String, '$' ∉ text.toList → substitute values text = text) ∧
    (∀ (text : String) (values' : Entries String),
      (∀ b w n a, b ++ w ++ a = text.toList → Occurs b w n a →
        values.find? (String.ofList n) = values'.find? (String.ofList n)) →
      substitute values text = substitute values' text) ∧
    (∀ (t : Tree) (id : NodeId), t.WellFormed →
      t.Substituted values id (t.substituteBelow id values)) := by
  refine ⟨fun text => ?_, fun text h => ?_, fun text => ?_, fun text => substitute_of_no_dollar,
    fun text values' h => ?_, fun t id h => h.substituted values id⟩
  · refine ⟨_, (replaces_pieces values text).known, fun b w n a href => ?_⟩
    obtain ⟨href, hknown⟩ := hasReference_known.1 href
    exact ⟨occurs_of_hasReference href, hknown⟩
  · rw [substitute_eq, replaceAll_of_not_known h]
  · rw [substitute_eq, replaceAll_nil]
  · rw [substitute_eq, substitute_eq, replaceAll_congr h]

def Sample.themed : Tree :=
  .ofElement (.mk .root none
    [.mk (.rule ".$(side)") none [.mk (.atRule "media" "x$side" true) none []],
     .mk (.declaration "margin-$side" "0") none []])

theorem substitute_touches_references_only_themed :
    (∃ ps b w n a, Replaces [("side", "left")] "x-$side" ps "x-left" ∧ HasReference ps b w n a ∧
      Occurs b w n a ∧ Known [("side", "left")] n) ∧
    substitute [("side", "left")] "x$a" = "x$a" ∧ substitute [("side", "left")] "0" = "0" ∧
    substitute [("side", "left")] "x$a" = substitute [("a", "1")] "x$a" ∧
    Sample.themed.Substituted [("side", "left")] 1 (Sample.themed.substituteBelow 1 [("side", "left")]) := by
  obtain ⟨hreplaces, hunknown, -, hplain, hagree, htree⟩ := substitute_touches_references_only [("side", "left")]
  have hnone : ∀ b w n a, b ++ w ++ a = "x$a".toList → ¬Occurs b w n a := by
    intro b w n a hsplit hocc
    have hplace : ∀ tail, w = '$' :: tail → b = ['x'] ∧ tail ++ a = ['a'] := by
      rintro tail rfl
      match b, hsplit with
      | [], hsplit => simp at hsplit
      | [c], hsplit => simpa using hsplit
      | [c, d], hsplit => simp at hsplit
      | c :: d :: e :: b, hsplit => simp at hsplit
    rcases hocc with ⟨-, left, right, -, -, rfl⟩ | ⟨⟨-, rfl, -⟩, hbound⟩
    · simpa using (hplace _ rfl).2
    · obtain ⟨rfl, -⟩ := hplace _ rfl
      exact absurd (hbound 'x' rfl) (by decide)
  have hresult : substitute [("side", "left")] "x-$side" = "x-left" := by decide +kernel
  refine ⟨?_, hunknown "x$a" fun b w n a hsplit hocc => absurd hocc (hnone b w n a hsplit), hplain "0" (by decide),
    hagree "x$a" _ fun b w n a hsplit hocc => absurd hocc (hnone b w n a hsplit), htree _ 1 (Tree.wellFormed_ofElement _)⟩
  obtain ⟨ps, hps, honly⟩ := hreplaces "x-$side"
  rw [hresult] at hps
  obtain ⟨b, w, n, a, href⟩ := hps.exists_hasReference (by decide)
  exact ⟨ps, b, w, n, a, hps, href, honly b w n a href⟩

end Substitution

end StyleMixins
