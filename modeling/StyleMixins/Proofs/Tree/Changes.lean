import StyleMixins.Proofs.Expansion.Upkeep
import StyleMixins.Proofs.Mixin.Harvest
import StyleMixins.Proofs.Tree.Copies
import StyleMixins.Proofs.Tree.Planting
import StyleMixins.Tree.Checked

namespace StyleMixins.Tree

variable {t u : Tree}

inductive Change where
  | create (kind : Kind) (source : Option Source)
  | append (parent child : NodeId)
  | insertBefore (anchor node : NodeId)
  | detach (id : NodeId)
  | setKind (id : NodeId) (kind : Kind)
  | copy (id : NodeId)
  | copyFrom (other : Tree) (id : NodeId)
  | extract (id : NodeId)
  | compact
  | harvest (id : NodeId) (registry : Registry)
  | expand (ctx : Expansion.Context) (budget : Nat)

namespace Change

/-- The store after a change; `none` if the change needs a node that does not exist. -/
def perform? (t : Tree) : Change → Option Tree
  | create kind source => some (t.create kind source).1
  | append parent child => t.append? parent child
  | insertBefore anchor node => (t.insertBefore? anchor node).map Prod.fst
  | detach id => t.detach? id
  | setKind id kind => t.setKind? id kind
  | copy id => (t.copy? id).map Prod.fst
  | copyFrom other id => (t.copyFrom? other id).map Prod.fst
  | extract id => t.extract? id
  | compact => some t.compact
  | harvest id registry => some (t.harvest id registry).tree
  | expand ctx budget => some (Expansion.expand ctx budget t).tree

/-- The nodes exist, none is put below itself, and what is copied from elsewhere is well-formed. -/
def Allowed (t : Tree) : Change → Prop
  | append parent child => parent < t.size ∧ child < t.size ∧ parent ≠ child ∧ ¬t.Above child parent
  | insertBefore anchor node => anchor < t.size ∧ node < t.size ∧ ¬t.Above node anchor
  | detach id | setKind id _ | copy id | extract id => id < t.size
  | copyFrom other id => other.WellFormed ∧ id < other.size
  | create _ _ | compact | harvest _ _ | expand _ _ => True

end Change

/-- One store comes from another by an allowed change. -/
def Changes (t u : Tree) : Prop :=
  ∃ change : Change, change.Allowed t ∧ change.perform? t = some u

theorem WellFormed.compact (h : t.WellFormed) : t.compact.WellFormed := by
  rw [Tree.compact]
  cases hx : t.extract? root with
  | none => exact h
  | some u =>
    have hroot : root < t.size := by
      by_contra hnot
      simp [extract?, node?_eq_none (Nat.not_lt.mp hnot)] at hx
    cases hx.symm.trans (h.extract?_eq hroot)
    exact wellFormed_ofElement _

/-- Every allowed change can be made, and keeps a store well-formed. -/
theorem WellFormed.change (h : t.WellFormed) {change : Change} (hallowed : change.Allowed t) :
    ∃ u, change.perform? t = some u ∧ u.WellFormed := by
  cases change with
  | create kind source => exact ⟨_, rfl, h.create kind source⟩
  | append parent child =>
    obtain ⟨hp, hc, hne, hnot⟩ := hallowed
    refine ⟨_, ?_, h.append hp hc hne hnot⟩
    simp [Change.perform?, append?, has, hp, hc]
  | insertBefore anchor node =>
    obtain ⟨ha, hn, hnot⟩ := hallowed
    refine ⟨(t.insertBefore anchor node).1, ?_, h.insertBefore hn hnot⟩
    by_cases hne : anchor = node
    · simp [Change.perform?, insertBefore?, Tree.insertBefore, hne]
    · simp [Change.perform?, insertBefore?, has, hne, ha, hn]
  | detach id =>
    refine ⟨_, ?_, h.detach id⟩
    simp [Change.perform?, detach?, has, show id < t.size from hallowed]
  | setKind id kind =>
    refine ⟨_, ?_, h.setKind id kind⟩
    simp [Change.perform?, setKind?, has, show id < t.size from hallowed]
  | copy id =>
    obtain ⟨u, hu, hcopy⟩ := h.copy? hallowed
    exact ⟨u, by rw [Change.perform?, hu, Option.map_some], hcopy.wellFormed⟩
  | copyFrom other id =>
    obtain ⟨u, hu, hcopy⟩ := h.copyFrom? hallowed.1 hallowed.2
    exact ⟨u, by rw [Change.perform?, hu, Option.map_some], hcopy.wellFormed⟩
  | extract id => exact ⟨_, h.extract?_eq hallowed, wellFormed_ofElement _⟩
  | compact => exact ⟨_, rfl, h.compact⟩
  | harvest id registry => exact ⟨_, rfl, h.harvest id registry⟩
  | expand ctx budget => exact ⟨_, rfl, Expansion.wellFormed_expand h ctx budget⟩

/-- Stores are well-formed at first, when they are empty or hold a style sheet that was read, and after every
sequence of changes, none of which fails. In a well-formed store all links lead to nodes that exist. -/
theorem wellFormed_of_changes :
    (empty.WellFormed ∧ ∀ file t, Sheet.parseTree file = .ok t → t.WellFormed) ∧
    (∀ t : Tree, t.WellFormed → ∀ p c, c ∈ t.children p ∨ t.parent? c = some p → p < t.size ∧ c < t.size) ∧
    (∀ t : Tree, t.WellFormed → ∀ change : Change, change.Allowed t → ∃ u, change.perform? t = some u ∧ u.WellFormed) ∧
    ∀ t u : Tree, t.WellFormed → Relation.ReflTransGen Changes t u → u.WellFormed := by
  refine ⟨⟨wellFormed_ofElement _, fun file t hparse => ?_⟩, ?_, fun t h change => h.change, ?_⟩
  · obtain ⟨sheet, -, rfl⟩ := Sheet.parseTree_eq_ok_iff.mp hparse
    exact wellFormed_ofElement sheet
  · intro t h p c hlink
    rw [h.mem_children, or_self] at hlink
    exact ⟨h.parent_lt hlink, lt_size_of_parent? hlink⟩
  · intro t u h hs
    induction hs with
    | refl => exact h
    | tail _ hstep ih =>
      obtain ⟨change, hallowed, he⟩ := hstep
      obtain ⟨v, hv, hwf⟩ := ih.change hallowed
      cases hv.symm.trans he
      exact hwf

open Expansion in
theorem wellFormed_of_changes_twice :
    (∃ t, Sheet.parseTree ⟨"a.css", "a\x7btop:0\x7d"⟩ = .ok t ∧ t.WellFormed) ∧
    (∃ u, (Change.copyFrom Sample.document 1).perform? empty = some u ∧ u.WellFormed) ∧
    Relation.ReflTransGen Changes Sample.document
      (expand (Sample.context {}) 9 (Sample.document.insertBefore 1 2).1).tree.compact ∧
    (expand (Sample.context {}) 9 (Sample.document.insertBefore 1 2).1).tree.compact.WellFormed := by
  have hwf : Sample.document.WellFormed := wellFormed_ofElement _
  have hnot : ¬Sample.document.Above 2 1 := fun ha =>
    absurd (hwf.isAttached_iff.mpr (Or.inr ha)) (by decide +kernel)
  have hmove : Changes Sample.document (Sample.document.insertBefore 1 2).1 :=
    ⟨.insertBefore 1 2, ⟨by decide, by decide, hnot⟩, by decide +kernel⟩
  have hchain := ((Relation.ReflTransGen.single hmove).tail ⟨.expand (Sample.context {}) 9, trivial, rfl⟩).tail
    ⟨.compact, trivial, rfl⟩
  obtain ⟨⟨hempty, hparsed⟩, -, hchange, hchanges⟩ := wellFormed_of_changes
  refine ⟨?_, hchange empty hempty _ ⟨hwf, by decide⟩, hchain, hchanges _ _ hwf hchain⟩
  have hread : (Sheet.parseTree ⟨"a.css", "a\x7btop:0\x7d"⟩).toOption.isSome = true := by decide +kernel
  cases hparse : Sheet.parseTree ⟨"a.css", "a\x7btop:0\x7d"⟩ with
  | error e => simp [hparse, Except.toOption] at hread
  | ok t => exact ⟨t, rfl, hparsed _ t hparse⟩

end StyleMixins.Tree
