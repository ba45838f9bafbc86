import StyleMixins.Proofs.Tree.Graft
import Mathlib.Data.Finset.Card
import Mathlib.Logic.Relation
import Mathlib.Order.WellFounded

namespace StyleMixins.Tree

open Relation

variable {t : Tree} {x y : Nat}

/-- `x` lies on the way up from `y`. -/
def Above (t : Tree) (x y : NodeId) : Prop :=
  TransGen (fun p c => t.parent? c = some p) x y

theorem WellFormed.not_above_self (h : t.WellFormed) (x : NodeId) : ¬t.Above x x :=
  fun hx => h.ends.transGen.asymmetric x x hx hx

theorem Above.lt_size (h : t.Above x y) : y < t.size := by
  cases h with
  | single hp => exact lt_size_of_parent? hp
  | tail _ hp => exact lt_size_of_parent? hp

open Classical in
noncomputable def countBelow (t : Tree) (x : NodeId) : Nat :=
  ((Finset.range t.size).filter (t.Above x)).card

theorem WellFormed.countBelow_lt (h : t.WellFormed) (hp : t.parent? y = some x) :
    t.countBelow y < t.countBelow x := by
  have hxy : t.Above x y := .single hp
  classical
  refine Finset.card_lt_card (Finset.ssubset_iff_subset_ne.mpr ⟨?_, ?_⟩)
  · intro z hz
    rw [Finset.mem_filter] at hz ⊢
    exact ⟨hz.1, hxy.trans hz.2⟩
  · intro he
    have hm : y ∈ (Finset.range t.size).filter (t.Above x) :=
      Finset.mem_filter.mpr ⟨Finset.mem_range.mpr hxy.lt_size, hxy⟩
    rw [← he] at hm
    exact h.not_above_self y (Finset.mem_filter.mp hm).2

/-- The forests below some nodes make up a forest with these nodes as roots. -/
theorem exists_shows {ids : List NodeId} (hids : ∀ c ∈ ids, c < t.size)
    (hf : ∀ c ∈ ids, ∃ f, t.children c = f.tops ∧ t.Shows f ∧ ∀ z ∈ f.marks, t.Above c z) :
    ∃ g, ids = g.tops ∧ t.Shows g ∧ ∀ z ∈ g.marks, ∃ c ∈ ids, z = c ∨ t.Above c z := by
  induction ids with
  | nil => exact ⟨.nil, rfl, trivial, by simp [Forest.marks]⟩
  | cons c ids ih =>
    obtain ⟨f, hc, hs, ha⟩ := hf c (by simp)
    obtain ⟨g, hg, hsg, hag⟩ := ih (fun z hz => hids z (by simp [hz])) (fun z hz => hf z (by simp [hz]))
    obtain ⟨n, hn⟩ := lt_size_iff.mp (hids c (by simp))
    refine ⟨.cons c n.kind n.source f g, by rw [Forest.tops, ← hg], ?_, ?_⟩
    · exact ⟨⟨by simp [kind?, hn], by simp [source?, hn], hc⟩, hs, hsg⟩
    · intro z hz
      simp only [Forest.marks, List.mem_cons, List.mem_append] at hz
      rcases hz with rfl | hz | hz
      · exact ⟨z, by simp, Or.inl rfl⟩
      · exact ⟨c, by simp, Or.inr (ha z hz)⟩
      · obtain ⟨d, hd, he⟩ := hag z hz
        exact ⟨d, by simp [hd], he⟩

theorem WellFormed.exists_shows_below (h : t.WellFormed) (x : NodeId) :
    ∃ f, t.children x = f.tops ∧ t.Shows f ∧ ∀ z ∈ f.marks, t.Above x z := by
  -- Induction on the number of nodes below: a child has fewer of them than its parent.
  induction hn : t.countBelow x using Nat.strong_induction_on generalizing x with
  | _ n ih =>
    have hlink : ∀ c ∈ t.children x, t.parent? c = some x := fun c hc => (h.mem_children x c).mp hc
    obtain ⟨g, hg, hs, ha⟩ := exists_shows (fun c hc => h.child_lt hc)
      fun c hc => ih _ (hn ▸ h.countBelow_lt (hlink c hc)) c rfl
    refine ⟨g, hg, hs, fun z hz => ?_⟩
    obtain ⟨c, hc, rfl | hz⟩ := ha z hz
    · exact .single (hlink z hc)
    · exact .head (hlink c hc) hz

theorem WellFormed.exists_hangs (h : t.WellFormed) (x : NodeId) : ∃ f, t.Hangs x f := by
  obtain ⟨f, hc, hs, ha⟩ := h.exists_shows_below x
  exact ⟨f, hc, hs, fun hm => h.not_above_self x (ha x hm)⟩

/-- The way up from a shown node ends if that from the roots does. -/
theorem Shows.acc {f : Forest NodeId} (h : t.Shows f) (hl : t.Linked)
    (htop : ∀ y ∈ f.tops, Acc (fun p c => t.parent? c = some p) y) :
    ∀ y ∈ f.marks, Acc (fun p c => t.parent? c = some p) y := by
  induction f with
  | nil => simp [Forest.marks]
  | cons id k s below rest hb hr =>
    obtain ⟨⟨_, _, hc⟩, h4, h5⟩ := h
    simp only [Forest.tops, Forest.marks, List.mem_cons, List.mem_append] at htop ⊢
    have hid := htop id (Or.inl rfl)
    rintro y (rfl | hy | hy)
    · exact hid
    · refine hb h4 (fun z hz => Acc.intro z fun p hp => ?_) y hy
      have hpar : t.parent? z = some id := (hl.mem_children id z).mp (hc ▸ hz)
      exact Option.some.inj (hpar.symm.trans hp) ▸ hid
    · exact hr h5 (fun z hz => htop z (Or.inr hz)) y hy

theorem WellFormed.graft (h : t.WellFormed) (e : Element) : (t.graft e).1.WellFormed := by
  obtain ⟨kind, source, es⟩ := e
  obtain ⟨u, f, hu, _, hg⟩ := h.toLinked.graft kind source es
  rw [hu]
  have hold : ∀ y, y < t.size → Acc (fun p c => u.parent? c = some p) y := by
    intro y
    induction y using h.ends.induction with
    | _ y ih =>
      refine fun hy => Acc.intro y fun p hp => ?_
      rw [hg.parent? y hy] at hp
      exact ih p hp (h.parent_lt hp)
  have htop : Acc (fun p c => u.parent? c = some p) t.size :=
    Acc.intro _ fun p hp => by simp [hg.parent?_top] at hp
  refine ⟨hg.linked, ⟨fun y => ?_⟩⟩
  rcases Nat.lt_trichotomy y t.size with hy | rfl | hy
  · exact hold y hy
  · exact htop
  · by_cases hu : y < u.size
    · refine hg.shows.acc hg.linked ?_ y (by simp [Forest.marks, hg.cover y hu hy])
      simpa [Forest.tops] using htop
    · exact Acc.intro y fun p hp => absurd (lt_size_of_parent? hp) hu

theorem linked_nil : (⟨#[]⟩ : Tree).Linked := by
  constructor
  · intro p c
    simp [parent?_eq_none (t := ⟨#[]⟩) (Nat.zero_le c), children_eq_nil (t := ⟨#[]⟩) (Nat.zero_le p)]
  · intro p
    simp [children_eq_nil (t := ⟨#[]⟩) (Nat.zero_le p)]

theorem wellFormed_ofElement (e : Element) : (ofElement e).WellFormed := by
  refine WellFormed.graft ⟨linked_nil, ⟨fun y => ?_⟩⟩ e
  exact Acc.intro y fun p hp => by simp [parent?_eq_none (t := ⟨#[]⟩) (Nat.zero_le y)] at hp

end StyleMixins.Tree
