import StyleMixins.Proofs.Tree.Acyclic
import StyleMixins.Sheet.Store

namespace StyleMixins

namespace Tree

variable {t u v : Tree} {p : Nat} {f g : Forest NodeId} {kind : Kind} {source : Option Source}

theorem Linked.planted_addChild (h : t.Linked) (hp : p < t.size) (kind : Kind) (source : Option Source) :
    t.Planted p (.cons t.size kind source .nil .nil) (t.addChild p kind source).1 :=
  h.planted hp [.mk kind source []]

/-- A node without children that was planted is then filled. -/
theorem Planted.fill (h : t.Planted p (.cons t.size kind source .nil .nil) u) (hp : p < t.size)
    (k : u.Planted t.size g v) : t.Planted p (.cons t.size kind source g .nil) v := by
  obtain ⟨⟨hkind, hsource, hchildren⟩, -, -⟩ := h.shows
  have hsize := h.size_eq
  simp only [Forest.marks, List.append_nil, List.length_singleton] at hsize
  have hid : t.size < u.size := by omega
  refine ⟨k.linked, h.grows.trans k.grows, ?_, ?_, ?_, ?_, ⟨?_, ?_, ?_⟩, k.shows, trivial⟩
  · rw [k.size_eq, hsize, Forest.marks, Forest.marks, List.append_nil, List.length_cons]
    omega
  · rw [k.children p (by omega) (by omega), h.children_parent]
    rfl
  · intro y hy hyp
    rw [k.children y (by omega) (by omega), h.children y hy hyp]
  · intro y hy
    rw [k.parent? y (by omega), h.parent? y hy]
  · rw [k.grows.kind? _ hid, hkind]
  · rw [k.grows.source? _ hid, hsource]
  · rw [k.children_parent, hchildren]
    rfl

theorem Planted.append (h : t.Planted p f u) (k : u.Planted p g v) (hp : p ∉ f.marks) : t.Planted p (f ++ g) v := by
  have hle := h.grows.size_le
  have hkeep : ∀ y ∈ f.marks, v.children y = u.children y := by
    intro y hy
    apply k.children y (h.shows.lt_size hy)
    rintro rfl
    exact hp hy
  refine ⟨k.linked, h.grows.trans k.grows, ?_, ?_, ?_, ?_, shows_append.mpr ⟨h.shows.grows k.grows hkeep, k.shows⟩⟩
  · rw [k.size_eq, h.size_eq, Forest.marks_append, List.length_append, Nat.add_assoc]
  · rw [k.children_parent, h.children_parent, Forest.tops_append, List.append_assoc]
  · intro y hy hyp
    rw [k.children y (by omega) hyp, h.children y hy hyp]
  · intro y hy
    rw [k.parent? y (by omega), h.parent? y hy]

theorem Shows.unique (hu : u.Shows f) (hv : v.Shows f) :
    ∀ y ∈ f.marks, u.kind? y = v.kind? y ∧ u.source? y = v.source? y ∧ u.children y = v.children y := by
  induction f with
  | nil => simp [Forest.marks]
  | cons id k s below rest hb hr =>
    obtain ⟨⟨huk, hus, huc⟩, hub, hur⟩ := hu
    obtain ⟨⟨hvk, hvs, hvc⟩, hvb, hvr⟩ := hv
    simp only [Forest.marks, List.mem_cons, List.mem_append]
    rintro y (rfl | hy | hy)
    · exact ⟨huk.trans hvk.symm, hus.trans hvs.symm, huc.trans hvc.symm⟩
    · exact hb hub hvb y hy
    · exact hr hur hvr y hy

/-- It is known of every node what it is and how it is linked, so there is one such store only. -/
theorem Planted.unique {α : Type} {g : Forest α} (hu : t.Planted p (g.number t.size) u)
    (hv : t.Planted p (g.number t.size) v) : u = v := by
  have hsize := hu.size_eq
  have hsame : ∀ y : Nat, u.kind? y = v.kind? y ∧ u.source? y = v.source? y ∧ u.children y = v.children y := by
    intro y
    by_cases hold : y < t.size
    · refine ⟨by rw [hu.grows.kind? y hold, hv.grows.kind? y hold],
        by rw [hu.grows.source? y hold, hv.grows.source? y hold], ?_⟩
      by_cases hyp : y = p
      · rw [hyp, hu.children_parent, hv.children_parent]
      · rw [hu.children y hold hyp, hv.children y hold hyp]
    · by_cases hnew : y < u.size
      · apply hu.shows.unique hv.shows
        rw [length_marks_number] at hsize
        rw [Forest.marks_number, List.mem_range'_1]
        omega
      · have hnone : u.node? y = none := node?_eq_none (by omega)
        have hvsize := hv.size_eq
        have hvnone : v.node? y = none := node?_eq_none (by omega)
        simp [kind?, source?, Tree.children, hnone, hvnone]
  have hparent : ∀ y, u.parent? y = v.parent? y := by
    intro y
    apply Option.ext
    intro q
    rw [← hu.linked.mem_children, ← hv.linked.mem_children, (hsame q).2.2]
  exact ext_node? fun y => node?_congr (hsame y).1 (hsame y).2.1 (hparent y) (hsame y).2.2

theorem addStatements_cons (t : Tree) (p : NodeId) (kind : Kind) (source : Option Source) (block rest : List Element) :
    t.addStatements p (.mk kind source block :: rest) =
      ((t.addChild p kind source).1.addStatements t.size block).addStatements p rest := rfl

/-- A node that is linked first, then what goes below it, then what goes behind it. -/
theorem Planted.cons {α : Type} {a : α} {below rest : Forest α} {w : Tree}
    (hnode : t.Planted p (.cons t.size kind source .nil .nil) u) (hp : p < t.size)
    (hbelow : u.Planted t.size (below.number u.size) v) (hrest : v.Planted p (rest.number v.size) w) :
    t.Planted p ((Forest.cons a kind source below rest).number t.size) w := by
  have hsize := hnode.size_eq
  simp only [Forest.marks, List.append_nil, List.length_singleton] at hsize
  rw [hsize] at hbelow
  have hfilled := hnode.fill hp hbelow
  have hafter := hfilled.size_eq
  simp only [Forest.marks, List.append_nil, List.length_cons, length_marks_number] at hafter
  have hnumber : t.size + (below.marks.length + 1) = t.size + 1 + below.marks.length := by omega
  rw [hafter, hnumber] at hrest
  apply hfilled.append hrest
  intro hm
  simp only [Forest.marks, List.append_nil, List.mem_cons] at hm
  rcases hm with rfl | hm
  · omega
  · have := (mem_marks_number hm).1
    omega

theorem Linked.planted_addStatements (h : t.Linked) (hp : p < t.size) (es : List Element) :
    t.Planted p ((Forest.ofElements () es).number t.size) (t.addStatements p es) := by
  induction es using Element.forest_induction generalizing t p with
  | nil => exact h.planted hp []
  | cons kind source block rest hblock hrest =>
    have hnode := h.planted_addChild hp kind source
    have hsize := hnode.size_eq
    simp only [Forest.marks, List.append_nil, List.length_singleton] at hsize
    have hbelow := hblock hnode.linked (show t.size < Tree.size _ by omega)
    have hle := hbelow.grows.size_le
    have hbehind := hrest hbelow.linked (show p < Tree.size _ by omega)
    rw [addStatements_cons, Forest.ofElements_cons]
    exact hnode.cons hp hbelow hbehind

end Tree

namespace Sheet

open StyleMixins.Tree

/-- Statement by statement the same store comes about as from the whole style sheet at once. -/
theorem store_eq_ofElement (sheet : Element) : store sheet = ofElement sheet := by
  obtain ⟨kind, source, es⟩ := sheet
  have hroot := linked_nil.create kind source
  have hlt : (⟨#[]⟩ : Tree).size < ((⟨#[]⟩ : Tree).create kind source).1.size := by simp
  exact (hroot.planted_addStatements hlt es).unique (hroot.planted hlt es)

theorem parseTree_eq_ok_iff {file : SourceText} {t : Tree} :
    parseTree file = .ok t ↔ ∃ sheet, parse file = .ok sheet ∧ ofElement sheet = t := by
  rw [parseTree]
  cases parse file with
  | error e => simp [Except.map]
  | ok sheet => simp [Except.map, store_eq_ofElement]

end Sheet

end StyleMixins
