import StyleMixins.Expansion.Run
import StyleMixins.Proofs.Tree.Copying
import StyleMixins.Proofs.Tree.Upkeep

namespace StyleMixins

/-- Numbers depend on the trees alone. -/
theorem Forest.number_ofElements {α : Type} (f : Forest α) (n : Nat) :
    (Forest.ofElements () f.elements).number n = f.number n := by
  induction f generalizing n with
  | nil => rfl
  | cons a k s below rest hb hr =>
    have hlen : (Forest.ofElements () below.elements).marks.length = below.marks.length := by
      rw [← Tree.length_marks_number (n + 1), hb, Tree.length_marks_number]
    rw [elements, ofElements_cons, number, number, hlen, hb, hr]

namespace Tree

variable {t src u : Tree} {id x y : Nat} {f : Forest NodeId} {kind : Kind} {source : Option Source}

/-- A forest that is put under a new root gets the numbers behind it. -/
theorem Linked.grafted {α : Type} (h : t.Linked) (kind : Kind) (source : Option Source) (f : Forest α) :
    t.Grafted kind source (f.number (t.size + 1)) (t.graft (.mk kind source f.elements)).1 := by
  have hp := (h.create kind source).planted (show t.size < (t.create kind source).1.size by simp) f.elements
  rw [size_create] at hp
  rw [← f.number_ofElements]
  exact hp.grafted

theorem Linked.numbers_graft {α : Type} (h : t.Linked) (kind : Kind) (source : Option Source) (f : Forest α)
    (hu : u = (t.graft (.mk kind source f.elements)).1) :
    t.size :: u.descendants t.size = List.range' t.size (f.marks.length + 1) ∧
      u.size = t.size + (f.marks.length + 1) := by
  have hg := h.grafted kind source f
  rw [← hu] at hg
  have hsize := hg.size_eq
  rw [length_marks_number] at hsize
  rw [hg.hangs.descendants hg.linked, Forest.marks_number, List.range'_succ]
  exact ⟨rfl, by omega⟩

theorem Hangs.number_eq {g : Forest NodeId} (hf : t.Hangs x f) (hg : t.Hangs x g) (hl : t.Linked) (n : Nat) :
    g.number n = f.number n := by
  have he : g.elements = f.elements := by rw [← hg.forest_eq hl, hf.forest_eq hl]
  rw [← g.number_ofElements, he, f.number_ofElements]

theorem Grafted.node? (h : t.Grafted kind source f u) (hy : y < t.size) : u.node? y = t.node? y :=
  node?_congr (h.grows.kind? y hy) (h.grows.source? y hy) (h.parent? y hy) (h.children y hy)

/-- `u` holds the nodes of `t` as they were and behind them, numbered in document order, a copy of what hangs from a
node of `src`; the copy hangs from nothing. -/
structure CopyOf (src : Tree) (id : NodeId) (t u : Tree) : Prop where
  wellFormed : u.WellFormed
  node? : ∀ y < t.size, u.node? y = t.node? y
  parent? : u.parent? t.size = none
  kind? : u.kind? t.size = src.kind? id
  source? : u.source? t.size = src.source? id
  hangs : ∀ f, src.Hangs id f → u.Hangs t.size (f.number (t.size + 1))
  element? : u.element? t.size = src.element? id
  numbers : t.size :: u.descendants t.size = List.range' t.size ((src.descendants id).length + 1)
  size_eq : u.size = t.size + ((src.descendants id).length + 1)

theorem WellFormed.copied_graft (ht : t.WellFormed) (hsrc : src.WellFormed) (hk : src.kind? id = some kind) :
    CopyOf src id t (t.graft (.mk kind (src.source? id) (src.forest id))).1 := by
  obtain ⟨f, hf⟩ := hsrc.exists_hangs id
  have hforest := hf.forest_eq hsrc.toLinked
  have hwf := ht.graft (.mk kind (src.source? id) (src.forest id))
  rw [hforest] at hwf ⊢
  have hg := ht.toLinked.grafted kind (src.source? id) f
  have hkind := hg.shows.1.1
  have hsource := hg.shows.1.2.1
  obtain ⟨hnumbers, hsize⟩ := ht.toLinked.numbers_graft kind (src.source? id) f rfl
  rw [← hf.descendants hsrc.toLinked] at hnumbers hsize
  refine ⟨hwf, fun y hy => hg.node? hy, hg.parent?_top, hkind.trans hk.symm, hsource, ?_, ?_, hnumbers, hsize⟩
  · -- Any forest that hangs from the node has the trees of `f`.
    intro g hgs
    rw [hf.number_eq hgs hsrc.toLinked]
    exact hg.hangs
  · rw [hwf.element?_eq hkind, hsource, hg.hangs.forest_eq hg.linked, Forest.elements_number, hsrc.element?_eq hk,
      hforest]

/-- A node is shown with what hangs from it, and the store is larger than that. -/
theorem WellFormed.exists_shows_node (h : t.WellFormed) (hid : id < t.size) :
    ∃ k f, t.kind? id = some k ∧ t.Hangs id f ∧ t.Shows (.cons id k (t.source? id) f .nil) ∧
      f.marks.length < t.size := by
  obtain ⟨f, hf⟩ := h.exists_hangs id
  obtain ⟨n, hn⟩ := lt_size_iff.mp hid
  have hk : t.kind? id = some n.kind := by simp [kind?, hn]
  have hs : t.Shows (.cons id n.kind (t.source? id) f .nil) := ⟨⟨hk, rfl, hf.children_eq⟩, hf.shows, trivial⟩
  refine ⟨n.kind, f, hk, hf, hs, ?_⟩
  have hlen := hs.length_le (by simpa [Forest.marks, hf.not_mem] using hf.nodup h.toLinked)
  simpa [Forest.marks, Nat.succ_le_iff] using hlen

theorem WellFormed.copyFrom? (ht : t.WellFormed) (hsrc : src.WellFormed) (hid : id < src.size) :
    ∃ u, t.copyFrom? src id = some (u, t.size) ∧ CopyOf src id t u := by
  obtain ⟨k, f, hk, hf, hs, hlen⟩ := hsrc.exists_shows_node hid
  refine ⟨_, ?_, ht.copied_graft hsrc hk⟩
  rw [hs.copyFrom?_eq ht.toLinked hlen, hf.forest_eq hsrc.toLinked]
  rfl

theorem WellFormed.copy? (h : t.WellFormed) (hid : id < t.size) :
    ∃ u, t.copy? id = some (u, t.size) ∧ CopyOf t id t u := by
  obtain ⟨k, f, hk, hf, hs, hlen⟩ := h.exists_shows_node hid
  refine ⟨_, ?_, h.copied_graft h hk⟩
  rw [hs.copy?_eq h.toLinked hlen, hf.forest_eq h.toLinked]
  rfl

/-- What is put into a store of its own is read off from it again. -/
theorem element?_ofElement (e : Element) : (ofElement e).element? root = some e := by
  rw [(wellFormed_ofElement e).element?_eq (kind?_ofElement e), source?_ofElement, forest_ofElement]
  cases e
  rfl

/-- To copy the whole of a style sheet from a store of its own is to add it. -/
theorem Linked.copyFrom?_ofElement (h : t.Linked) (e : Element) :
    t.copyFrom? (ofElement e) root = some (t.graft e) := by
  obtain ⟨kind, source, es⟩ := e
  obtain ⟨u, f, hu, hf, hg⟩ := linked_nil.graft kind source es
  have hlen : f.marks.length < u.size := by
    have hsize := hg.size_eq
    omega
  rw [ofElement, hu, ← hf]
  exact hg.shows.copyFrom?_eq h hlen

theorem WellFormed.extract?_eq (h : t.WellFormed) (hid : id < t.size) :
    t.extract? id = some (ofElement (t.fragment id)) := by
  obtain ⟨k, f, -, hf, hs, hlen⟩ := h.exists_shows_node hid
  obtain ⟨parent, hnode⟩ := hs.node?
  have hroot := linked_nil.create .root (t.source? id)
  have hcopy : copyEach (fun u child => u.copyFrom? t child) root ((⟨#[]⟩ : Tree).create .root (t.source? id)).1
      f.tops = some (((⟨#[]⟩ : Tree).create .root (t.source? id)).1.graftAll root f.elements) :=
    copyEach_eq (fun (_ : Tree) (_ : (⟨#[]⟩ : Tree).Extends _) _ _ => rfl) hf.shows (Nat.le_of_lt hlen) hroot
      ((Extends.refl _).create _ _) (by simp [root]) (Nat.le_refl _)
  rw [extract?, hnode, fragment, hf.forest_eq h.toLinked]
  exact hcopy

theorem WellFormed.compact_eq (h : t.WellFormed) (hkind : t.kind? root = some .root) :
    t.compact = ofElement (t.fragment root) := by
  rw [compact, h.extract?_eq (lt_size_of_kind? hkind), Option.getD_some]

/-- Numbering the nodes anew changes nothing in the printed style sheet. -/
theorem snapshot_compact (h : t.WellFormed) (hkind : t.kind? root = some .root) :
    Expansion.snapshot t.compact root = Expansion.snapshot t root := by
  rw [Expansion.snapshot, Expansion.snapshot, h.compact_eq hkind, element?_ofElement, h.element?_eq hkind, fragment]

/-- `u` holds a root with the source of a node of `src` and with what hangs from that node, numbered in document order,
and nothing else. -/
structure Extracted (src : Tree) (id : NodeId) (u : Tree) : Prop where
  wellFormed : u.WellFormed
  kind? : u.kind? root = some .root
  source? : u.source? root = src.source? id
  forest : u.forest root = src.forest id
  hangs : ∀ f, src.Hangs id f → u.Hangs root (f.number 1)
  numbers : root :: u.descendants root = List.range u.size
  size_eq : u.size = (src.descendants id).length + 1

theorem WellFormed.extracted_ofElement (h : src.WellFormed) (id : NodeId) :
    Extracted src id (ofElement (src.fragment id)) := by
  obtain ⟨f, hf⟩ := h.exists_hangs id
  have hu : ofElement (src.fragment id) =
      ((⟨#[]⟩ : Tree).graft (.mk .root (src.source? id) f.elements)).1 := by
    rw [ofElement, fragment, hf.forest_eq h.toLinked]
  obtain ⟨hnumbers, hsize⟩ := linked_nil.numbers_graft .root (src.source? id) f hu
  rw [← hf.descendants h.toLinked] at hnumbers hsize
  have hsize : (ofElement (src.fragment id)).size = (src.descendants id).length + 1 := hsize.trans (Nat.zero_add _)
  refine ⟨wellFormed_ofElement _, kind?_ofElement _, source?_ofElement _, forest_ofElement _, ?_, ?_, hsize⟩
  · intro g hgs
    rw [hf.number_eq hgs h.toLinked, hu]
    exact (linked_nil.grafted .root (src.source? id) f).hangs
  · rw [hsize, List.range_eq_range']
    exact hnumbers

/-- The store with only what hangs from the root holds the same document, in which numbers follow document order. -/
structure Compacted (t : Tree) : Prop where
  wellFormed : t.compact.WellFormed
  element? : t.compact.element? root = t.element? root
  snapshot : Expansion.snapshot t.compact root = Expansion.snapshot t root
  numbers : root :: t.compact.descendants root = List.range t.compact.size
  size_eq : t.compact.size = t.compact.length
  length : t.compact.length = t.length
  again : t.compact.compact = t.compact

theorem WellFormed.compact_compact (h : t.WellFormed) (hkind : t.kind? root = some .root) :
    t.compact.compact = t.compact := by
  have hfragment : (ofElement (t.fragment root)).fragment root = t.fragment root := by
    rw [fragment, source?_ofElement, forest_ofElement]
    rfl
  rw [h.compact_eq hkind, (wellFormed_ofElement _).compact_eq (kind?_ofElement _), hfragment]

theorem WellFormed.compacted (h : t.WellFormed) (hkind : t.kind? root = some .root) : Compacted t := by
  have hx := h.extracted_ofElement root
  rw [← h.compact_eq hkind] at hx
  have hlength : t.compact.size = t.compact.length := by
    have hnumbers := congrArg List.length hx.numbers
    rw [List.length_cons, List.length_range] at hnumbers
    exact hnumbers.symm
  refine ⟨hx.wellFormed, ?_, snapshot_compact h hkind, hx.numbers, hlength, ?_, h.compact_compact hkind⟩
  · rw [h.compact_eq hkind, element?_ofElement, h.element?_eq hkind, fragment]
  · rw [← hlength]
    exact hx.size_eq

/-- A copy is a faithful one: of a node in another store or its own, of a whole style sheet, of what hangs from a node
as a style sheet, and of all that hangs from the root. -/
theorem copies_faithful (ht : t.WellFormed) (hsrc : src.WellFormed) (hid : id < src.size) :
    (∃ u, t.copyFrom? src id = some (u, t.size) ∧ CopyOf src id t u) ∧
      (∃ u, src.copy? id = some (u, src.size) ∧ CopyOf src id src u) ∧
      (∀ e, t.copyFrom? (ofElement e) root = some (t.graft e)) ∧
      (∃ u, src.extract? id = some u ∧ Extracted src id u) ∧
      (t.kind? root = some .root → Compacted t) :=
  ⟨ht.copyFrom? hsrc hid, hsrc.copy? hid, ht.toLinked.copyFrom?_ofElement,
    ⟨_, hsrc.extract?_eq hid, hsrc.extracted_ofElement id⟩, ht.compacted⟩

/-- Out of a store in which nothing links to node 1 any more. -/
theorem copies_faithful_detached :
    let src := (ofElement (.mk .root none [.mk (.rule "a") none [.mk (.declaration "top" "0") none []],
      .mk (.atRule "media" "print" true) none [.mk (.rule "b") none []]])).detach 1
    src.WellFormed ∧ 3 < src.size ∧ src.kind? root = some .root ∧
      (∃ u, empty.copyFrom? src 3 = some (u, 1) ∧ CopyOf src 3 empty u) ∧
      (∃ u, src.copy? 3 = some (u, 5) ∧ CopyOf src 3 src u) ∧
      (∃ u, src.extract? 3 = some u ∧ Extracted src 3 u) ∧ Compacted src := by
  intro src
  have hwf : src.WellFormed := (wellFormed_ofElement _).detach 1
  have hid : 3 < src.size := by decide
  obtain ⟨hfrom, hcopy, -, hextract, -⟩ := copies_faithful (wellFormed_ofElement (.mk .root none [])) hwf hid
  obtain ⟨-, -, -, -, hcompact⟩ := copies_faithful hwf hwf hid
  exact ⟨hwf, hid, by decide, hfrom, hcopy, hextract, hcompact (by decide)⟩

end Tree

end StyleMixins
