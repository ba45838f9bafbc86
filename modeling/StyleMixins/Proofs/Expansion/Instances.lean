import StyleMixins.Proofs.Expansion.Upkeep
import StyleMixins.Proofs.Forest.Texts
import StyleMixins.Proofs.Mixin.Harvest

namespace StyleMixins

open Element

theorem Kind.mapTexts_id (kind : Kind) : kind.mapTexts id = kind := by
  cases kind <;> rfl

theorem Element.mapTextsAll_id (es : List Element) : mapTextsAll id es = es := by
  induction es using forest_induction with
  | nil => rfl
  | cons kind source children rest hc hr => rw [mapTextsAll_cons, Kind.mapTexts_id, hc, hr]

theorem Element.sizeAll_mapTextsAll (f : String → String) (es : List Element) :
    sizeAll (mapTextsAll f es) = sizeAll es := by
  induction es using forest_induction with
  | nil => rfl
  | cons kind source children rest hc hr => simp only [mapTextsAll_cons, sizeAll, size, hc, hr]

/-- What the arguments of a call make of the texts in the body; nothing if there are no parameters. -/
def BlockMixin.withArguments (m : BlockMixin) (arguments : List Call.Argument) : String → String :=
  if m.parameters.isEmpty then id
  else Substitution.substitute (Call.bindArguments m.parameters m.variadic arguments)

theorem BlockMixin.instantiate_eq (m : BlockMixin) (arguments : List Call.Argument) :
    m.instantiate arguments =
      .mk (m.body.kind.mapTexts (m.withArguments arguments)) m.body.source
        (mapTextsAll (m.withArguments arguments) m.body.children) := by
  obtain ⟨⟨kind, source, children⟩, parameters, variadic, acceptsContent⟩ := m
  cases parameters with
  | nil =>
    simp [instantiate, withArguments, Element.kind, Element.source, Element.children, Kind.mapTexts_id, mapTextsAll_id]
  | cons p parameters => rfl

theorem Forest.length_marks_eq_sizeAll {α : Type} (f : Forest α) : f.marks.length = sizeAll f.elements := by
  induction f with
  | nil => rfl
  | cons a k s below rest hb hr =>
    simp only [marks, elements, sizeAll, size, List.length_cons, List.length_append, hb, hr]
    omega

theorem Forest.atRules_eq_nil_iff {α : Type} {name : String} (f : Forest α) :
    f.atRules name = [] ↔ atRulesAll name f.elements = [] := by
  induction f with
  | nil => simp [atRules, elements, atRulesAll]
  | cons a k s below rest hb hr =>
    by_cases hk : k.isAtRule name <;> simp [atRules, elements, atRulesAll_cons, hk, hb, hr]

theorem Element.atRulesAll_mapTextsAll_eq_nil_iff {name : String} (f : String → String) (es : List Element) :
    atRulesAll name (mapTextsAll f es) = [] ↔ atRulesAll name es = [] := by
  have h := Forest.atRules_mapTextsAll () f name es
  rw [← Forest.elements_ofElements () (mapTextsAll f es), ← Forest.atRules_eq_nil_iff, h, Forest.atRules_eq_nil_iff,
    Forest.elements_ofElements]

inductive Origin where
  | own (id : NodeId)
  | body
  | copy
  deriving DecidableEq, Repr

namespace Tree

variable {t u v : Tree} {call p : Nat} {m : BlockMixin} {kind : Kind} {source : Option Source} {ps : List NodeId}
  {B content after : Forest NodeId}

/-- New nodes are numbered with the body first; all further ones are copies. -/
def origin (t : Tree) (m : BlockMixin) (id : NodeId) : Origin :=
  if id < t.size then .own id else if id < t.size + m.body.size then .body else .copy

theorem origin_of_lt (h : p < t.size) : t.origin m p = .own p := if_pos h

theorem origin_of_le (h : t.size + m.body.size ≤ p) : t.origin m p = .copy := by
  rw [origin, if_neg (show ¬p < t.size by omega), if_neg (Nat.not_lt.mpr h)]

theorem Grafted.map_origin (h : t.Grafted kind source B u) (hsize : u.size = t.size + m.body.size) :
    B.map (t.origin m) = Forest.ofElements .body B.elements :=
  Forest.map_eq_ofElements fun y hy => by
    obtain ⟨hlt, hle⟩ := h.bounds (List.mem_cons_of_mem _ hy)
    rw [origin, if_neg (Nat.not_lt.mpr hle), if_pos (hsize ▸ hlt)]

theorem Shows.map_origin (h : t.Shows content) (m : BlockMixin) : content.map (t.origin m) = content.map .own :=
  Forest.map_congr fun _ hy => origin_of_lt (h.lt_size hy)

/-- The nodes of the call go to the first placeholder of a new instance, copies of them to the others. -/
theorem Grafted.fillPlaceholders_origin (h : t.Grafted kind source B u) (hsize : u.size = t.size + m.body.size)
    (hl : t.Linked) (hc : t.Hangs call content) (hps : B.atRules Keyword.placeholder = p :: ps) :
    ∃ v placed after, u.fillPlaceholders content.tops true (p :: ps) = (v, placed) ∧ u.Grows v ∧
      v.Hangs t.size after ∧
      after.map (t.origin m) = (Forest.ofElements .body B.elements).fillFirst (content.map .own)
        (Forest.ofElements .copy content.elements) := by
  have hold : ∀ y ∈ content.marks, y < t.size := fun y hy => hc.shows.lt_size hy
  have hapart : ∀ y ∈ t.size :: B.marks, y ∉ content.marks := fun y hy hm =>
    absurd (hold y hm) (Nat.not_lt.mpr (h.bounds hy).2)
  have hsub : ∀ q ∈ p :: ps, q ∈ B.marks := fun q hq =>
    (B.atRules_sublist_marks Keyword.placeholder).subset (hps ▸ hq)
  obtain ⟨u₁, v, z, placed, after, hv, mv, -, fl⟩ := fillPlaceholders_own h.linked
    (hc.shows.grows h.grows fun y hy => h.children y (hold y hy)) (hc.nodup hl) (h.bounds (by simp)).1 h.hangs
    (hps ▸ (B.atRules_sublist_marks _).nodup h.nodup) (fun q hq => h.hangs.parent_mem h.linked (hsub q hq))
    (fun z hz => ⟨(h.bounds hz).1, hapart z hz⟩) (fun q hq => hapart q (by simp [hsub q hq])) (hapart _ (by simp))
    fun y hy hm => hapart y (by simp [hm]) hy
  have hsize₁ : (u₁.detach p).size = t.size + m.body.size := by rw [size_detach, mv.size_eq, hsize]
  refine ⟨v, _, after, hv, (mv.grows.trans (grows_detach u₁ p)).trans fl.grows, fl.hangs, ?_⟩
  rw [fl.map_eq (t.origin m) .copy fun y hy => origin_of_le (hsize₁ ▸ hy),
    Forest.fillAt_replace_first h.nodup hps fun y hy hm => hapart y (by simp [hsub y (by simp [hm])]) hy,
    h.map_origin hsize, hc.shows.map_origin]

/-- Both ways to build an instance, with placeholders in it and without. -/
theorem Grafted.materialize (h : t.Grafted kind source B u) (hsize : u.size = t.size + m.body.size) (hl : t.Linked)
    (hcall : call < t.size) (hc : t.Hangs call content) {arguments : List Call.Argument}
    (hu : t.graft (m.instantiate arguments) = (u, t.size))
    (hm : m.acceptsContent = !(B.atRules Keyword.placeholder).isEmpty) :
    ∃ v placed after, t.materialize m call arguments = (v, t.size, placed) ∧ u.Grows v ∧ v.Hangs t.size after ∧
      after.map (t.origin m) = (Forest.ofElements .body B.elements).fillFirst (content.map .own)
        (Forest.ofElements .copy content.elements) ∧
      (B.atRules Keyword.placeholder = [] → v.Hangs call content ∧ placed = []) := by
  cases hps : B.atRules Keyword.placeholder with
  | nil =>
    have hm : m.acceptsContent = false := by simpa [hps] using hm
    refine ⟨u, [], B, ?_, .refl u, h.hangs, ?_, fun _ => ⟨h.hangs_before hc hcall, rfl⟩⟩
    · rw [hl.materialize_eq m call arguments (congrArg Prod.fst hu), hm]
      rfl
    · have hnone : (Forest.ofElements Origin.body B.elements).atRules Keyword.placeholder = [] := by
        rw [← Forest.map_const, Forest.atRules_map, hps, List.map_nil]
      rw [h.map_origin hsize, Forest.fillFirst_of_atRules_eq_nil hnone]
  | cons p ps =>
    have hm : m.acceptsContent = true := by simpa [hps] using hm
    obtain ⟨v, placed, after, hv, hgrows, hhangs, hmap⟩ := h.fillPlaceholders_origin hsize hl hc hps
    refine ⟨v, placed, after, ?_, hgrows, hhangs, hmap, by simp⟩
    rw [hl.materialize_eq m call arguments (congrArg Prod.fst hu), hm, h.children call hcall, hc.children_eq,
      h.hangs.atRules h.linked Keyword.placeholder, hps, hv]
    rfl

/-- The body with the arguments in it is added as new nodes, one for each of its own. -/
theorem Linked.graft_body (h : t.Linked) (m : BlockMixin) (arguments : List Call.Argument) :
    ∃ u B, t.graft (m.instantiate arguments) = (u, t.size) ∧ u.size = t.size + m.body.size ∧
      B.elements = mapTextsAll (m.withArguments arguments) m.body.children ∧
      t.Grafted (m.body.kind.mapTexts (m.withArguments arguments)) m.body.source B u := by
  obtain ⟨u, B, hu, hB, hg⟩ := h.graft (m.body.kind.mapTexts (m.withArguments arguments)) m.body.source
    (mapTextsAll (m.withArguments arguments) m.body.children)
  refine ⟨u, B, by rw [m.instantiate_eq, hu], ?_, hB, hg⟩
  rw [hg.size_eq, Forest.length_marks_eq_sizeAll, hB, sizeAll_mapTextsAll]
  cases m.body
  simp only [Element.children, Element.size]
  omega

/-- What was put at placeholders is not part of the body. -/
theorem body_not_mem_atRules_fillFirst (f : Forest Origin) (content : Forest NodeId) (es : List Element) :
    .body ∉ (f.fillFirst (content.map .own) (Forest.ofElements .copy es)).atRules Keyword.placeholder := by
  intro hbody
  rcases Forest.mem_atRules_fillFirst hbody with hbody | hbody
  · simp [Forest.atRules_map] at hbody
  · simp [← Forest.map_const_ofElements () Origin.copy, Forest.atRules_map] at hbody

/-- An instance reads like the body with the arguments in its texts and the content of the call in place of the
outermost placeholders, and the content is taken as it is. The first placeholder has the nodes of the call, with their
numbers, and every further one has new nodes. No placeholder of the body is left; if there was none, what hangs from
the call stays there. -/
theorem materialize_fills_body (h : t.WellFormed) (hcall : call < t.size) (m : BlockMixin)
    (hm : m.acceptsContent = !(atRulesAll Keyword.placeholder m.body.children).isEmpty)
    (arguments : List Call.Argument) :
    ∃ u placed content after, t.materialize m call arguments = (u, t.size, placed) ∧ u.WellFormed ∧
      t.Hangs call content ∧ u.Hangs t.size after ∧
      u.element? t.size = some (.mk (m.body.kind.mapTexts (m.withArguments arguments)) m.body.source
        (filled (t.forest call) (mapTextsAll (m.withArguments arguments) m.body.children))) ∧
      after.map (t.origin m) =
        (Forest.ofElements .body (mapTextsAll (m.withArguments arguments) m.body.children)).fillFirst
          (content.map .own) (Forest.ofElements .copy (t.forest call)) ∧
      (∀ x ∈ u.atRules t.size Keyword.placeholder, t.origin m x ≠ .body) ∧
      (atRulesAll Keyword.placeholder m.body.children = [] → u.Hangs call content ∧ placed = []) := by
  obtain ⟨content, hc⟩ := h.exists_hangs call
  obtain ⟨u, B, hu, hsize, hB, hg⟩ := h.toLinked.graft_body m arguments
  have hnone : B.atRules Keyword.placeholder = [] ↔ atRulesAll Keyword.placeholder m.body.children = [] := by
    rw [Forest.atRules_eq_nil_iff, hB, atRulesAll_mapTextsAll_eq_nil_iff]
  have haccepts : m.acceptsContent = !(B.atRules Keyword.placeholder).isEmpty := by
    rw [hm, Bool.eq_iff_iff]
    simp [hnone]
  obtain ⟨v, placed, after, hv, hgrows, hhangs, hmap, hkeep⟩ :=
    hg.materialize hsize h.toLinked hcall hc hu haccepts
  have hwf : v.WellFormed := by simpa [hv] using (h.materialize hcall m arguments).wellFormed
  have hcontent := hc.forest_eq h.toLinked
  rw [hB, ← hcontent] at hmap
  refine ⟨v, placed, content, after, hv, hwf, hc, hhangs, ?_, hmap, ?_, fun hn => hkeep (hnone.mpr hn)⟩
  · have hlt : t.size < u.size := (hg.bounds (by simp)).1
    have hsame : (content.map Origin.own).elements = (Forest.ofElements Origin.copy (t.forest call)).elements := by
      rw [Forest.elements_map, Forest.elements_ofElements, hcontent]
    rw [hwf.element?_eq ((hgrows.kind? _ hlt).trans hg.shows.1.1), hgrows.source? _ hlt, hg.shows.1.2.1,
      hhangs.forest_eq hwf.toLinked, ← Forest.elements_map (t.origin m), hmap, Forest.elements_fillFirst hsame,
      Forest.elements_ofElements, Forest.elements_ofElements]
  · intro x hx horigin
    rw [hhangs.atRules hwf.toLinked] at hx
    have hbody := List.mem_map_of_mem (f := t.origin m) hx
    rw [← Forest.atRules_map, hmap, horigin] at hbody
    exact body_not_mem_atRules_fillFirst _ content (t.forest call) hbody

def Sample.sided : BlockMixin where
  body := .mk .root none
    [.mk (.rule ".$(side)") none [.mk (.atRule "content" "" false) none []],
      .mk (.atRule "content" "" true) none [.mk (.atRule "content" "" false) none []]]
  parameters := [⟨"side", "left"⟩]
  variadic := false
  acceptsContent := true

/-- A call with a text and a placeholder inside it. -/
def Sample.sidedCall : Tree :=
  .ofElement (.mk .root none
    [.mk (.atRule "include" "sided()" true) none
      [.mk (.declaration "margin-$side" "0") none [], .mk (.atRule "content" "" false) none []]])

theorem materialize_fills_body_sided :
    ∃ u placed, Sample.sidedCall.materialize Sample.sided 1 [] = (u, 4, placed) ∧ u.WellFormed ∧
      u.element? 4 = some (.mk .root none
        [.mk (.rule ".left") none
            [.mk (.declaration "margin-$side" "0") none [], .mk (.atRule "content" "" false) none []],
          .mk (.declaration "margin-$side" "0") none [], .mk (.atRule "content" "" false) none []]) := by
  have hcall : 1 < Sample.sidedCall.size := by decide
  obtain ⟨u, placed, content, after, hu, hwf, -, -, he, -⟩ :=
    materialize_fills_body (wellFormed_ofElement _) hcall Sample.sided rfl []
  refine ⟨u, placed, hu, hwf, ?_⟩
  have hside : Sample.sided.withArguments [] ".$(side)" = ".left" := by decide +kernel
  have hempty : Sample.sided.withArguments [] "" = "" := by decide +kernel
  have htexts : mapTextsAll (Sample.sided.withArguments []) Sample.sided.body.children =
      [.mk (.rule ".left") none [.mk (.atRule "content" "" false) none []],
        .mk (.atRule "content" "" true) none [.mk (.atRule "content" "" false) none []]] := by
    simp only [Sample.sided, Element.children, mapTextsAll, Element.mapTexts, Kind.mapTexts] at hside hempty ⊢
    rw [hside, hempty]
  rw [htexts] at he
  exact he

end Tree

end StyleMixins
