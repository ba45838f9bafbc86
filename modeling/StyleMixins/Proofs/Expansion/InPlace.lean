import StyleMixins.Proofs.Expansion.Placement
import StyleMixins.Proofs.Forest.FirstCall

namespace StyleMixins

theorem Kind.eq_of_callText? {k : Kind} {text : String} (h : k.callText? = some text) :
    ∃ hasBlock, k = .atRule Keyword.call text hasBlock := by
  cases k with
  | atRule name params hasBlock =>
    simp only [callText?] at h
    split at h
    next hn => exact ⟨hasBlock, by rw [hn, Option.some.inj h]⟩
    next => simp at h
  | _ => simp [callText?] at h

namespace Tree

variable {t u : Tree} {root proxy p : Nat} {f f' g placed : Forest NodeId} {c : Site NodeId}

structure HasCall (t : Tree) (c : Site NodeId) : Prop where
  params? : t.params? c.mark = some c.text
  source : t.source? c.mark = c.source
  children : t.children c.mark = c.below.tops
  shows : t.Shows c.below

theorem Shows.hasCall (h : t.Shows f) (hc : f.firstCall? = some c) : t.HasCall c := by
  induction f with
  | nil => simp [Forest.firstCall?] at hc
  | cons id k s below rest hb hr =>
    obtain ⟨⟨h1, h2, h3⟩, h4, h5⟩ := h
    cases hk : k.callText? with
    | some text =>
      simp only [Forest.firstCall?, hk, Option.some.injEq] at hc
      subst hc
      obtain ⟨hasBlock, rfl⟩ := Kind.eq_of_callText? hk
      exact ⟨by rw [params?, h1], h2, h3, h4⟩
    | none =>
      simp only [Forest.firstCall?, hk] at hc
      cases hf : below.firstCall? with
      | some site => exact hb h4 (by simpa [hf] using hc)
      | none => exact hr h5 (by simpa [hf] using hc)

/-- Where the first call and what is inside it lie. -/
structure Separate (root : Nat) (f : Forest NodeId) (c : Site NodeId) : Prop where
  mem : c.mark ∈ f.marks
  nodup : c.below.marks.Nodup
  not_mem : c.mark ∉ c.below.marks
  outside : ∀ y ∈ c.below.marks, y ∉ (f.replace c.mark .nil).marks
  root_not_mem : root ∉ c.below.marks

theorem Hangs.separate (h : t.Hangs root f) (hl : t.Linked) (hc : f.firstCall? = some c) :
    Separate root f c := by
  have hn := h.nodup hl
  have apart := Forest.apart_of_nodup hn hc
  have hmem := Forest.mem_marks_of_firstCall? hc
  refine ⟨(hmem c.mark).mpr (Or.inl rfl), apart.nodup, apart.mark_below, ?_, ?_⟩
  · rw [← Forest.putFirst_eq_replace hn hc]
    exact apart.below_around
  · exact fun hm => h.not_mem ((hmem root).mpr (Or.inr (Or.inl hm)))

theorem insertInPlace_eq (t : Tree) (call proxy : NodeId) :
    t.insertInPlace call proxy = (t.placeContent call true (t.children proxy)).1 := by
  rw [insertInPlace]
  generalize t.children proxy = ids
  induction ids generalizing t with
  | nil => rfl
  | cons id ids ih => rw [List.foldl_cons, ih, placeContent_own_cons]

/-- The instance hangs from `proxy`, and around the call the forest is `f` still. -/
structure Ready (t : Tree) (root proxy : Nat) (f f' g : Forest NodeId) (call : Nat) : Prop where
  linked : t.Linked
  hangs : t.Hangs proxy g
  call_hangs : t.Hangs root f'
  around : ∀ h, f'.replace call h = f.replace call h
  mem : call ∈ f'.marks
  root_ne : root ≠ proxy
  root_not_mem : root ∉ g.marks
  proxy_not_mem : proxy ∉ f'.marks

theorem Ready.insertInPlace {call : Nat} (h : t.Ready root proxy f f' g call) :
    ((t.insertInPlace call proxy).detach call).Linked ∧ t.Grows ((t.insertInPlace call proxy).detach call) ∧
      ((t.insertInPlace call proxy).detach call).Hangs root (f.replace call g) ∧
      ∀ placed, t.Shows placed → proxy ∉ placed.marks → (∀ y ∈ placed.marks, t.parent? call ≠ some y) →
        ((t.insertInPlace call proxy).detach call).Shows placed := by
  have hdis := h.call_hangs.disjoint h.hangs h.linked h.root_ne h.root_not_mem h.proxy_not_mem
  have hcg : call ∉ g.marks := hdis call h.mem
  obtain ⟨q, hq, hp⟩ := h.call_hangs.parent_mem h.linked h.mem
  obtain ⟨u, hu, mv⟩ := placeContent_own h.linked h.hangs.shows (h.hangs.nodup h.linked) hcg hp
  rw [insertInPlace_eq, h.hangs.children_eq, hu]
  have hctop : call ∉ g.tops := fun hm => hcg (g.tops_subset_marks hm)
  refine ⟨mv.linked.detach call, mv.grows.trans (grows_detach u call), ?_, ?_⟩
  · have hput := mv.put root f' h.call_hangs h.root_not_mem fun x hx hm => hdis x hm hx
    have hd := hput.detach mv.linked call
    rwa [Forest.replace_putBefore _ _ hcg, Forest.append_nil, h.around] at hd
  · intro placed hs hproxy hpar
    refine hs.grows (mv.grows.trans (grows_detach u call)) fun y hy => ?_
    have hyq : y ≠ q := fun e => hpar y hy (e ▸ hp)
    have hpu : u.parent? call ≠ some y := by
      rw [mv.parent? call hctop]
      exact hpar y hy
    rw [mv.linked.children_detach_of_ne hpu]
    refine mv.children y hyq fun x hx e => hproxy ?_
    have hpx : t.parent? x = some proxy :=
      (h.linked.mem_children proxy x).mp (h.hangs.children_eq ▸ hx)
    exact Option.some.inj (hpx.symm.trans e) ▸ hy

end Tree

end StyleMixins
