import StyleMixins.Proofs.Expansion.OneCall
import StyleMixins.Proofs.Expansion.Replacement
import StyleMixins.Proofs.Expansion.Stack
import StyleMixins.Proofs.Tree.Acyclic

namespace StyleMixins

theorem Tree.Grows.isAtRule {t u : Tree} (h : t.Grows u) {y : Nat} (hy : y < t.size) (name : String) :
    u.isAtRule y name = t.isAtRule y name := by
  obtain ⟨n, hn⟩ := Tree.lt_size_iff.mp hy
  have hk : t.kind? y = some n.kind := by rw [Tree.kind?, hn]; rfl
  rw [Tree.isAtRule_of_kind? hk, Tree.isAtRule_of_kind? ((h.kind? y hy).trans hk)]

theorem Tree.Shows.of_putFirst {t : Tree} {f g : Forest NodeId} {c : Site NodeId} (hc : f.firstCall? = some c)
    (h : t.Shows (f.putFirst g)) : t.Shows g := by
  induction f with
  | nil => simp [Forest.firstCall?] at hc
  | cons id k s below rest hb hr =>
    cases hk : k.callText? with
    | some text =>
      rw [Forest.putFirst, hk] at h
      exact (Tree.shows_append.mp h).1
    | none =>
      simp only [Forest.firstCall?, hk] at hc
      cases hs : below.firstCall? with
      | some site =>
        simp only [Forest.putFirst, hk, hs, Option.isSome_some, if_true] at h
        exact hb (by simpa [hs] using hc) h.2.1
      | none =>
        simp only [Forest.putFirst, hk, hs, Option.isSome_none, Bool.false_eq_true, if_false] at h
        exact hr (by simpa [hs] using hc) h.2.2

namespace Expansion

variable {ctx : Context} {t : Tree} {f g placed : Forest NodeId} {c : Site NodeId} {d : Nat} {τ : NodeId → Nat}
  {report : Report} {e : Error} {ev : Event} {inst : Forest Nat}

theorem callsWithin_eq (h : t.Shows g) (hn : g.marks.length ≤ t.size) :
    callsWithin t g.tops = g.atRules Keyword.call := by
  induction g with
  | nil => rfl
  | cons id k s below rest _ hr =>
    obtain ⟨⟨hk, _, hc⟩, hb, hrest⟩ := h
    simp only [Forest.marks, List.length_cons, List.length_append] at hn
    have htail : callsWithin t rest.tops = rest.atRules Keyword.call := hr hrest (by omega)
    rw [callsWithin] at htail
    rw [Forest.tops, callsWithin, List.flatMap_cons, htail, Tree.isAtRule_of_kind? hk,
      hb.atRules hc (by omega) Keyword.call, Forest.atRules]
    split <;> simp

theorem discovered_eq {r : Tree × Tree.Inserted} (h : t.Replaced ctx.root f c r g placed)
    (hc : f.firstCall? = some c) (d : Nat) :
    discovered r.1 d r.2 = (g.atRules Keyword.call).map fun id => (id, Tree.depthIn placed d id) := by
  have hg : r.1.Shows g := h.hangs.shows.of_putFirst hc
  have hlen : g.marks.length ≤ r.1.size := by
    obtain ⟨before, after, _, hm⟩ := Forest.marks_putFirst hc
    have hle := h.hangs.length_le h.linked
    rw [hm g, List.length_append, List.length_append] at hle
    omega
  rw [discovered, h.nodes, h.content, callsWithin_eq hg hlen,
    callsWithin_eq h.shows (h.shows.length_le h.nodup)]
  refine List.map_congr_left fun id hid => ?_
  have hcall := (hg.mem_atRules.mp hid).2
  have hplaced : id ∈ placed.atRules Keyword.call ↔ id ∈ placed.marks := by
    rw [h.shows.mem_atRules]
    exact and_iff_left hcall
  simp [Tree.depthIn, hplaced]

def Event.isExpansion : Event → Bool
  | .expanded .. => true
  | .skipped => false

def Step.event (s : Step) : Event :=
  .expanded s.mixin s.label s.depth

/-- A report tells what became of the calls. -/
structure Accounts (traced : Bool) (report : Report) (events : List Event) : Prop where
  expanded : report.expanded = events.countP Event.isExpansion
  skipped : report.skipped = events.countP fun e => !e.isExpansion
  trace : report.trace.map Step.event = if traced then events.filter Event.isExpansion else []

theorem accounts_start (traced : Bool) : Accounts traced {} [] :=
  ⟨rfl, rfl, by simp⟩

theorem Accounts.skip {traced : Bool} {events : List Event} (h : Accounts traced report events) :
    Accounts traced { report with skipped := report.skipped + 1 } (events ++ [.skipped]) where
  expanded := by simp [h.expanded, Event.isExpansion]
  skipped := by simp [h.skipped, Event.isExpansion]
  trace := by simp [h.trace, Event.isExpansion]

theorem Accounts.expand {traced : Bool} {events : List Event} (h : Accounts traced report events) (step : Step) :
    Accounts traced { report with
      expanded := report.expanded + 1, trace := report.trace ++ if traced then [step] else [] }
      (events ++ [step.event]) where
  expanded := by simp [h.expanded, Event.isExpansion, Step.event]
  skipped := by simp [h.skipped, Event.isExpansion, Step.event]
  trace := by cases traced <;> simp [h.trace, Event.isExpansion, Step.event, List.filter]

/-- What a context makes of a call that stands at a node of a store. -/
abbrev Context.replacement (ctx : Context) (t : Tree) (id : NodeId) (call : Site Nat) :
    Except Error (Event × Forest Nat) :=
  Expansion.replacement ctx.registry ctx.settings.silent ctx.settings.maxDepth t id call

/-- Only callbacks fail. -/
theorem instanceAt_eq_error_iff {definition : Definition} {site : CallSite} {call : Site Nat} :
    definition.instanceAt site call = .error e ↔ ∃ run, definition = .callback run ∧ run site = .error e := by
  cases definition with
  | block m => simp [Definition.instanceAt]
  | record fields => simp [Definition.instanceAt]
  | callback run =>
    simp only [Definition.instanceAt, Definition.callback.injEq, exists_eq_left']
    split
    next e' hrun => rw [hrun, Except.error.injEq, Except.error.injEq]
    next hrun => simp [hrun]
    next fields hrun => simp [hrun]

theorem Settings.allows_of_filter {settings : Settings} (h : settings.maxDepth.filter (· < d) = none) :
    settings.Allows d := by
  intro limit hmax
  simpa using Option.filter_eq_none_iff.mp h limit hmax

/-- Where the forest gives nothing for a call, the store refuses it. -/
theorem refused_of_replacement {id : NodeId} {call : Site Nat} (htext : t.params? id = some call.text)
    (hsource : t.source? id = call.source) (h : ctx.replacement t id call = .error e) :
    Refused ctx t id call.mark e := by
  rw [Context.replacement, replacement, ← hsource] at h
  obtain hread | ⟨head, hread⟩ := Option.eq_none_or_eq_some (Call.Invocation.read call.text)
  · rw [hread] at h
    cases Except.error.inj h
    exact .malformed htext hread
  obtain hfind | ⟨definition, hfind⟩ := Option.eq_none_or_eq_some (ctx.registry.find? head.name)
  · simp only [hread, hfind] at h
    split at h
    next => simp at h
    next hsilent =>
      cases Except.error.inj h
      exact .undefined htext hread hfind (by simpa using hsilent)
  simp only [hread, hfind] at h
  split at h
  next limit hlimit =>
    cases Except.error.inj h
    obtain ⟨hmax, hlt⟩ := Option.filter_eq_some_iff.mp hlimit
    exact .tooDeep htext hread hfind hmax (by simpa using hlt)
  next hlimit =>
    split at h
    next e' hinstance =>
      cases Except.error.inj h
      obtain ⟨run, rfl, hrun⟩ := instanceAt_eq_error_iff.mp hinstance
      exact .callback htext hread hfind (Settings.allows_of_filter hlimit) hrun
    next => simp at h

/-- What the forest gives for a call, the store gets in its place. -/
theorem exists_handles (report : Report) (hl : t.Linked) (hf : t.Hangs ctx.root f) (hc : f.firstCall? = some c)
    (h : ctx.replacement t c.mark (c.map τ) = .ok (ev, inst)) :
    ∃ r report' g placed, Handles ctx t report c.mark (τ c.mark) r.1 report' r.2 ∧
      t.Replaced ctx.root f c r g placed ∧ g.map (Tree.depthIn placed (τ c.mark)) = inst ∧
      ∀ events, Accounts ctx.settings.trace report events →
        Accounts ctx.settings.trace report' (events ++ [ev]) := by
  have htext := (hf.shows.hasCall hc).params?
  simp only [Context.replacement, replacement, c.map_text, c.map_mark] at h
  obtain hread | ⟨head, hread⟩ := Option.eq_none_or_eq_some (Call.Invocation.read c.text)
  · simp [hread] at h
  obtain hfind | ⟨definition, hfind⟩ := Option.eq_none_or_eq_some (ctx.registry.find? head.name)
  · cases hs : ctx.settings.silent with
    | false => simp [hread, hfind, hs] at h
    | true =>
      simp only [hread, hfind, hs, if_true, Except.ok.injEq, Prod.mk.injEq] at h
      obtain ⟨rfl, rfl⟩ := h
      exact ⟨(_, {}), _, .nil, .nil, .skip htext hread hfind hs, Tree.detach_replaced hl hf hc, rfl,
        fun _ ha => ha.skip⟩
  obtain hlimit | ⟨limit, hlimit⟩ := Option.eq_none_or_eq_some (ctx.settings.maxDepth.filter (· < τ c.mark))
  · simp only [hread, hfind, hlimit] at h
    cases hinst : definition.instanceAt ⟨t, c.mark, head.name, (head.list.map Call.readArguments).getD []⟩ (c.map τ) with
    | error e' => simp [hinst] at h
    | ok inst' =>
      simp only [hinst, Except.ok.injEq, Prod.mk.injEq] at h
      obtain ⟨rfl, rfl⟩ := h
      have hallowed := Settings.allows_of_filter hlimit
      obtain ⟨r, g, placed, hr, hrep, hg⟩ := Tree.replaceCall_replaced hl hf hc hinst
      exact ⟨r, _, g, placed, .expand htext hread hfind hallowed hr, hrep, hg, fun _ ha => ha.expand _⟩
  · simp [hread, hfind, hlimit] at h

/-- The state stands for a document: what hangs below the root, with the depth of each node. -/
structure Standing (ctx : Context) (s : State) (f : Forest NodeId) (τ : NodeId → Nat) : Prop where
  linked : s.tree.Linked
  hangs : s.tree.Hangs ctx.root f
  known : ∀ entry ∈ s.pending, entry.1 < s.tree.size ∧ entry.1 ≠ ctx.root
  stacked : Stacked s.pending f τ

variable {s : State} {call : Nat} {rest : List (NodeId × Nat)}

theorem standing_start (ctx : Context) (h : t.WellFormed) :
    ∃ f, Standing ctx (start ctx t) f (fun _ => 0) ∧ f.elements = t.forest ctx.root := by
  obtain ⟨f, hf⟩ := h.exists_hangs ctx.root
  have hl := h.toLinked
  refine ⟨f, ⟨hl, hf, ?_, ?_⟩, (hf.forest_eq hl).symm⟩
  · intro entry he
    obtain ⟨id, hid, rfl⟩ := List.mem_map.mp he
    rw [hf.atRules hl] at hid
    have hm := (f.atRules_sublist_marks _).subset hid
    exact ⟨hf.shows.lt_size hm, fun e : id = ctx.root => hf.not_mem (e ▸ hm)⟩
  · rw [start, hf.atRules hl]
    exact stacked_start (hf.nodup hl) 0

theorem Standing.isAttached_iff (h : Standing ctx s f τ) (he : (call, d) ∈ s.pending) :
    s.tree.isAttached call ctx.root = true ↔ call ∈ f.marks := by
  rw [h.hangs.isAttached_iff h.linked, List.mem_cons]
  exact or_iff_right (h.known (call, d) he).2

theorem Standing.pass (h : Standing ctx s f τ) (hp : s.pending = (call, d) :: rest)
    (ha : s.tree.isAttached call ctx.root = false) : Standing ctx { s with pending := rest } f τ where
  linked := h.linked
  hangs := h.hangs
  known entry he := h.known entry (by rw [hp]; exact List.mem_cons_of_mem _ he)
  stacked := by
    have hm : call ∉ f.marks := mt (h.isAttached_iff (d := d) (by simp [hp])).mpr (by simp [ha])
    exact (hp ▸ h.stacked).pass hm

/-- The depths after what took the place of a call has got its own. -/
def depthAfter (τ : NodeId → Nat) (depth : Nat) (g placed : Forest NodeId) (y : NodeId) : Nat :=
  if y ∈ g.marks then Tree.depthIn placed depth y else τ y

theorem Standing.isAttached_firstCall (h : Standing ctx s f τ) (hc : f.firstCall? = some c) :
    s.tree.isAttached c.mark ctx.root = true :=
  (h.hangs.isAttached_iff h.linked).mpr (List.mem_cons_of_mem _ (Forest.mark_mem_of_firstCall? hc))

/-- A turn put `g` in place of the call `c`. -/
structure Turn (ctx : Context) (s s' : State) (f g : Forest NodeId) (c : Site NodeId) (τ τ' : NodeId → Nat)
    (ev : Event) (inst : Forest Nat) : Prop where
  standing : Standing ctx s' (f.putFirst g) τ'
  grows : s.tree.Grows s'.tree
  marks : ∀ y ∈ g.marks, y ∈ c.below.marks ∨ s.tree.size ≤ y
  map_eq : (f.putFirst g).map τ' = (f.map τ).putFirst inst
  inst_eq : g.map τ' = inst
  depth_inside : ∀ y ∈ g.marks, y < s.tree.size → τ' y = τ c.mark
  depth_around : ∀ y ∈ (f.putFirst .nil).marks, τ' y = τ y
  accounts : ∀ events, Accounts ctx.settings.trace s.report events →
    Accounts ctx.settings.trace s'.report (events ++ [ev])

/-- A turn at the first call of the document fails with the error that refuses it, and changes nothing. -/
theorem Standing.next_error (h : Standing ctx s f τ) (hc : f.firstCall? = some c)
    (he : ctx.replacement s.tree c.mark (c.map τ) = .error e) :
    next ctx s c.mark (τ c.mark) rest = ({ s with pending := rest }, some e) := by
  have call := h.hangs.shows.hasCall hc
  have hrefused := refused_of_replacement (by rw [c.map_text, call.params?]) (by rw [c.map_source, call.source]) he
  exact hrefused.next_eq (h.isAttached_firstCall hc)

theorem Standing.next_ok (h : Standing ctx s f τ) (hp : s.pending = (c.mark, τ c.mark) :: rest)
    (hc : f.firstCall? = some c) (he : ctx.replacement s.tree c.mark (c.map τ) = .ok (ev, inst)) :
    ∃ s' g τ', next ctx s c.mark (τ c.mark) rest = (s', none) ∧ Turn ctx s s' f g c τ τ' ev inst := by
  obtain ⟨r, report', g, placed, hhandles, hrep, hg, hacc⟩ := exists_handles s.report h.linked h.hangs hc he
  generalize hτ' : depthAfter τ (τ c.mark) g placed = τ'
  have hin : ∀ y ∈ g.marks, τ' y = Tree.depthIn placed (τ c.mark) y := fun y hy => hτ' ▸ if_pos hy
  have hf' := hrep.hangs.nodup hrep.linked
  have hout : ∀ y ∈ (f.putFirst .nil).marks, τ' y = τ y := fun y hy =>
    hτ' ▸ if_neg (Forest.not_mem_around_of_nodup hc hf' y hy)
  have hcallsτ : discovered r.1 (τ c.mark) r.2 = (g.atRules Keyword.call).map fun id => (id, τ' id) := by
    rw [discovered_eq hrep hc]
    exact List.map_congr_left fun id hid => by rw [hin id ((g.atRules_sublist_marks _).subset hid)]
  refine ⟨⟨r.1, discovered r.1 (τ c.mark) r.2 ++ rest, report'⟩, g, τ', ?_, ⟨hrep.linked, hrep.hangs, ?_, ?_⟩,
    hrep.grows, hrep.marks, ?_, ?_, ?_, hout, hacc⟩
  · exact hhandles.next_eq (h.isAttached_firstCall hc)
  · intro entry hentry
    rcases List.mem_append.mp hentry with hm | hm
    · rw [hcallsτ] at hm
      obtain ⟨id, hid, rfl⟩ := List.mem_map.mp hm
      have hm : id ∈ (f.putFirst g).marks :=
        (Forest.mem_marks_putFirst hc g id).mpr (Or.inl ((g.atRules_sublist_marks _).subset hid))
      exact ⟨hrep.hangs.shows.lt_size hm, fun e : id = ctx.root => hrep.hangs.not_mem (e ▸ hm)⟩
    · have hk := h.known entry (by rw [hp]; exact List.mem_cons_of_mem _ hm)
      exact ⟨Nat.lt_of_lt_of_le hk.1 hrep.grows.size_le, hk.2⟩
  · show Stacked (discovered r.1 (τ c.mark) r.2 ++ rest) (f.putFirst g) τ'
    rw [hcallsτ]
    refine (hp ▸ h.stacked).replace hc (h.hangs.nodup h.linked) hf' ?_ ?_ hout
    · intro y hy
      refine (hrep.marks y hy).imp_right fun hle hm => ?_
      obtain ⟨entry, hrest, rfl⟩ := List.mem_map.mp hm
      have hk := h.known entry (by rw [hp]; exact List.mem_cons_of_mem _ hrest)
      exact absurd hk.1 (Nat.not_lt.mpr hle)
    · -- A node that moved is the same kind of node as before.
      intro y hy hyg
      have hold := (h.hangs.shows.hasCall hc).shows
      have hcall := (hold.mem_atRules.mp hy).2
      have hnew := hrep.hangs.shows.of_putFirst hc
      refine hnew.mem_atRules.mpr ⟨hyg, ?_⟩
      rwa [hrep.grows.isAtRule (hold.lt_size (hold.mem_atRules.mp hy).1)]
  · rw [Forest.map_putFirst_congr g hout, Forest.map_congr hin, hg]
  · rw [Forest.map_congr hin, hg]
  · intro y hy hlt
    rw [hin y hy, Tree.depthIn, if_pos (hrep.old y hy hlt)]

end Expansion

end StyleMixins
