import StyleMixins.Expansion.Run
import StyleMixins.Proofs.Forest.Fill
import StyleMixins.Proofs.Forest.FirstCall
import StyleMixins.Proofs.Forest.Texts
import Mathlib.Data.Prod.Lex
import Mathlib.Order.WellFounded

/-!
Expansion by recursion on forests, the meaning of a run. The mark of a node says how deep the calls at it
count. A call is replaced by its instance, and the calls of the instance are expanded in the same way: those
that come from a definition lie one deeper, those that stood inside the call lie as deep as it did.
-/

namespace StyleMixins

/-- The body of a block, with what stands inside the call at its outermost placeholders. -/
def BlockMixin.filled (m : BlockMixin) (arguments : List Call.Argument) (call : Site Nat) : Forest Nat :=
  let body := Forest.ofElements (call.mark + 1) (m.instantiate arguments).children
  if m.acceptsContent then body.fill (call.below.map fun _ => call.mark) else body

def Record.laidOut (fields : Record) (call : Site Nat) : Forest Nat :=
  Forest.ofElements (call.mark + 1) (Record.fieldElements call.source fields)

/-- What a definition gives for a call, where a callback is shown `site`. -/
def Definition.instanceAt (d : Definition) (site : CallSite) (call : Site Nat) : Except Error (Forest Nat) :=
  match d with
  | .block m => .ok (m.filled site.arguments call)
  | .record fields => .ok (fields.laidOut call)
  | .callback run =>
    match run site with
    | .error e => .error e
    | .ok none => .ok .nil
    | .ok (some fields) => .ok (Record.laidOut fields call)

namespace Expansion

inductive Event where
  | expanded (mixin label : String) (depth : Nat)
  | skipped
  deriving DecidableEq, Repr

/-- What takes the place of a call that stands at a node of a store. -/
def replacement (registry : Registry) (silent : Bool) (maxDepth : Option Nat) (t : Tree) (id : NodeId)
    (call : Site Nat) : Except Error (Event × Forest Nat) :=
  match Call.Invocation.read call.text with
  | none => .error (.malformedList ("@" ++ Keyword.call ++ " " ++ call.text) call.source)
  | some head =>
    match registry.find? head.name with
    | none =>
      if silent then .ok (.skipped, .nil) else .error (.undefined head.name call.source)
    | some d =>
      match maxDepth.filter (· < call.mark) with
      | some limit => .error (.tooDeep head.name limit call.source)
      | none =>
        match d.instanceAt ⟨t, id, head.name, (head.list.map Call.readArguments).getD []⟩ call with
        | .error e => .error e
        | .ok inst => .ok (.expanded head.name d.label call.mark, inst)

/-- What takes the place of a call that stands at the root of a store of its own. -/
def replacementAlone (registry : Registry) (silent : Bool) (maxDepth : Option Nat) (call : Site Nat) :
    Except Error (Event × Forest Nat) :=
  replacement registry silent maxDepth
    (.ofElement (.mk (.atRule Keyword.call call.text true) call.source call.below.elements)) Tree.root call

/-- The depth that is left to a call, and then the size of what stands inside it. -/
def weight (limit depth : Nat) (content : Forest Nat) : ℕ ×ₗ ℕ :=
  toLex (limit + 1 - depth, content.marks.length + 1)

/-- The greatest weight of a call that is inside no other. -/
def peak (limit : Nat) : Forest Nat → ℕ ×ₗ ℕ
  | .nil => toLex (0, 0)
  | .cons depth kind _ below rest =>
    max (if kind.callText?.isSome then weight limit depth below else peak limit below) (peak limit rest)

variable {limit d : Nat} {content f g : Forest Nat}

theorem zero_lt_weight : toLex (0, 0) < weight limit d content :=
  Prod.Lex.toLex_lt_toLex'.mpr ⟨Nat.zero_le _, fun _ => Nat.succ_pos _⟩

theorem weight_lt_of_deeper {a : Nat} (hd : d ≤ limit) (ha : d < a) :
    weight limit a f < weight limit d content :=
  Prod.Lex.toLex_lt_toLex.mpr (Or.inl (show limit + 1 - a < limit + 1 - d by omega))

theorem peak_append : peak limit (f ++ g) = max (peak limit f) (peak limit g) := by
  induction f with
  | nil => exact (max_eq_right (Prod.Lex.toLex_le_toLex'.mpr ⟨Nat.zero_le _, fun _ => Nat.zero_le _⟩)).symm
  | cons a k s below rest _ hr => rw [Forest.cons_append, peak, peak, hr, max_assoc]

/-- Content put at placeholders of deeper nodes adds no weight of its own. -/
theorem peak_fill_lt (hd : d ≤ limit) (hf : ∀ a ∈ f.marks, d < a) (hg : peak limit g < weight limit d content) :
    peak limit (f.fill g) < weight limit d content := by
  induction f with
  | nil => exact zero_lt_weight
  | cons a k s below rest hb hr =>
    simp only [Forest.marks, List.mem_cons, List.mem_append] at hf
    have hr := hr fun x hx => hf x (Or.inr (Or.inr hx))
    rw [Forest.fill]
    split
    · rw [peak_append]
      exact max_lt hg hr
    · rw [peak]
      refine max_lt ?_ hr
      split
      · exact weight_lt_of_deeper hd (hf a (Or.inl rfl))
      · exact hb fun x hx => hf x (Or.inr (Or.inl hx))

theorem peak_lt_of_deeper (hd : d ≤ limit) (hf : ∀ a ∈ f.marks, d < a) :
    peak limit f < weight limit d content := by
  induction f with
  | nil => exact zero_lt_weight
  | cons a k s below rest hb hr =>
    simp only [Forest.marks, List.mem_cons, List.mem_append] at hf
    rw [peak]
    refine max_lt ?_ (hr fun x hx => hf x (Or.inr (Or.inr hx)))
    split
    · exact weight_lt_of_deeper hd (hf a (Or.inl rfl))
    · exact hb fun x hx => hf x (Or.inr (Or.inl hx))

/-- What stands inside a call weighs less than the call, at the same depth. -/
theorem peak_content_lt (h : g.marks.length ≤ content.marks.length) :
    peak limit (g.map fun _ => d) < weight limit d content := by
  induction g with
  | nil => exact zero_lt_weight
  | cons a k s below rest hb hr =>
    simp only [Forest.marks, List.length_cons, List.length_append] at h
    rw [Forest.map, peak]
    refine max_lt ?_ (hr (by omega))
    split
    · refine Prod.Lex.toLex_lt_toLex.mpr (Or.inr ⟨rfl, ?_⟩)
      rw [Forest.length_marks]
      show below.marks.length + 1 < content.marks.length + 1
      omega
    · exact hb (by omega)

theorem mem_marks_ofElements {a b : Nat} {es : List Element} (h : b ∈ (Forest.ofElements a es).marks) : b = a := by
  rw [← Forest.map_const_ofElements () a, Forest.marks_map] at h
  obtain ⟨_, -, rfl⟩ := List.mem_map.mp h
  rfl

theorem peak_ofElements_lt (hd : d ≤ limit) (es : List Element) :
    peak limit (Forest.ofElements (d + 1) es) < weight limit d content :=
  peak_lt_of_deeper hd fun _ ha => mem_marks_ofElements ha ▸ Nat.lt_succ_self d

theorem peak_instanceAt_lt {definition : Definition} {site : CallSite} {call : Site Nat} (hd : call.mark ≤ limit)
    (h : definition.instanceAt site call = .ok f) :
    peak limit f < weight limit call.mark call.below := by
  have hrecord : ∀ fields : Record, peak limit (fields.laidOut call) < weight limit call.mark call.below :=
    fun fields => peak_ofElements_lt hd _
  cases definition with
  | block m =>
    cases Except.ok.inj h
    rw [BlockMixin.filled]
    split
    · exact peak_fill_lt hd (fun _ ha => mem_marks_ofElements ha ▸ Nat.lt_succ_self _)
        (peak_content_lt (Nat.le_refl _))
    · exact peak_ofElements_lt hd _
  | record fields =>
    cases Except.ok.inj h
    exact hrecord fields
  | callback run =>
    simp only [Definition.instanceAt] at h
    split at h
    next => simp at h
    next =>
      cases Except.ok.inj h
      exact zero_lt_weight
    next fields _ =>
      cases Except.ok.inj h
      exact hrecord fields

theorem peak_replacement_lt {registry : Registry} {silent : Bool} {t : Tree} {id : NodeId} {call : Site Nat}
    {event : Event} (h : replacement registry silent (some limit) t id call = .ok (event, f)) :
    peak limit f < weight limit call.mark call.below := by
  rw [replacement] at h
  split at h
  next => simp at h
  next head _ =>
    split at h
    next =>
      split at h
      next =>
        cases Except.ok.inj h
        exact zero_lt_weight
      next => simp at h
    next definition _ =>
      split at h
      next => simp at h
      next hlimit =>
        have hd : call.mark ≤ limit := by simpa using hlimit
        split at h
        next => simp at h
        next inst hinst =>
          cases Except.ok.inj h
          exact peak_instanceAt_lt hd hinst

/-- What an expansion comes to: what became of the calls, in order, the trees at the end, and the error that
stopped it. -/
structure Result where
  events : List Event := []
  elements : List Element := []
  error : Option Error := none

namespace Result

def under (kind : Kind) (source : Option Source) (r : Result) : Result :=
  { r with elements := [.mk kind source r.elements] }

def after (event : Event) (r : Result) : Result :=
  { r with events := event :: r.events }

/-- After an error, what waits to be expanded stays as it is. -/
def andThen (r : Result) (waiting : Forest Nat) (next : Result) : Result :=
  match r.error with
  | some e => ⟨r.events, r.elements ++ waiting.elements, some e⟩
  | none => ⟨r.events ++ next.events, r.elements ++ next.elements, next.error⟩

end Result

/-- Expands a forest in document order, calls at most `limit` deep. A callback is shown the call alone. -/
def expandForest (registry : Registry) (silent : Bool) (limit : Nat) : Forest Nat → Result
  | .nil => {}
  | .cons depth kind source below rest =>
    let first :=
      match _kind : kind.callText? with
      | none => (expandForest registry silent limit below).under kind source
      | some text =>
        match _replaced : replacementAlone registry silent (some limit) ⟨depth, text, source, below⟩ with
        | .error e => ⟨[], [.mk kind source below.elements], some e⟩
        | .ok (event, inst) => (expandForest registry silent limit inst).after event
    first.andThen rest (expandForest registry silent limit rest)
termination_by f => toLex (peak limit f, f.marks.length)
decreasing_by
  · refine Prod.Lex.toLex_lt_toLex'.mpr ⟨by simp [peak, _kind], fun _ => ?_⟩
    simp only [Forest.marks, List.length_cons, List.length_append]
    omega
  · have hw := peak_replacement_lt _replaced
    exact Prod.Lex.toLex_lt_toLex.mpr (Or.inl (by simp [peak, _kind, hw]))
  · refine Prod.Lex.toLex_lt_toLex'.mpr ⟨by simp [peak], fun _ => ?_⟩
    simp only [Forest.marks, List.length_cons, List.length_append]
    omega

section Equations

variable {registry : Registry} {silent : Bool} {depth : Nat} {kind : Kind} {source : Option Source}
  {below rest : Forest Nat} {text : String}

theorem expandForest_nil : expandForest registry silent limit .nil = {} := by
  rw [expandForest]

theorem expandForest_node (hk : kind.callText? = none) :
    expandForest registry silent limit (.cons depth kind source below rest) =
      ((expandForest registry silent limit below).under kind source).andThen rest
        (expandForest registry silent limit rest) := by
  rw [expandForest]
  split
  next => rfl
  next text he => simp [hk] at he

theorem expandForest_error {e : Error} (hk : kind.callText? = some text)
    (h : replacementAlone registry silent (some limit) ⟨depth, text, source, below⟩ = .error e) :
    expandForest registry silent limit (.cons depth kind source below rest) =
      ⟨[], .mk kind source below.elements :: rest.elements, some e⟩ := by
  rw [expandForest]
  split
  next he => simp [hk] at he
  next text' he =>
    cases Option.some.inj (hk.symm.trans he)
    split
    next e' he' =>
      cases Except.error.inj (h.symm.trans he')
      rfl
    next he' => simp [h] at he'

theorem expandForest_call {event : Event} {inst : Forest Nat} (hk : kind.callText? = some text)
    (h : replacementAlone registry silent (some limit) ⟨depth, text, source, below⟩ = .ok (event, inst)) :
    expandForest registry silent limit (.cons depth kind source below rest) =
      ((expandForest registry silent limit inst).after event).andThen rest
        (expandForest registry silent limit rest) := by
  rw [expandForest]
  split
  next he => simp [hk] at he
  next text' he =>
    cases Option.some.inj (hk.symm.trans he)
    split
    next he' => simp [h] at he'
    next event' inst' he' =>
      cases Except.ok.inj (h.symm.trans he')
      rfl

end Equations

end Expansion

end StyleMixins
