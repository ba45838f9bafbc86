import StyleMixins.Element.Printer
import StyleMixins.Expansion.Instance

/-!
Expansion of all calls below a node, one after the other. The calls still to be done stand on a stack in
document order, and the calls in what replaces one go on top. Each has a depth: calls that come from a
definition lie one deeper than the call that brought them in, calls inside the content of a call lie as
deep as it does.
-/

namespace StyleMixins.Expansion

def defaultDepth : Nat := 128

structure Settings where
  /-- Calls of unknown mixins are dropped. -/
  silent : Bool := false
  /-- The greatest depth of a call that is expanded. -/
  maxDepth : Option Nat := some defaultDepth
  trace : Bool := false
  deriving DecidableEq, Repr

structure Step where
  mixin : String
  label : String
  depth : Nat
  snapshot : String
  deriving DecidableEq, Repr

structure Report where
  expanded : Nat := 0
  skipped : Nat := 0
  trace : List Step := []
  deriving DecidableEq, Repr

/-- What a run works with: the node below which it works, the definitions and the settings. -/
structure Context where
  root : NodeId
  registry : Registry
  settings : Settings

structure State where
  tree : Tree
  /-- Calls still to be done with their depths, the next one first. -/
  pending : List (NodeId × Nat)
  report : Report

def snapshot (t : Tree) (id : NodeId) : String :=
  match t.element? id with
  | some e => e.print
  | none => ""

def callsWithin (t : Tree) (nodes : List NodeId) : List NodeId :=
  nodes.flatMap fun id =>
    if t.isAtRule id Keyword.call then id :: t.atRules id Keyword.call
    else t.atRules id Keyword.call

/-- The calls that replaced a call of the given depth, with their own depths. -/
def discovered (t : Tree) (depth : Nat) (inserted : Tree.Inserted) : List (NodeId × Nat) :=
  let fromContent := callsWithin t inserted.content
  (callsWithin t inserted.nodes).map fun id =>
    (id, if fromContent.contains id then depth else depth + 1)

def depthError? (settings : Settings) (name : String) (depth : Nat) (source : Option Source) :
    Option Error :=
  match settings.maxDepth with
  | some limit => if limit < depth then some (.tooDeep name limit source) else none
  | none => none

/-- Expands one call: its text is read, its name looked up, its depth checked, and then it is replaced. A node that
is no at-rule is left alone. Gives the store and the report that are left, and what was put in place of the call or
why nothing was. -/
def expandCall (ctx : Context) (t : Tree) (report : Report) (call : NodeId) (depth : Nat) :
    Tree × Report × Except Error Tree.Inserted :=
  match t.params? call with
  | none => (t, report, .ok {})
  | some text =>
    let source := t.source? call
    match Call.Invocation.read text with
    | none => (t, report, .error (.malformedList ("@" ++ Keyword.call ++ " " ++ text) source))
    | some head =>
      let arguments := (head.list.map Call.readArguments).getD []
      match ctx.registry.find? head.name with
      | none =>
        if ctx.settings.silent then (t.detach call, { report with skipped := report.skipped + 1 }, .ok {})
        else (t, report, .error (.undefined head.name source))
      | some d =>
        match depthError? ctx.settings head.name depth source with
        | some e => (t, report, .error e)
        | none =>
          match t.replaceCall call head.name arguments d with
          | (t, .error e) => (t, report, .error e)
          | (t, .ok inserted) =>
            let steps :=
              if ctx.settings.trace then [⟨head.name, d.label, depth, snapshot t ctx.root⟩] else []
            (t, { report with expanded := report.expanded + 1, trace := report.trace ++ steps }, .ok inserted)

/-- Does the call on top of the stack. One that no longer hangs below the root is passed over. Gives the state that is
left, and the error of a call that cannot be done. -/
def next (ctx : Context) (s : State) (call : NodeId) (depth : Nat) (rest : List (NodeId × Nat)) :
    State × Option Error :=
  if s.tree.isAttached call ctx.root then
    match expandCall ctx s.tree s.report call depth with
    | (t, report, .error e) => (⟨t, rest, report⟩, some e)
    | (t, report, .ok inserted) => (⟨t, discovered t depth inserted ++ rest, report⟩, none)
  else ({ s with pending := rest }, none)

inductive Outcome where
  | finished (tree : Tree) (report : Report)
  /-- A call cannot be done; the tree is the one that it left. -/
  | failed (tree : Tree) (error : Error)
  | unfinished (state : State)

/-- Does calls until none is left, at most `budget` of them. -/
def run (ctx : Context) : (budget : Nat) → State → Outcome
  | budget, s =>
    match s.pending with
    | [] => .finished s.tree s.report
    | (call, depth) :: rest =>
      match budget with
      | 0 => .unfinished s
      | budget + 1 =>
        match next ctx s call depth rest with
        | (s, some e) => .failed s.tree e
        | (s, none) => run ctx budget s

def start (ctx : Context) (t : Tree) : State :=
  ⟨t, (t.atRules ctx.root Keyword.call).map (·, 0), {}⟩

def expand (ctx : Context) (budget : Nat) (t : Tree) : Outcome :=
  run ctx budget (start ctx t)

end StyleMixins.Expansion
