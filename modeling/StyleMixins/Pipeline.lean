import StyleMixins.Loading
import StyleMixins.Sheet.Store

namespace StyleMixins

structure Pipeline where
  options : Options := {}
  trace : Bool := false
  /-- At most so many calls are done. -/
  budget : Nat

namespace Pipeline

structure Output where
  css : String
  report : Expansion.Report

inductive Failure where
  | error (e : Error)
  | exhausted

structure Prepared where
  tree : Tree
  outcome : Except Error Registry

/-- Takes the definitions out of a style sheet; the outcome is the registry of all definitions, in which those
of the style sheet have taken the place of loaded ones. When loading fails the style sheet is left alone. -/
def prepare (p : Pipeline) (host : Host) (t : Tree) : Prepared :=
  let loaded := Loading.load host p.options []
  match loaded.outcome with
  | .error e => ⟨t, .error e⟩
  | .ok _ =>
    let harvested := t.harvest Tree.root loaded.registry
    ⟨harvested.tree, harvested.outcome.map fun _ => harvested.registry⟩

def context (p : Pipeline) (registry : Registry) : Expansion.Context :=
  ⟨Tree.root, registry, p.options.settings p.trace⟩

/-- Expands all calls of a style sheet, and numbers the nodes of the result anew. -/
def process (p : Pipeline) (host : Host) (t : Tree) : Except Failure (Tree × Expansion.Report) :=
  let prepared := p.prepare host t
  match prepared.outcome with
  | .error e => .error (.error e)
  | .ok registry =>
    match Expansion.expand (p.context registry) p.budget prepared.tree with
    | .finished t report => .ok (t.compact, report)
    | .failed _ e => .error (.error e)
    | .unfinished _ => .error .exhausted

def processText (p : Pipeline) (host : Host) (source : SourceText) : Except Failure Output :=
  match Sheet.parseTree source with
  | .error e => .error (.error e)
  | .ok t =>
    match p.process host t with
    | .error failure => .error failure
    | .ok (t, report) => .ok ⟨Expansion.snapshot t Tree.root, report⟩

def processFile (p : Pipeline) (host : Host) (path : String) : Except Failure Output :=
  match host.read path with
  | .error cause => .error (.error (.unloadable path "cannot read input" (some cause)))
  | .ok text => p.processText host ⟨path, text⟩

end Pipeline

def expandText (budget : Nat) (text : String) : Except Pipeline.Failure String :=
  (Pipeline.processText ⟨{}, false, budget⟩ {} ⟨Sheet.inlineName, text⟩).map (·.css)

end StyleMixins
