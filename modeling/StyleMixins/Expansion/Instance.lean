import StyleMixins.Call.Binding
import StyleMixins.Mixin.Harvest
import StyleMixins.Record.Fragment
import StyleMixins.Substitution

namespace StyleMixins

namespace Tree

/-- Puts nodes in front of `anchor` in order: the nodes themselves if `own`, copies of them otherwise.
Gives the nodes that were put there. -/
def placeContent (t : Tree) (anchor : NodeId) (own : Bool) : List NodeId → Tree × List NodeId
  | [] => (t, [])
  | id :: rest =>
    match if own then some (t, id) else t.copy? id with
    | none => t.placeContent anchor own rest
    | some (t, placed) =>
      match (t.insertBefore anchor placed).1.placeContent anchor own rest with
      | (t, more) => (t, placed :: more)

/-- Replaces each placeholder by the content. The first gets the nodes themselves, the others copies. -/
def fillPlaceholders (t : Tree) (content : List NodeId) (own : Bool) :
    (placeholders : List NodeId) → Tree × List NodeId
  | [] => (t, [])
  | p :: rest =>
    match t.placeContent p own content with
    | (t, placed) =>
      match (t.detach p).fillPlaceholders content false rest with
      | (t, more) => (t, placed ++ more)

/-- Puts the arguments of a call in the texts of a new instance. Without parameters the texts are left alone, so
that `$` in them stays as it is. -/
def bindBelow (t : Tree) (proxy : NodeId) (m : BlockMixin) (arguments : List Call.Argument) : Tree :=
  if m.parameters.isEmpty then t
  else t.substituteBelow proxy (Call.bindArguments m.parameters m.variadic arguments)

/-- Adds an instance of a mixin that hangs from nothing: its body is added, the arguments are put in its texts, and
then the children of the call at its placeholders. Gives its root and the nodes put at placeholders. -/
def materialize (t : Tree) (m : BlockMixin) (call : NodeId) (arguments : List Call.Argument) :
    Tree × NodeId × List NodeId :=
  match t.graft m.body with
  | (t, proxy) =>
    let t := t.bindBelow proxy m arguments
    if m.acceptsContent then
      match t.fillPlaceholders (t.children call) true (t.atRules proxy Keyword.placeholder) with
      | (t, placed) => (t, proxy, placed)
    else (t, proxy, [])

def insertInPlace (t : Tree) (call proxy : NodeId) : Tree :=
  (t.children proxy).foldl (fun t id => (t.insertBefore call id).1) t

/-- What replaced a call: the nodes in its place, and those among and below them that came from inside
the call. -/
structure Inserted where
  nodes : List NodeId := []
  content : List NodeId := []

def replaceByRecord (t : Tree) (call : NodeId) (fields : Record) : Tree × Inserted :=
  match t.graft (Record.fragment fields (t.source? call)) with
  | (t, proxy) => ((t.insertInPlace call proxy).detach call, { nodes := t.children proxy })

def replaceByBlock (t : Tree) (call : NodeId) (m : BlockMixin) (arguments : List Call.Argument) :
    Tree × Inserted :=
  match t.materialize m call arguments with
  | (t, proxy, placed) =>
    ((t.insertInPlace call proxy).detach call, { nodes := t.children proxy, content := placed })

/-- Replaces a call by what a definition gives for it. Gives the store that is left, and what was put there or
why nothing was. -/
def replaceCall (t : Tree) (call : NodeId) (name : String) (arguments : List Call.Argument) :
    Definition → Tree × Except Error Inserted
  | .block m => (t.replaceByBlock call m arguments).map id .ok
  | .record fields => (t.replaceByRecord call fields).map id .ok
  | .callback run =>
    match run ⟨t, call, name, arguments⟩ with
    | .error e => (t, .error e)
    | .ok none => (t.detach call, .ok {})
    | .ok (some fields) => (t.replaceByRecord call fields).map id .ok

end Tree

end StyleMixins
