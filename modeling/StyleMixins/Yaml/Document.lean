import StyleMixins.Yaml.Node
import StyleMixins.Yaml.Scan

namespace StyleMixins.Yaml

/-- The tokens still to be read, the handles of tags, and what is known of anchors. -/
structure Reader where
  tokens : List Token
  handles : Entries Tag
  /-- The number that each anchor has. -/
  anchors : Entries Nat := []
  /-- The numbers of the nodes with an anchor, and how many such nodes had started before each of them. The
  latest comes first. -/
  started : List (Nat × Nat) := []
  /-- Those nodes as far as they have been read, each with how many had started before it. -/
  finished : List (Nat × Node) := []

namespace Reader

def next (r : Reader) : Option Token :=
  r.tokens.head?

def skip (r : Reader) : Reader :=
  { r with tokens := r.tokens.drop 1 }

def isAt (r : Reader) (ts : List Token) : Bool :=
  r.next.any ts.contains

def properties (r : Reader) : Option String × Option TagSpelling × Reader :=
  match r.tokens with
  | .anchor a :: .tag t :: rest => (some a, some t, { r with tokens := rest })
  | .tag t :: .anchor a :: rest => (some a, some t, { r with tokens := rest })
  | .anchor a :: rest => (some a, none, { r with tokens := rest })
  | .tag t :: rest => (none, some t, { r with tokens := rest })
  | _ => (none, none, r)

/-- Makes an anchor known where its node starts. Its number is how many names were known before, so a name
that comes again leaves its number to the name after it. Gives how many nodes with an anchor had started. -/
def start (r : Reader) : Option String → Option Nat × Reader
  | some name =>
    let number := r.anchors.length
    let place := r.started.length
    (some place,
      { r with anchors := r.anchors.put name number, started := (number, place) :: r.started })
  | none => (none, r)

def finish (r : Reader) (place : Option Nat) (n : Node) : Reader :=
  match place with
  | some place => { r with finished := (place, n) :: r.finished }
  | none => r

/-- What aliases stand for: of several nodes with one number the one that started last. -/
def targets (r : Reader) : List (Nat × Node) :=
  r.started.filterMap fun (number, place) => (r.finished.lookup place).map (number, ·)

def tag? (r : Reader) : Option TagSpelling → Option (Option Tag)
  | none => some none
  | some spelling => (spelling.resolve? r.handles).map some

end Reader

/-- What ends an item that is not written. -/
def mappingStops : List Token := [.key, .value, .blockEnd]

mutual

/-- A node. In a block it may be a block collection, and after a key also a sequence whose dashes stand
at the column of the key. -/
def node (inBlock bareSequence : Bool) : (fuel : Nat) → Reader → Option (Node × Reader)
  | 0, _ => none
  | fuel + 1, r =>
    match r.next with
    | some (.alias name) => (r.anchors.find? name).map fun number => (.alias number, r.skip)
    | _ => do
      let (anchor, spelling, r) := r.properties
      let (place, r) := r.start anchor
      let tag ← r.tag? spelling
      let done := fun (n : Node) (r : Reader) => some (n, r.finish place n)
      match r.next with
      | some (.scalar text style) =>
        let tag := if tag == some Tag.unspecific then none else tag
        done (.scalar text style tag) r.skip
      | some .flowSequence => do
        let (items, r) ← flowItems true fuel r.skip
        done (.sequence tag items) r
      | some .flowMapping => do
        let (pairs, r) ← flowPairs true fuel r.skip
        done (.mapping tag pairs) r
      | t =>
        if bareSequence && t == some .blockEntry then do
          let (items, r) ← bareItems fuel r
          done (.sequence tag items) r
        else if inBlock && t == some .blockSequence then do
          let (items, r) ← blockItems fuel r.skip
          done (.sequence tag items) r
        else if inBlock && t == some .blockMapping then do
          let (pairs, r) ← blockPairs fuel r.skip
          done (.mapping tag pairs) r
        else if anchor.isSome || tag.isSome then done (.scalar "" .plain tag) r
        else none

def optional (stops : List Token) (inBlock bareSequence : Bool) :
    (fuel : Nat) → Reader → Option (Node × Reader)
  | 0, _ => none
  | fuel + 1, r => if r.isAt stops then some (.absent, r) else node inBlock bareSequence fuel r

def blockItems : (fuel : Nat) → Reader → Option (List Node × Reader)
  | 0, _ => none
  | fuel + 1, r =>
    match r.next with
    | some .blockEntry => do
      let (item, r) ← optional [.blockEntry, .blockEnd] true false fuel r.skip
      let (items, r) ← blockItems fuel r
      return (item :: items, r)
    | some .blockEnd => some ([], r.skip)
    | _ => none

def bareItems : (fuel : Nat) → Reader → Option (List Node × Reader)
  | 0, _ => none
  | fuel + 1, r =>
    match r.next with
    | some .blockEntry => do
      let (item, r) ← optional (.blockEntry :: mappingStops) true false fuel r.skip
      let (items, r) ← bareItems fuel r
      return (item :: items, r)
    | _ => some ([], r)

def blockPairs : (fuel : Nat) → Reader → Option (List (Node × Node) × Reader)
  | 0, _ => none
  | fuel + 1, r =>
    match r.next with
    | some .key => do
      let (key, r) ← optional mappingStops true true fuel r.skip
      let (value, r) ←
        if r.isAt [.value] then optional mappingStops true true fuel r.skip else some (.absent, r)
      let (pairs, r) ← blockPairs fuel r
      return ((key, value) :: pairs, r)
    | some .blockEnd => some ([], r.skip)
    | _ => none

/-- The value of a pair in a flow collection that ends with the given token. -/
def flowValue (close : Token) : (fuel : Nat) → Reader → Option (Node × Reader)
  | 0, _ => none
  | fuel + 1, r =>
    if r.isAt [.value] then optional [.flowEntry, close] false false fuel r.skip else some (.absent, r)

/-- A pair as an item of a sequence. Where its key is not written, the token that shows it is passed over. -/
def flowPair : (fuel : Nat) → Reader → Option (Node × Reader)
  | 0, _ => none
  | fuel + 1, r => do
    let (key, r) ←
      if r.isAt [.value, .flowEntry, .flowSequenceEnd] then some (.absent, r.skip)
      else node false false fuel r
    let (value, r) ← flowValue .flowSequenceEnd fuel r
    return (.mapping none [(key, value)], r)

def flowItems (first : Bool) : (fuel : Nat) → Reader → Option (List Node × Reader)
  | 0, _ => none
  | fuel + 1, r => do
    if r.isAt [.flowSequenceEnd] then return ([], r.skip)
    let r ← if first then some r else if r.isAt [.flowEntry] then some r.skip else none
    if r.isAt [.flowSequenceEnd] then return ([], r.skip)
    let (item, r) ← if r.isAt [.key] then flowPair fuel r.skip else node false false fuel r
    let (items, r) ← flowItems false fuel r
    return (item :: items, r)

def flowPairs (first : Bool) : (fuel : Nat) → Reader → Option (List (Node × Node) × Reader)
  | 0, _ => none
  | fuel + 1, r => do
    if r.isAt [.flowMappingEnd] then return ([], r.skip)
    let r ← if first then some r else if r.isAt [.flowEntry] then some r.skip else none
    if r.isAt [.flowMappingEnd] then return ([], r.skip)
    if r.isAt [.key] then
      let (key, r) ← optional [.value, .flowEntry, .flowMappingEnd] false false fuel r.skip
      let (value, r) ← flowValue .flowMappingEnd fuel r
      let (pairs, r) ← flowPairs false fuel r
      return ((key, value) :: pairs, r)
    else
      let (key, r) ← node false false fuel r
      let (pairs, r) ← flowPairs false fuel r
      return ((key, .absent) :: pairs, r)

end

def rootNode (r : Reader) : Option (Node × Reader) :=
  node true false (4 * r.tokens.length + 4) r

/-- The root node behind a document start, where it may be missing. -/
def content (r : Reader) : Option (Node × Reader) :=
  match r.next with
  | none | some .documentStart | some .documentEnd | some (.directive _) => some (.absent, r)
  | _ => rootNode r

def directives : List Token → List Directive × List Token
  | .directive d :: rest =>
    let (ds, rest) := directives rest
    (d :: ds, rest)
  | ts => ([], ts)

def document (text : String) : Option (Option Document) := do
  let ts ← tokens text
  if ts.isEmpty then return none
  let (ds, rest) := directives ts
  let r : Reader := { tokens := rest, handles := ← Directive.handles? false [] ds }
  let (root, r) ←
    if r.isAt [.documentStart] then content r.skip
    else if ds.isEmpty then rootNode r
    else none
  if r.tokens.all (· == Token.documentEnd) then return some { root := root, targets := r.targets }
  else none

end StyleMixins.Yaml
