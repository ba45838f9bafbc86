namespace StyleMixins.LineDiff

/-- Adjoining lines, joined. -/
inductive Piece where
  | same (text : String)
  | removed (text : String)
  | added (text : String)
  deriving DecidableEq, Repr

/-- Lengths of common subsequences for the prefixes that end with one line of the first text: `above` are
those for the line before, `corner` and `left` the neighbours of the next cell. -/
def row (line : String) : (corner left : Nat) → List String → (above : List Nat) → List Nat
  | corner, left, other :: others, up :: above =>
    let cell := if line == other then corner + 1 else max left up
    cell :: row line up cell others above
  | _, _, _, _ => []

def rows (others : List String) : (above : List Nat) → List String → List (List Nat)
  | _, [] => []
  | above, line :: lines =>
    let current := row line 0 0 others above
    current :: rows others current lines

/-- Walks back through the table, `width` cells a row, from the last of `n` and of `m` lines. In the first
column the neighbour on the left is the end of the row above. -/
def walk (a b : Array String) (table : Array Nat) (width n m : Nat) (common : List String) :
    List String :=
  match n, m with
  | 0, _ => common
  | _, 0 => common
  | i + 1, j + 1 =>
    let here := a[i]?
    let cell := fun (k : Nat) => table[k]?.getD 0
    if here == b[j]? then walk a b table width i j (here.toList ++ common)
    else if i == 0 && j == 0 then common
    else if i == 0 || cell (i * width + j - 1) > cell ((i - 1) * width + j) then
      walk a b table width (i + 1) j common
    else walk a b table width i (j + 1) common
termination_by n + m

def commonLines (a b : List String) : List String :=
  let table := (rows b (b.map fun _ => 0) a).flatten.toArray
  walk a.toArray b.toArray table b.length a.length b.length []

def untilCommon (common : List String) : List String → List String × List String
  | [] => ([], [])
  | line :: lines =>
    if common.head? == some line then ([], line :: lines)
    else
      let (before, after) := untilCommon common lines
      (line :: before, after)

def sharedFront : (a b common : List String) → List String × List String × List String × List String
  | x :: a, y :: b, z :: common =>
    if x == z && y == z then
      let (front, rest) := sharedFront a b common
      (x :: front, rest)
    else ([], x :: a, y :: b, z :: common)
  | a, b, common => ([], a, b, common)

def piece (make : String → Piece) : List String → List Piece
  | [] => []
  | lines => [make ("\n".intercalate lines)]

/-- Cuts two lists of lines into pieces along their common lines. Each round but the last uses up a line. -/
def cut : (fuel : Nat) → (a b common : List String) → List Piece
  | 0, _, _, _ => []
  | _, [], [], _ => []
  | fuel + 1, a, b, common =>
    let (same, a, b, common) := sharedFront a b common
    let (removed, a) := untilCommon common a
    let (added, b) := untilCommon common b
    piece .same same ++ piece .removed removed ++ piece .added added ++ cut fuel a b common

def lines (text : String) : List String :=
  if text.isEmpty then [] else text.splitToList (· == '\n')

def diff (before after : String) : List Piece :=
  let a := before.splitToList (· == '\n')
  let b := after.splitToList (· == '\n')
  let common := lines ("\n".intercalate (commonLines a b))
  cut (a.length + b.length + 1) (lines before) (lines after) common

end StyleMixins.LineDiff
