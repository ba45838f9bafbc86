namespace StyleMixins.Path

/-- The texts between slashes; there is always at least one. -/
def splitSlash : List Char → List (List Char)
  | [] => [[]]
  | c :: rest =>
    match c == '/', splitSlash rest with
    | true, parts => [] :: parts
    | false, [] => [[c]]
    | false, part :: parts => (c :: part) :: parts

def parts (path : String) : List String :=
  (splitSlash path.toList).map String.ofList

def isAbsolute (path : String) : Bool :=
  path.toList.head? == some '/'

/-- A part that leaves the place as it is: an empty one, or `.` anywhere but in front. -/
def isIdle (first : Bool) (part : String) : Bool :=
  part.isEmpty || (part == "." && !first)

def dropIdle : List String → List String
  | [] => []
  | first :: rest =>
    match (rest.reverse.dropWhile (isIdle false)).reverse with
    | [] => if isIdle true first then [] else [first]
    | kept => first :: kept

/-- The last part, unless it only names a place relative to another. -/
def fileName? (path : String) : Option String :=
  match (dropIdle (parts path)).getLast? with
  | some name => if name == "." || name == ".." then none else some name
  | none => none

/-- What stands before and after the last dot. A dot in front does not count. -/
def splitDot (name : List Char) : List Char × Option (List Char) :=
  let after := (name.reverse.takeWhile (· ≠ '.')).reverse
  let before := (name.reverse.dropWhile (· ≠ '.')).reverse.dropLast
  if before.isEmpty then (name, none) else (before, some after)

def stem? (path : String) : Option String :=
  (fileName? path).map fun name => String.ofList (splitDot name.toList).1

def extension? (path : String) : Option String :=
  (fileName? path).bind fun name => (splitDot name.toList).2.map String.ofList

/-- The case of an extension does not matter. -/
def lowerExtension (extension : String) : String :=
  String.ofList (extension.toList.map Char.toLower)

def parent? (path : String) : Option String :=
  match dropIdle (parts path) with
  | [] => none
  | kept =>
    if isAbsolute path then
      some ("/" ++ "/".intercalate ((dropIdle kept.dropLast).filter (!·.isEmpty)))
    else some ("/".intercalate (dropIdle kept.dropLast))

def join (base relative : String) : String :=
  if isAbsolute relative || base.isEmpty then relative
  else if base.toList.getLast? == some '/' then base ++ relative
  else base ++ "/" ++ relative

def isHere (path : String) : Bool :=
  dropIdle (parts path) == ["."]

end StyleMixins.Path
