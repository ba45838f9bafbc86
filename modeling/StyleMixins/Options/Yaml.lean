import StyleMixins.Options
import StyleMixins.Yaml.Resolve

namespace StyleMixins.Options.Yaml

open StyleMixins.Yaml (Document Reading Style Tag)

def isAbsent : Yaml.Node → Bool
  | .scalar text style _ => text.isEmpty && style == .plain
  | _ => false

/-- How deep the values of fields may be nested: the options themselves are one level. -/
def fieldDepth : Nat :=
  Yaml.maxDepth - 1

def texts (doc : Document) (n : Yaml.Node) : Reading (List String) := do
  texts? (← Yaml.value doc fieldDepth n)

def mixins (doc : Document) (n : Yaml.Node) : Reading (List (String × Definition)) := do
  match ← doc.follow n with
  | .mapping _ pairs =>
    let fields ← Yaml.fields doc (Yaml.value doc (fieldDepth - 1)) pairs
    (recordMixins fields).toOption
  | n => if isAbsent n then return [] else failure

/-- Where one type is asked for, a plain scalar has it whatever its tag is, and a literal block if it has
the tag of the type. -/
def spells (type : Tag) (style : Style) (tag : Option Tag) : Bool :=
  style == .plain || (style == .literal && tag == some type)

def flag (doc : Document) (n : Yaml.Node) : Reading Bool := do
  match ← doc.follow n with
  | .scalar text style tag => if spells (Tag.core "bool") style tag then Yaml.bool? text else failure
  | _ => failure

def limit? (text : String) : Option Nat :=
  (Yaml.natural? text.toList).bind fun n => if n < Nat.pow 2 64 then some n else none

/-- A plain scalar may also be null, which means no limit. -/
def depth (doc : Document) (n : Yaml.Node) : Reading (Option Nat) := do
  match ← doc.follow n with
  | .scalar text style tag =>
    if style == .plain && tag == some (Tag.core "null") then
      if Yaml.isNull text then return none else failure
    else if style == .plain && tag.isNone && (text.isEmpty || Yaml.isNull text) then return none
    else if spells (Tag.core "int") style tag then return some (← limit? text)
    else failure
  | _ => failure

def field (doc : Document) (o : Options) (f : Field) (n : Yaml.Node) : Reading Options :=
  match f with
  | .directories => return { o with directories := ← texts doc n }
  | .patterns => return { o with patterns := ← texts doc n }
  | .mixins => return { o with mixins := ← mixins doc n }
  | .silent => return { o with silent := ← flag doc n }
  | .maxDepth => return { o with maxDepth := ← depth doc n }

/-- The fields of a mapping, each at most once; `left` are those that have not come yet. -/
def object (doc : Document) (o : Options) (left : List Field) :
    List (Yaml.Node × Yaml.Node) → Reading Options
  | [] => return o
  | (key, n) :: rest => do
    let f ← Field.ofName? (← Yaml.keyText doc key)
    if left.contains f then object doc (← field doc o f n) (left.erase f) rest
    else failure

def options (doc : Document) : Reading Options := do
  match ← doc.follow doc.root with
  | .mapping _ pairs => object doc {} Field.all pairs
  | n => if isAbsent n then return {} else failure

def read (text : String) : Option Options :=
  match Yaml.document text with
  | none => none
  | some none => some {}
  | some (some doc) => doc.run (options doc)

end StyleMixins.Options.Yaml
