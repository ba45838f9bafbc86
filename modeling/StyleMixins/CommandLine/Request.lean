namespace StyleMixins.CommandLine

inductive Action where
  | expand
  | trace
  | list
  deriving DecidableEq, Repr

def Action.ofName? : String → Option Action
  | "expand" => some .expand
  | "trace" => some .trace
  | "list" => some .list
  | _ => none

inductive Choice where
  | config
  | output
  | directory
  | pattern
  | silent
  | maxDepth
  | noDepthLimit
  deriving DecidableEq, Repr

namespace Choice

def long : Choice → String
  | config => "config"
  | output => "output"
  | directory => "mixins-dir"
  | pattern => "mixins-files"
  | silent => "silent"
  | maxDepth => "max-depth"
  | noDepthLimit => "no-depth-limit"

def short? : Choice → Option Char
  | config => some 'c'
  | output => some 'o'
  | _ => none

def takesValue : Choice → Bool
  | silent | noDepthLimit => false
  | _ => true

def repeats : Choice → Bool
  | directory | pattern => true
  | _ => false

/-- The choices of an action; only expansion has an output file. -/
def ofAction : Action → List Choice
  | .expand => [config, output, directory, pattern, silent, maxDepth, noDepthLimit]
  | _ => [config, directory, pattern, silent, maxDepth, noDepthLimit]

end Choice

def number? (s : String) : Option Nat :=
  let digits := match s.toList with
    | '+' :: rest => rest
    | cs => cs
  if digits.isEmpty || !digits.all Char.isDigit then none
  else
    let n := digits.foldl (fun n c => n * 10 + (c.toNat - 48)) 0
    if n < Nat.pow 2 64 then some n else none

/-- Whether a value may be given. Only a pattern may be empty. -/
def Choice.accepts (c : Choice) (value : String) : Bool :=
  match c with
  | pattern | silent | noDepthLimit => true
  | maxDepth => (number? value).isSome
  | config | output | directory => !value.isEmpty

inductive Stop where
  | help
  | bad
  deriving DecidableEq, Repr

structure Arguments where
  choices : List (Choice × String) := []
  file : Option String := none
  deriving DecidableEq, Repr

namespace Arguments

def values (a : Arguments) (c : Choice) : List String :=
  (a.choices.filter (·.1 == c)).map Prod.snd

def value? (a : Arguments) (c : Choice) : Option String :=
  (a.values c).head?

def has (a : Arguments) (c : Choice) : Bool :=
  !(a.values c).isEmpty

/-- Adds a choice. Its value must be accepted, and nothing single comes twice. -/
def choose (a : Arguments) (c : Choice) (value : String) : Except Stop Arguments :=
  if c.accepts value && (c.repeats || !a.has c) then
    .ok { a with choices := a.choices ++ [(c, value)] }
  else .error .bad

def addFile (a : Arguments) (file : String) : Except Stop Arguments :=
  if a.file.isNone && !file.isEmpty then .ok { a with file := some file } else .error .bad

end Arguments

/-- An argument that starts with a dash, a dash alone apart, is no value. -/
def isValue (argument : String) : Bool :=
  match argument.toList with
  | '-' :: _ :: _ => false
  | _ => true

def splitEquals (cs : List Char) : String × Option String :=
  let name := String.ofList (cs.takeWhile (· ≠ '='))
  match cs.dropWhile (· ≠ '=') with
  | [] => (name, none)
  | _ :: value => (name, some (String.ofList value))

/-- What the letters of a short option say: a choice and the value joined to it. -/
def shortChoice (known : List Choice) (cs : List Char) : Except Stop (Choice × Option String) :=
  match cs with
  | [] => .error .bad
  | c :: rest =>
    match known.find? fun k => k.short? == some c with
    | some k =>
      let value := match rest with
        | [] => none
        | '=' :: value => some (String.ofList value)
        | value => some (String.ofList value)
      .ok (k, value)
    | none => if c == 'h' then .error .help else .error .bad

def longChoice (known : List Choice) (cs : List Char) : Except Stop (Choice × Option String) :=
  let (name, value) := splitEquals cs
  match known.find? fun k => k.long == name with
  | some k => .ok (k, value)
  | none => if name == "help" && value.isNone then .error .help else .error .bad

def choice? (known : List Choice) (argument : String) :
    Except Stop (Option (Choice × Option String)) :=
  match argument.toList with
  | '-' :: '-' :: name => (longChoice known name).map some
  | '-' :: c :: letters => (shortChoice known (c :: letters)).map some
  | _ => .ok none

/-- Sorts arguments, up to the first that is bad. A value is joined to its option or is the next argument;
after `--` there are no more options. -/
def sort (known : List Choice) (a : Arguments) : List String → Except Stop Arguments
  | [] => .ok a
  | "--" :: rest => rest.foldlM Arguments.addFile a
  | argument :: rest =>
    match choice? known argument with
    | .error stop => .error stop
    | .ok none => do sort known (← a.addFile argument) rest
    | .ok (some (c, value)) =>
      match c.takesValue, value, rest with
      | false, none, rest => do sort known (← a.choose c "") rest
      | true, some v, rest => do sort known (← a.choose c v) rest
      | true, none, v :: rest => do
        if isValue v then sort known (← a.choose c v) rest else .error .bad
      | _, _, _ => .error .bad

structure Input where
  file : String
  config : Option String
  directories : List String
  patterns : List String
  silent : Bool
  maxDepth : Option Nat
  noDepthLimit : Bool
  deriving DecidableEq, Repr

inductive Request where
  | version
  | help
  | expand (input : Input) (output : Option String)
  | trace (input : Input)
  | list (input : Input)
  deriving DecidableEq, Repr

namespace Request

/-- The request of an action with sorted arguments. There is at most one word on depth. -/
def ofArguments (action : Action) (a : Arguments) : Option Request :=
  match a.file with
  | none => none
  | some file =>
    if a.has .maxDepth && a.has .noDepthLimit then none
    else
      let input : Input := {
        file := file
        config := a.value? .config
        directories := a.values .directory
        patterns := a.values .pattern
        silent := a.has .silent
        maxDepth := (a.value? .maxDepth).bind number?
        noDepthLimit := a.has .noDepthLimit }
      some (match action with
        | .expand => .expand input (a.value? .output)
        | .trace => .trace input
        | .list => .list input)

/-- Whether help on something can be asked for: on all, on one action or on help itself. -/
def isHelpTopic : List String → Bool
  | [] => true
  | [topic] => topic == "help" || (Action.ofName? topic).isSome
  | _ => false

def parse : List String → Option Request
  | [] => none
  | first :: rest =>
    match Action.ofName? first with
    | some action =>
      match sort (Choice.ofAction action) {} rest with
      | .ok a => ofArguments action a
      | .error .help => some .help
      | .error .bad => none
    | none =>
      match first.toList with
      | '-' :: 'V' :: _ => some .version
      | '-' :: 'h' :: _ => some .help
      | _ =>
        if first == "--version" then some .version
        else if first == "--help" || (first == "help" && isHelpTopic rest) then some .help
        else none

end Request

end StyleMixins.CommandLine
