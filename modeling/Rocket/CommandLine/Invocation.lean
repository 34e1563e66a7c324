import Rocket.Text.Decimal

/-!
# Invocations

What a command line asks for: to run a program, to check it, to draw a level's
board, or to tell the version. The word for the task comes first; options may stand
before and behind the file.
-/

namespace Rocket

/-- What to do. -/
inductive Invocation where
  | run (file : String) (level? : Option String) (delay? : Option Nat) (strict json : Bool)
  | check (file : String) (strict : Bool)
  | render (level? : Option String)
  | version
  deriving DecidableEq

namespace Invocation

/-- An option that is given or not. -/
inductive Switch where
  | strict
  | json
  deriving DecidableEq

/-- An option with a value. -/
inductive Parameter where
  | level
  | delay
  deriving DecidableEq

/-- An argument by its form. -/
inductive Argument where
  | file (path : String)
  /-- All further arguments are files. -/
  | filesOnly
  | switch (s : Switch)
  /-- An option with its value, or with its value in the next argument. -/
  | parameter (p : Parameter) (value? : Option String)
  | unknown
  deriving DecidableEq

/-- An option's name and the value attached to it behind an equals sign. -/
def splitValue (cs : List Char) : List Char × Option (List Char) :=
  match cs.dropWhile (· != '=') with
  | [] => (cs, none)
  | _ :: value => (cs.takeWhile (· != '='), some value)

/-- An option with a long name. A switch takes no value. -/
def longOption (cs : List Char) : Argument :=
  match splitValue cs with
  | (name, value?) =>
      match String.ofList name, value? with
      | "strict", none => .switch .strict
      | "json", none => .switch .json
      | "config", _ => .parameter .level (value?.map String.ofList)
      | "delay-ms", _ => .parameter .delay (value?.map String.ofList)
      | _, _ => .unknown

/-- The form of an argument. -/
def Argument.ofChars : List Char → Argument
  | ['-', '-'] => .filesOnly
  | '-' :: '-' :: option => longOption option
  | ['-', 'c'] => .parameter .level none
  | '-' :: 'c' :: '=' :: value => .parameter .level (some (String.ofList value))
  | '-' :: 'c' :: value => .parameter .level (some (String.ofList value))
  | ['-'] => .file "-"
  | '-' :: _ => .unknown
  | path => .file (String.ofList path)

/-- Whether an argument cannot be the value of the option before it. -/
def startsOption (arg : String) : Bool :=
  match arg.toList with
  | '-' :: _ :: _ => true
  | _ => false

/-- What the arguments behind the first say. -/
structure Options where
  file? : Option String
  level? : Option String
  delay? : Option Nat
  strict : Bool
  json : Bool

/-- Which options a task has. -/
structure Accepts where
  file : Bool
  switch : Switch → Bool
  parameter : Parameter → Bool

namespace Options

def none : Options :=
  ⟨.none, .none, .none, false, false⟩

/-- The options with a file. There is at most one, and its name is not empty. -/
def addFile (accepts : Accepts) (options : Options) (path : String) : Option Options :=
  if accepts.file ∧ options.file?.isNone ∧ path ≠ "" then
    some { options with file? := some path }
  else .none

/-- The options with a switch. It can be given once. -/
def addSwitch (accepts : Accepts) (options : Options) (s : Switch) : Option Options :=
  if accepts.switch s then
    match s with
    | .strict => if options.strict then .none else some { options with strict := true }
    | .json => if options.json then .none else some { options with json := true }
  else .none

/-- The number of milliseconds that a text stands for. -/
def delayOfText? (text : String) : Option Nat :=
  Text.natBelow? UInt64.size text.toList

/-- The options with a parameter. It can be given once. -/
def addParameter (accepts : Accepts) (options : Options) (p : Parameter) (value : String) :
    Option Options :=
  if accepts.parameter p then
    match p with
    | .level =>
        if options.level?.isSome ∨ value = "" then .none
        else some { options with level? := some value }
    | .delay =>
        if options.delay?.isSome then .none
        else (delayOfText? value).map fun delay => { options with delay? := some delay }
  else .none

/-- The options that arguments spell out, behind those already read. -/
def ofArguments? (accepts : Accepts) : Options → List String → Option Options
  | options, [] => some options
  | options, arg :: rest =>
      match Argument.ofChars arg.toList with
      | .file path => do ofArguments? accepts (← options.addFile accepts path) rest
      | .filesOnly => rest.foldlM (addFile accepts) options
      | .switch s => do ofArguments? accepts (← options.addSwitch accepts s) rest
      | .parameter p (some value) => do
          ofArguments? accepts (← options.addParameter accepts p value) rest
      | .parameter p .none =>
          match rest with
          | [] => .none
          | value :: rest =>
              if startsOption value then .none
              else do ofArguments? accepts (← options.addParameter accepts p value) rest
      | .unknown => .none

end Options

def runAccepts : Accepts :=
  ⟨true, fun _ => true, fun _ => true⟩

def checkAccepts : Accepts :=
  ⟨true, (· = .strict), fun _ => false⟩

def renderAccepts : Accepts :=
  ⟨false, fun _ => false, (· = .level)⟩

/-- Whether the first argument asks for the version. -/
def asksVersion (arg : String) : Bool :=
  arg = "--version" ∨ arg.toList.take 2 = ['-', 'V']

/-- What the arguments ask for; nothing if they are not understood. -/
def ofArguments? : List String → Option Invocation
  | [] => none
  | "run" :: args => do
      let options ← Options.ofArguments? runAccepts .none args
      return .run (← options.file?) options.level? options.delay? options.strict options.json
  | "check" :: args => do
      let options ← Options.ofArguments? checkAccepts .none args
      return .check (← options.file?) options.strict
  | "render" :: args => do
      let options ← Options.ofArguments? renderAccepts .none args
      return .render options.level?
  | arg :: _ => if asksVersion arg then some .version else none

/-- The files that have to be read. -/
def files : Invocation → List String
  | .run file level? _ _ _ => level?.toList ++ [file]
  | .check file _ => [file]
  | .render level? => level?.toList
  | .version => []

end Invocation

end Rocket
