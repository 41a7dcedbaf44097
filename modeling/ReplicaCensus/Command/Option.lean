import ReplicaCensus.Number.Reading
import ReplicaCensus.Number.Shortest
import ReplicaCensus.OrderedMap
import ReplicaCensus.Text.Lines
/-!
# Command-line options -- what a program takes, and how its arguments are read

Options have long names, which may be cut short as long as only one option fits; a value stands
behind its option or behind an equals sign. An argument that starts with a dash is an option unless
it is a dash alone, a negative number, or has a space in it and fits no option. Arguments are
classified first, all of them, and then taken one after the other.
-/

namespace ReplicaCensus.Command

/-- What the value of an option has to be. -/
inductive ValueKind where
  | text
  | integer
  | number
  | oneOf (choices : List String)
  deriving DecidableEq, Repr

/-- What an option does. -/
inductive OptionKind where
  | help
  | flag
  | value (kind : ValueKind)
  deriving DecidableEq, Repr

/-- An option with its names, the last of which it is looked up by. -/
structure OptionSpec where
  names : List String
  kind : OptionKind
  required : Bool
  deriving DecidableEq, Repr

namespace OptionSpec

def display (o : OptionSpec) : String := String.intercalate "/" o.names

def key (o : OptionSpec) : String := o.names.getLastD ""

def help : OptionSpec := ⟨["-h", "--help"], .help, false⟩

def flag (name : String) : OptionSpec := ⟨[name], .flag, false⟩

def optional (name : String) (kind : ValueKind) : OptionSpec := ⟨[name], .value kind, false⟩

def mandatory (name : String) (kind : ValueKind) : OptionSpec := ⟨[name], .value kind, true⟩

end OptionSpec

/-- A value that was read. -/
inductive OptionValue where
  | present
  | text (s : String)
  | integer (n : Int)
  | number (x : Double)
  deriving DecidableEq, Repr

/-- What is wrong with a command line. -/
inductive UsageError where
  | ambiguous (argument : String) (fitting : List String)
  | expectedValue (option : OptionSpec)
  | badInteger (option : OptionSpec) (text : String)
  | badNumber (option : OptionSpec) (text : String)
  | badChoice (option : OptionSpec) (text : String) (choices : List String)
  | ignoredValue (option : OptionSpec) (text : String)
  | missing (options : List OptionSpec)
  | unrecognized (arguments : List String)
  | tooSmall (name : String) (least given : Int)
  | notPositive (name : String)
  deriving DecidableEq, Repr

namespace UsageError

def message : UsageError → String
  | ambiguous argument fitting =>
    "ambiguous option: " ++ argument ++ " could match " ++ String.intercalate ", " fitting
  | expectedValue option => "argument " ++ option.display ++ ": expected one argument"
  | badInteger option text =>
    "argument " ++ option.display ++ ": invalid int value: " ++ Text.quoted text
  | badNumber option text =>
    "argument " ++ option.display ++ ": invalid float value: " ++ Text.quoted text
  | badChoice option text choices =>
    "argument " ++ option.display ++ ": invalid choice: " ++ Text.quoted text ++
      " (choose from " ++ String.intercalate ", " (choices.map Text.quoted) ++ ")"
  | ignoredValue option text =>
    "argument " ++ option.display ++ ": ignored explicit argument " ++ Text.quoted text
  | missing options =>
    "the following arguments are required: " ++
      String.intercalate ", " (options.map OptionSpec.display)
  | unrecognized arguments => "unrecognized arguments: " ++ String.intercalate " " arguments
  | tooSmall name least given =>
    name ++ " must be at least " ++ toString least ++ ", got " ++ toString given
  | notPositive name => name ++ " must be positive"

end UsageError

/-- Why a program does not get its options: help was asked for, or the usage is wrong. -/
inductive CommandStop where
  | help
  | usage (error : UsageError)
  deriving DecidableEq, Repr

namespace CommandStop

def exitStatus : CommandStop → Nat
  | help => 0
  | usage _ => 2

def report? (program : String) : CommandStop → Option String
  | help => none
  | usage error => some (program ++ ": error: " ++ error.message)

end CommandStop

/-! ## 1. Classifying arguments -/

/-- What stands in one argument with the name of an option: a text behind an equals sign, or one
that follows a one-letter option at once. -/
inductive Attachment where
  | behindEquals (text : String)
  | joined (text : String)
  deriving DecidableEq, Repr

namespace Attachment

def text : Attachment → String
  | behindEquals text => text
  | joined text => text

end Attachment

/-- What an argument is. -/
inductive Argument where
  | operand
  | endOfOptions
  | unknownOption
  | option (spec : OptionSpec) (attached : Option Attachment)
  deriving DecidableEq, Repr

abbrev NameTable := List (String × OptionSpec)

def nameTable (specs : List OptionSpec) : NameTable :=
  specs.flatMap fun spec => spec.names.map fun name => (name, spec)

/-- Whether a text is a dash with a whole number or a decimal fraction behind it. -/
def isNegativeNumber (cs : List Char) : Bool :=
  let isDigit (c : Char) : Bool := (Text.digitValue? c).isSome
  match cs with
  | '-' :: rest =>
    -- one line feed at the end counts for nothing
    let rest := if rest.getLast? = some '\n' then rest.dropLast else rest
    let whole := rest.takeWhile isDigit
    match rest.dropWhile isDigit with
    | [] => !whole.isEmpty
    | '.' :: fraction => !fraction.isEmpty && fraction.all isDigit
    | _ => false
  | _ => false

def startsWith (short long : String) : Bool := short.toList.isPrefixOf long.toList

/-- The names that an argument may be a shorter form of, with their options and what is attached. A
text with a single dash may also be a one-letter option with something attached. -/
def fitting (table : NameTable) (argument : String) :
    List (String × OptionSpec × Option Attachment) :=
  match argument.toList with
  | '-' :: '-' :: _ =>
    -- only what stands before the equals sign has to fit
    let (before, attached) := Text.cutAt '=' argument.toList
    (table.filter fun e => startsWith (String.ofList before) e.1).map fun e =>
      (e.1, e.2, attached.map fun text => .behindEquals (String.ofList text))
  | cs =>
    table.filterMap fun e =>
      if e.1 = String.ofList (cs.take 2) then
        some (e.1, e.2, some (.joined (String.ofList (cs.drop 2))))
      else if startsWith argument e.1 then some (e.1, e.2, none)
      else none

/-- The option whose full name stands before the first equals sign. -/
def beforeEquals? (table : NameTable) (argument : String) : Option Argument :=
  match Text.cutAt '=' argument.toList with
  | (_, none) => none
  | (before, some text) =>
    (OrderedMap.find (String.ofList before) table).map fun spec =>
      .option spec (some (.behindEquals (String.ofList text)))

/-- Classifies an argument that starts with a dash and is no option by its full name. -/
def classifyShort (table : NameTable) (argument : String) : Except UsageError Argument :=
  match fitting table argument with
  | [(_, spec, attached)] => .ok (.option spec attached)
  -- what fits nothing may still be meant as a value
  | [] =>
    if isNegativeNumber argument.toList || argument.toList.contains ' ' then .ok .operand
    else .ok .unknownOption
  | several => .error (.ambiguous argument (several.map Prod.fst))

def classify (table : NameTable) (argument : String) : Except UsageError Argument :=
  if argument = "--" then .ok .endOfOptions
  else if argument = "-" ∨ argument.toList.head? ≠ some '-' then .ok .operand
  else
    match OrderedMap.find argument table with
    | some spec => .ok (.option spec none)
    | none =>
      -- a full name before an equals sign comes before shorter forms of others
      match beforeEquals? table argument with
      | some found => .ok found
      | none => classifyShort table argument

/-- Classifies arguments; behind the end of the options all are operands. -/
def classifyAll (table : NameTable) :
    List String → Except UsageError (List (String × Argument))
  | [] => .ok []
  | argument :: rest =>
    match classify table argument with
    | .error e => .error e
    | .ok .endOfOptions =>
      .ok ((argument, .endOfOptions) :: rest.map fun operand => (operand, .operand))
    | .ok kind => (classifyAll table rest).map ((argument, kind) :: ·)

/-! ## 2. Taking arguments -/

def readValue (spec : OptionSpec) (kind : ValueKind) (text : String) :
    Except UsageError OptionValue :=
  match kind with
  | .text => .ok (.text text)
  | .integer =>
    match Number.readInteger text with
    | .ok n => .ok (.integer n)
    | .error _ => .error (.badInteger spec text)
  | .number =>
    match Number.readDouble text with
    | some x => .ok (.number x)
    | none => .error (.badNumber spec text)
  | .oneOf choices =>
    if choices.contains text then .ok (.text text) else .error (.badChoice spec text choices)

/-- The options taken so far, each by its key, and the arguments that fit nowhere. -/
structure Taken where
  values : List (String × OptionValue)
  extras : List String

def Taken.add (taken : Taken) (spec : OptionSpec) (value : OptionValue) : Taken :=
  { taken with values := taken.values ++ [(spec.key, value)] }

/-- What a text that follows `-h` at once leaves to complain about. The letter may be repeated, and
any other letter would be an option of its own, of which there is none; a dash or an equals sign
begins a value. -/
def refusedAfterHelp : List Char → Option (List Char)
  | [] => none
  | c :: rest =>
    if c = '-' then some (c :: rest)
    else if c = 'h' then
      match rest with
      | '=' :: text => some text
      | rest => refusedAfterHelp rest
    else none

def attachedToFlag (spec : OptionSpec) : Attachment → CommandStop
  | .behindEquals text => .usage (.ignoredValue spec text)
  | .joined text =>
    match refusedAfterHelp text.toList with
    | some text => .usage (.ignoredValue spec (String.ofList text))
    | none => .help

def take : List (String × Argument) → Taken → Except CommandStop Taken
  | [], taken => .ok taken
  | (argument, kind) :: rest, taken =>
    match kind with
    | .operand | .endOfOptions | .unknownOption =>
      take rest { taken with extras := taken.extras ++ [argument] }
    | .option spec attached =>
      match spec.kind, attached with
      | .help, none => .error .help
      | .flag, none => take rest (taken.add spec .present)
      | .help, some attachment => .error (attachedToFlag spec attachment)
      | .flag, some attachment => .error (attachedToFlag spec attachment)
      | .value valueKind, some attachment =>
        match readValue spec valueKind attachment.text with
        | .error e => .error (.usage e)
        | .ok value => take rest (taken.add spec value)
      | .value valueKind, none =>
        -- the value is the next argument, unless that is an option or ends the options
        match rest with
        | (text, .operand) :: rest =>
          match readValue spec valueKind text with
          | .error e => .error (.usage e)
          | .ok value => take rest (taken.add spec value)
        | _ => .error (.usage (.expectedValue spec))

/-! ## 3. Options given -/

/-- The options that were given, in order, each by its key. -/
structure Given where
  values : List (String × OptionValue)

namespace Given

def last? (g : Given) (key : String) : Option OptionValue :=
  (g.values.reverse.find? fun e => e.1 = key).map Prod.snd

def has (g : Given) (key : String) : Bool := (g.last? key).isSome

def text? (g : Given) (key : String) : Option String :=
  match g.last? key with
  | some (.text s) => some s
  | _ => none

def integer? (g : Given) (key : String) : Option Int :=
  match g.last? key with
  | some (.integer n) => some n
  | _ => none

def number? (g : Given) (key : String) : Option Double :=
  match g.last? key with
  | some (.number x) => some x
  | _ => none

def texts (g : Given) (key : String) : List String :=
  g.values.filterMap fun e =>
    match e.2 with
    | .text s => if e.1 = key then some s else none
    | _ => none

end Given

/-- Reads a command line: every required option has to be there, and nothing may be left. -/
def readOptions (specs : List OptionSpec) (arguments : List String) : Except CommandStop Given :=
  match classifyAll (nameTable specs) arguments with
  | .error e => .error (.usage e)
  | .ok classified =>
    match take classified ⟨[], []⟩ with
    | .error stop => .error stop
    | .ok taken =>
      -- what is missing is complained of before what is left over
      let missing := specs.filter fun spec =>
        spec.required && !taken.values.any fun e => e.1 = spec.key
      if !missing.isEmpty then .error (.usage (.missing missing))
      else if !taken.extras.isEmpty then .error (.usage (.unrecognized taken.extras))
      else .ok ⟨taken.values⟩

end ReplicaCensus.Command
