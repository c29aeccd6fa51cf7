import CodeNav.CommandLine.Help

/-! The arguments of the command line: the workspace, which may be given before or after the command,
the command, and what it is about. -/
namespace CodeNav.CommandLine
set_option autoImplicit false
open Text

/-- A place in a file, with lines and columns from one. -/
structure Spot where
  file : String
  line : Nat
  column : Nat
  deriving DecidableEq, Repr

inductive Command where
  | index
  | goto (spot : Spot) (pick : Option Nat)
  | references (spot : Spot)
  | complete (spot : Spot)
  | signature (spot : Spot)
  | serve
  deriving DecidableEq, Repr

structure Invocation where
  workspace : String
  command : Command
  deriving DecidableEq, Repr

/-- What the arguments ask for. -/
inductive Reading where
  | run (invocation : Invocation)
  /-- A text about the program. -/
  | tell (text : String)
  | misuse
  deriving DecidableEq, Repr

/-! ## Single arguments -/

/-- An argument: a long option with or without a value, short options, the mark behind which there
are only values, or a value. -/
inductive Argument where
  | long (name : List Char) (value : Option (List Char))
  | short (letters : List Char)
  | onlyValues
  | value (text : List Char)

def Argument.ofText (text : List Char) : Argument :=
  match text with
  | ['-', '-'] => .onlyValues
  | '-' :: '-' :: rest =>
    match splitFirst? '=' rest with
    | some (name, given) => .long name (some given)
    | none => .long rest none
  | '-' :: c :: rest => .short (c :: rest)
  | _ => .value text

/-- The value written together with a short option, after an equal sign or without one. -/
def attached : List Char → Option (List Char)
  | [] => none
  | '=' :: value => some value
  | value => some value

def readCount? (text : List Char) : Option Nat :=
  readNumeral? (UInt64.size - 1) text

/-- A path is never empty. -/
def readPath? (text : List Char) : Option String :=
  if text.isEmpty then none else some (String.ofList text)

/-! ## Options -/

/-- The options read so far. -/
structure Options where
  workspace : Option String := none
  pick : Option Nat := none

/-- An option of the program or of a command. -/
inductive OptionName where
  | workspace
  | pick

/-- Sets an option; each is given once, and its value must be readable. -/
def Options.set? (o : Options) (name : OptionName) (value : List Char) : Option Options :=
  match name with
  | .workspace =>
    if o.workspace.isSome then none
    else (readPath? value).map fun path => { o with workspace := some path }
  | .pick =>
    if o.pick.isSome then none
    else (readCount? value).map fun n => { o with pick := some n }

/-- What an argument that is no value means. -/
inductive Switch where
  | set (name : OptionName) (value : Option (List Char))
  | help
  | version
  | unknown

def switchOf (hasPick hasVersion : Bool) : Argument → Switch
  | .long name value =>
    if name = "workspace".toList then .set .workspace value
    else if hasPick && name = "pick".toList then .set .pick value
    else if name = "help".toList && value.isNone then .help
    else if hasVersion && name = "version".toList && value.isNone then .version
    else .unknown
  | .short (c :: rest) =>
    if c == 'w' then .set .workspace (attached rest)
    else if c == 'h' then .help
    else if hasVersion && c == 'V' then .version
    else .unknown
  | _ => .unknown

/-! ## Commands -/

/-- The options and values of a command. -/
structure Operands where
  options : Options := {}
  /-- The values, the latest first. -/
  values : List (List Char) := []

inductive OperandsReading where
  | complete (operands : Operands)
  | help
  | misuse

/-- Does a value fit its place? The file comes first, then two numbers. -/
def fits (place : Nat) (value : List Char) : Bool :=
  if place = 0 then (readPath? value).isSome else (readCount? value).isSome

def Operands.add? (o : Operands) (limit : Nat) (value : List Char) : Option Operands :=
  if o.values.length < limit && fits o.values.length value then
    some { o with values := value :: o.values }
  else none

/-- Values only, as behind two hyphens. -/
def readValues (limit : Nat) : Operands → List (List Char) → OperandsReading
  | o, [] => .complete o
  | o, value :: rest =>
    match o.add? limit value with
    | some next => readValues limit next rest
    | none => .misuse

/-- Reads what follows a command that takes `limit` values. -/
def readOperands (hasPick : Bool) (limit : Nat) : Operands → List (List Char) → OperandsReading
  | o, [] => .complete o
  | o, text :: rest =>
    match Argument.ofText text with
    | .value value =>
      match o.add? limit value with
      | some next => readOperands hasPick limit next rest
      | none => .misuse
    | .onlyValues => readValues limit o rest
    | argument =>
      match switchOf hasPick false argument with
      | .help => .help
      | .set name (some value) =>
        match o.options.set? name value with
        | some options => readOperands hasPick limit { o with options } rest
        | none => .misuse
      | .set name none =>
        match rest with
        | [] => .misuse
        | next :: more =>
          match Argument.ofText next with
          | .value value =>
            match o.options.set? name value with
            | some options => readOperands hasPick limit { o with options } more
            | none => .misuse
          | _ => .misuse
      | _ => .misuse

def Operands.spot? (o : Operands) : Option Spot := do
  match o.values with
  | [column, line, file] => return ⟨← readPath? file, ← readCount? line, ← readCount? column⟩
  | _ => none

def Operands.command? (o : Operands) : Help.Topic → Option Command
  | .index => if o.values.isEmpty then some .index else none
  | .serve => if o.values.isEmpty then some .serve else none
  | .goto => o.spot?.map fun spot => .goto spot o.options.pick
  | .references => o.spot?.map .references
  | .complete => o.spot?.map .complete
  | .signature => o.spot?.map .signature

/-- Reads a command. A workspace given behind the command goes before one given in front of it. -/
def readCommand (outer : Option String) (topic : Help.Topic) (arguments : List (List Char)) :
    Reading :=
  match readOperands (topic == .goto) topic.valueCount {} arguments with
  | .help => .tell topic.text
  | .misuse => .misuse
  | .complete operands =>
    match operands.command? topic with
    | some command => .run ⟨(operands.options.workspace.or outer).getD ".", command⟩
    | none => .misuse

/-- Help on the program, on one command, or on the help itself. -/
def readHelp : List (List Char) → Reading
  | [] => .tell Help.program
  | [name] =>
    if name = "help".toList then .tell Help.onHelp
    else match Help.Topic.ofName? (String.ofList name) with
      | some topic => .tell topic.text
      | none => .misuse
  | _ => .misuse

/-- Reads the arguments in front of the command, and then the command. -/
def readArguments (o : Options) : List (List Char) → Reading
  | [] => .misuse
  | text :: rest =>
    match Argument.ofText text with
    | .value name =>
      if name = "help".toList then readHelp rest
      else match Help.Topic.ofName? (String.ofList name) with
        | some topic => readCommand o.workspace topic rest
        | none => .misuse
    | .onlyValues => .misuse
    | argument =>
      match switchOf false true argument with
      | .help => .tell Help.program
      | .version => .tell Help.version
      | .set name (some value) =>
        match o.set? name value with
        | some options => readArguments options rest
        | none => .misuse
      | .set name none =>
        match rest with
        | [] => .misuse
        | next :: more =>
          match Argument.ofText next with
          | .value value =>
            match o.set? name value with
            | some options => readArguments options more
            | none => .misuse
          | _ => .misuse
      | .unknown => .misuse

def Reading.ofArguments (arguments : List String) : Reading :=
  readArguments {} (arguments.map String.toList)

end CodeNav.CommandLine
