import ComputedTables.Text.Lines
import ComputedTables.Decimal.Literal

/-!
# Arguments

The arguments are options, then a command with arguments of its own.  An option's value stands in
the next argument or, behind an equals sign, in the same one; a value in an argument of its own must
not start with a dash unless it is one.  No option may be repeated.  A double dash ends the options.
A request for help is answered at once, but only if nothing before it is wrong.
-/

namespace ComputedTables.CommandLine

/-- What the program is asked to do. -/
inductive Command where
  | watch
  | index
  | render (document : String)
  | eval (formula : String)
  deriving DecidableEq, Repr

/-- The options, as far as they are given. -/
structure Options where
  directory : Option String := none
  precision : Option UInt8 := none
  locale : Option String := none
  verbose : Bool := false
  deriving DecidableEq, Repr

/-- The options that have a value. -/
inductive Setting where
  | directory
  | precision
  | locale
  deriving DecidableEq, Repr

/-- What help is asked for. -/
inductive Topic where
  | program
  | watch
  | index
  | render
  | eval
  | help
  deriving DecidableEq, Repr

/-- What the arguments ask for. -/
inductive Request where
  | run (options : Options) (command : Command)
  | help (topic : Topic)
  | version
  deriving DecidableEq, Repr

/-- The setting with a name. -/
def Setting.ofName? : String → Option Setting
  | "vault" => some .directory
  | "precision" => some .precision
  | "locale" => some .locale
  | _ => none

/-- The number below 256 that a text writes, with or without a sign. -/
def byteOf? (text : String) : Option UInt8 :=
  let (negative, digits) := Decimal.takeSign text.toList
  let value := Decimal.ofDigits digits
  if digits.isEmpty || !digits.all Char.isDigit || 256 ≤ value || (negative && value != 0) then none
  else some (UInt8.ofNat value)

namespace Options

/-- Gives a setting its value, if it has none yet and the value is one. -/
def set? (o : Options) (setting : Setting) (text : String) : Option Options :=
  match setting with
  | .directory =>
    if o.directory.isSome || text.isEmpty then none else some { o with directory := some text }
  | .precision =>
    if o.precision.isSome then none
    else (byteOf? text).map fun precision => { o with precision := some precision }
  | .locale => if o.locale.isSome then none else some { o with locale := some text }

/-- Asks for more output, once. -/
def setVerbose? (o : Options) : Option Options :=
  if o.verbose then none else some { o with verbose := true }

/-- Gives a setting the value that was read before it was known to be the last word on it. -/
def settle? (o : Options) : Option (Setting × String) → Option Options
  | none => some o
  | some (setting, text) => o.set? setting text

end Options

/-- Whether an argument is meant as an option: it has something behind a dash. -/
def isOption (argument : String) : Bool :=
  match argument.toList with
  | '-' :: _ :: _ => true
  | _ => false

/-- The name behind a double dash, and the value behind an equals sign. -/
def longOption? (argument : String) : Option (String × Option String) :=
  match argument.toList with
  | '-' :: '-' :: cs =>
    let name := String.ofList (cs.takeWhile (· != '='))
    match cs.dropWhile (· != '=') with
    | [] => some (name, none)
    | _ :: value => some (name, some (String.ofList value))
  | _ => none

/-- Whether an argument of a command asks for help; its first letter decides. -/
def asksForHelp (argument : String) : Bool :=
  argument == "--help" || (argument.toList.take 2 == ['-', 'h'])

/-- Reads the arguments of a command that takes none. -/
def readNothing (topic : Topic) (command : Command) : List String → Option (Topic ⊕ Command)
  | [] | ["--"] => some (.inr command)
  | argument :: _ => if asksForHelp argument then some (.inl topic) else none

/-- Reads the arguments of a command that takes one, given the one read so far and whether a double
dash has been read. -/
def readOne (topic : Topic) (command : String → Command) (found : Option String) (ended : Bool) :
    List String → Option (Topic ⊕ Command)
  | [] => found.map fun text => .inr (command text)
  | argument :: rest =>
    if !ended && argument == "--" then readOne topic command found true rest
    else if !ended && isOption argument then
      if asksForHelp argument then some (.inl topic) else none
    else if found.isSome then none
    else readOne topic command (some argument) ended rest

/-- The topic of a command's name. -/
def Topic.ofName? : String → Option Topic
  | "watch" => some .watch
  | "index" => some .index
  | "render" => some .render
  | "eval" => some .eval
  | "help" => some .help
  | _ => none

/-- Reads a command with its arguments. -/
def readCommand (name : Topic) (rest : List String) : Option (Topic ⊕ Command) :=
  match name with
  | .watch => readNothing .watch .watch rest
  | .index => readNothing .index .index rest
  | .render => readOne .render .render none false rest
  | .eval => readOne .eval .eval none false rest
  | .help | .program =>
    match rest with
    | [] => some (.inl .program)
    | [topic] => (Topic.ofName? topic).map .inl
    | _ => none

/-- Reads letters behind one dash, the first that asks for something else than output deciding. -/
def readLetters (o : Options) : List Char → Option (Request ⊕ Options)
  | [] => some (.inr o)
  | 'v' :: letters => o.setVerbose?.bind fun o => readLetters o letters
  | 'h' :: _ => some (.inl (.help .program))
  | 'V' :: _ => some (.inl .version)
  | _ => none

/-- Reads a long option without a value of its own. -/
def readFlag (o : Options) : String → Option (Request ⊕ Options)
  | "verbose" => o.setVerbose?.map .inr
  | "help" => some (.inl (.help .program))
  | "version" => some (.inl .version)
  | _ => none

/-- Reads the arguments, given the options so far and a value that is still to be given to its
setting. -/
def readFrom (o : Options) (pending : Option (Setting × String)) (arguments : List String) :
    Option Request :=
  match arguments with
  | [] | ["--"] => (o.settle? pending).map (.run · .watch)
  | argument :: rest =>
    match Topic.ofName? argument with
    | some name => do
      match ← readCommand name rest with
      | .inl topic => some (.help topic)
      | .inr command => (o.settle? pending).map (.run · command)
    | none =>
      if !isOption argument then none
      else do
        let o ← o.settle? pending
        match longOption? argument with
        | some (name, value) =>
          match Setting.ofName? name, value, rest with
          | some setting, some text, rest => readFrom (← o.set? setting text) none rest
          | some setting, none, text :: rest =>
            if isOption text then none else readFrom o (some (setting, text)) rest
          | none, none, rest =>
            match ← readFlag o name with
            | .inl request => some request
            | .inr o => readFrom o none rest
          | _, _, _ => none
        | none =>
          match ← readLetters o (argument.toList.drop 1) with
          | .inl request => some request
          | .inr o => readFrom o none rest
termination_by arguments.length

/-- Reads the arguments; none if they cannot be understood. -/
def read (arguments : List String) : Option Request :=
  readFrom {} none arguments

end ComputedTables.CommandLine
