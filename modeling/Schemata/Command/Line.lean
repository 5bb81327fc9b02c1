import Schemata.Command.Basic

/-!
# Schemata — Command — Line

Reading a command line. It has two levels: the program's own options up to the name of a command,
then the options and the operand of that command. An option is long and takes its value from after
an equals sign or from the next word, which must not look like an option itself; after `--` every
word is an operand. A value is checked when the next option or operand is met, so a request for help
that comes before that is answered first. The store can be given on either level, the command's own
level first, and what is not given is taken from the environment.
-/

namespace Schemata

/-- The options. -/
inductive Flag where
  | store
  | retries
  | delay
  | validator
  | help
deriving DecidableEq, Repr

/-- The names of commands. -/
inductive Verb where
  | compile
  | sync
  | inspect
  | list
  | help
deriving DecidableEq, Repr

/-- Why there is no command to run: the line is wrong, or it asks for help. -/
inductive Refusal where
  | usage
  | help (topic : Option Verb)
deriving DecidableEq, Repr

/-- The variables of an environment. -/
abbrev Variables := String → Option String

namespace Flag

/-- The name of an option. -/
def name : Flag → String
  | .store     => "db"
  | .retries   => "retries"
  | .delay     => "retry-delay-ms"
  | .validator => "validator"
  | .help      => "help"

/-- The environment variable that stands in for an option. -/
def envName? : Flag → Option String
  | .store   => some "DOCMODEL_DB"
  | .retries => some "DOCMODEL_RETRIES"
  | .delay   => some "DOCMODEL_RETRY_DELAY_MS"
  | _        => none

/-- Whether an option has a value. -/
def hasValue (f : Flag) : Bool := f.envName?.isSome

/-- The number that digits give, if it is below a bound. -/
def below? (bound : Nat) (digits : List Char) : Option Nat :=
  if digits ≠ [] ∧ digits.all Char.isDigit ∧ Nat.ofDigitChars 10 digits 0 < bound then
    some (Nat.ofDigitChars 10 digits 0)
  else none

/-- A number of retries: 32 bits, with a sign if need be. -/
def retries? (text : String) : Option UInt32 :=
  match text.toList with
  | '+' :: digits => (below? 4294967296 digits).map UInt32.ofNat
  | '-' :: digits => (below? 1 digits).map UInt32.ofNat
  | digits        => (below? 4294967296 digits).map UInt32.ofNat

/-- A delay: 64 bits, with a plus sign if need be. -/
def delay? (text : String) : Option UInt64 :=
  match text.toList with
  | '+' :: digits => (below? 18446744073709551616 digits).map UInt64.ofNat
  | digits        => (below? 18446744073709551616 digits).map UInt64.ofNat

/-- Whether an option can have a value. -/
def accepts (f : Flag) (value : String) : Bool :=
  match f with
  | .store   => value ≠ ""
  | .retries => (retries? value).isSome
  | .delay   => (delay? value).isSome
  | _        => true

end Flag

namespace Verb

/-- All commands, in the order they are listed. -/
def all : List Verb := [.compile, .sync, .inspect, .list, .help]

/-- The name of a command. -/
def name : Verb → String
  | .compile => "compile"
  | .sync    => "sync"
  | .inspect => "show"
  | .list    => "list"
  | .help    => "help"

/-- The command of a name. -/
def ofName? (name : String) : Option Verb := all.find? (·.name = name)

end Verb

/-- What may stand on a level of the line: options, commands, an operand. -/
structure Level where
  flags : List Flag
  commands : Bool := false
  operand : Bool := false
deriving Repr

namespace Level

/-- The level of the program. -/
def program : Level := { flags := [.store, .help], commands := true }

/-- The level of a command. -/
def ofVerb : Verb → Level
  | .compile => { flags := [.store, .help], operand := true }
  | .sync    => { flags := [.retries, .delay, .store, .help], operand := true }
  | .inspect => { flags := [.validator, .store, .help], operand := true }
  | .list    => { flags := [.store, .help] }
  | .help    => { flags := [] }

/-- The option of a name. -/
def flag? (l : Level) (name : String) : Option Flag := l.flags.find? (·.name = name)

end Level

/-- What was read of a level: options with their checked values, the last option with its value to
be checked, and the operand. -/
structure Scan where
  values : List (Flag × String) := []
  open? : Option (Flag × Option String) := none
  operand : Option String := none
deriving Repr

namespace Scan

/-- The value of an option. -/
def value? (s : Scan) (f : Flag) : Option String := (s.values.find? (·.1 = f)).map Prod.snd

/-- Takes an option that is given for the first time with a value it can have. -/
def take (s : Scan) (f : Flag) (value : String) : Except Refusal Scan :=
  if (s.value? f).isSome ∨ !f.accepts value then .error .usage
  else .ok { s with values := s.values ++ [(f, value)] }

/-- Checks the last option. -/
def close (s : Scan) : Except Refusal Scan :=
  match s.open? with
  | none                => .ok s
  | some (_, none)      => .error .usage
  | some (f, some text) => { s with open? := none }.take f text

/-- Takes an operand. -/
def takeOperand (s : Scan) (l : Level) (word : String) : Except Refusal Scan := do
  if !l.operand ∨ s.operand.isSome then throw .usage
  return { ← s.close with operand := some word }

/-- Takes an option by its name and the value attached to it. -/
def takeFlag (s : Scan) (l : Level) (topic : Option Verb) (name : String)
    (attached : Option String) : Except Refusal Scan := do
  match l.flag? name with
  | none   => throw .usage
  | some f =>
    match f.hasValue, attached with
    | true, some value => (← s.close).take f value
    | true, none       => return { ← s.close with open? := some (f, none) }
    | false, some _    => throw .usage
    | false, none      =>
      let s ← s.close
      if f = .help then throw (.help topic) else s.take f ""

/-- A word cut at its first equals sign. -/
def cut : List Char → List Char × Option (List Char)
  | []          => ([], none)
  | '=' :: rest => ([], some rest)
  | c :: rest   =>
    let (name, value) := cut rest
    (c :: name, value)

/-- Takes an option as it is written; of short ones there is only the one for help. -/
def takeOption (s : Scan) (l : Level) (topic : Option Verb) : List Char → Except Refusal Scan
  | '-' :: long =>
    let (name, value) := cut long
    s.takeFlag l topic (String.ofList name) (value.map String.ofList)
  | 'h' :: _ => s.takeFlag l topic Flag.help.name none
  | _        => .error .usage

/-- What an option is written as, without its first hyphen. A hyphen alone is an operand. -/
def option? (word : String) : Option (List Char) :=
  match word.toList with
  | '-' :: c :: rest => some (c :: rest)
  | _                => none

/-- The option that waits for a value. -/
def waiting? (s : Scan) : Option Flag :=
  match s.open? with
  | some (f, none) => some f
  | _              => none

/-- Reads words, up to the name of a command if the level has commands; `ended` says that options
have ended. -/
def words (l : Level) (topic : Option Verb) (ended : Bool) :
    List String → Scan → Except Refusal (Scan × Option (Verb × List String))
  | [], s           => .ok (s, none)
  | word :: rest, s =>
    if ended then (s.takeOperand l word).bind (words l topic true rest)
    else if word = "--" then words l topic true rest s
    else match option? word with
      | some text => (s.takeOption l topic text).bind (words l topic false rest)
      | none =>
        match s.waiting? with
        | some f => words l topic false rest { s with open? := some (f, some word) }
        | none =>
          match if l.commands then Verb.ofName? word else none with
          | some verb => .ok (s, some (verb, rest))
          | none      => (s.takeOperand l word).bind (words l topic false rest)

/-- Ends a level: checks its last option, the variables that stand in for options, and the
operand. -/
def finish (s : Scan) (l : Level) (env : Variables) : Except Refusal Scan := do
  let s ← s.close
  let fits (f : Flag) : Bool :=
    (s.value? f).isSome || ((f.envName?.bind env).map f.accepts).getD true
  if l.flags.all fits ∧ (l.operand → s.operand.isSome) then return s else throw .usage

end Scan

namespace Invocation

/-- The topic that words after the command for help name. -/
def topic? : List String → Option (Option Verb)
  | []     => some none
  | [name] => (Verb.ofName? name).map some
  | _      => none

/-- The command that a level states. -/
def command? (verb : Verb) (operand : String) (value? : Flag → Option String) : Option Command :=
  let standard : RetryPolicy := {}
  match verb with
  | .compile => some (.compile operand)
  | .sync    => some <| .sync operand {
      retries := ((value? .retries).bind Flag.retries?).getD standard.retries
      delay := ((value? .delay).bind Flag.delay?).getD standard.delay }
  | .inspect => some (.inspect operand (value? .validator).isSome)
  | .list    => some .list
  | .help    => none

/-- The command of a line. -/
def ofArgs (env : Variables) (args : List String) : Except Refusal Invocation := do
  match ← Scan.words .program none false args {} with
  | (_, none)               => throw .usage
  | (_, some (.help, rest)) =>
    match topic? rest with
    | some topic => throw (.help topic)
    | none       => throw .usage
  | (outer, some (verb, rest)) =>
    let level := Level.ofVerb verb
    let (inner, _) ← Scan.words level (some verb) false rest {}
    let inner ← inner.finish level env
    let outer ← outer.finish .program env
    let value? (f : Flag) : Option String :=
      inner.value? f <|> outer.value? f <|> f.envName?.bind env
    match command? verb (inner.operand.getD "") value? with
    | some command => return ⟨((value? .store).map Address.path).getD .own, command⟩
    | none         => throw .usage

end Invocation

end Schemata
