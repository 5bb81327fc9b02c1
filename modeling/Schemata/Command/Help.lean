import Schemata.Command.Line
import Schemata.Text.Terminal

/-!
# Schemata — Command — Help

The text that a request for help prints: what the program or a command is for, how it is called, and
its commands, operands and options in columns. Where the column of names takes too much of the
width, the explanations go to lines of their own. The lines of an explanation begin in one column.
Headings and names stand out on a terminal; what controls one is left out of the print, and so is
what an explanation hides by it, up to the next name.
-/

namespace Schemata

namespace Flag

/-- An option as it is written, with a name for its value. -/
def label : Flag → String
  | .store     => "    " ++ bold "--db" ++ " <DB>"
  | .retries   => "    " ++ bold "--retries" ++ " <RETRIES>"
  | .delay     => "    " ++ bold "--retry-delay-ms" ++ " <RETRY_DELAY_MS>"
  | .validator => "    " ++ bold "--validator"
  | .help      => bold "-h" ++ ", " ++ bold "--help"

/-- What an option is for. -/
def about : Flag → String
  | .store     => "Schema store location (defaults to the platform data directory)"
  | .retries   => "Connection retries on a busy store"
  | .delay     => "Wait between connection attempts, in milliseconds"
  | .validator => "Print only the validator, without store directives"
  | .help      => "Print help"

/-- The value an option has if it is not given. -/
def default? : Flag → Option String
  | .retries => some (toString ({} : RetryPolicy).retries.toNat)
  | .delay   => some (toString ({} : RetryPolicy).delay.toNat)
  | _        => none

/-- What an option is for, where else its value comes from, and its default. -/
def explanation (env : Variables) (f : Flag) : String :=
  let fromEnv := f.envName?.map fun v => " [env: " ++ v ++ "=" ++ (env v).getD "" ++ "]"
  let default := f.default?.map fun d => " [default: " ++ d ++ "]"
  f.about ++ fromEnv.getD "" ++ default.getD ""

end Flag

namespace Verb

/-- What a command does. -/
def about : Verb → String
  | .compile => "Print the compiled schema documents for matching declaration files"
  | .sync    => "Compile matching declaration files and synchronize them with the store"
  | .inspect => "Print a stored schema"
  | .list    => "List stored schemas"
  | .help    => "Print this message or the help of the given subcommand(s)"

/-- The operand of a command with its explanation. -/
def operand? : Verb → Option (String × String)
  | .compile => some ("<PATTERN>", "Glob of declaration files, e.g. models/**/*.json")
  | .sync    => some ("<PATTERN>", "")
  | .inspect => some ("<NAME>", "")
  | .list    => none
  | .help    => some ("[COMMAND]...", "Print help for the subcommand(s)")

/-- The options of a command in the order they are explained. -/
def flags : Verb → List Flag
  | .compile => [.store, .help]
  | .sync    => [.store, .retries, .delay, .help]
  | .inspect => [.store, .validator, .help]
  | .list    => [.store, .help]
  | .help    => []

/-- How a command is called. -/
def usage (v : Verb) : String :=
  bold ("docmodel " ++ v.name) ++ (if v.flags.isEmpty then "" else " [OPTIONS]") ++
    (v.operand?.map fun o => " " ++ o.1).getD ""

end Verb

namespace Help

/-- The width of a line. -/
def width : Nat := 100

/-- A text whose lines after the first begin with so many spaces. -/
def indented (spaces : Nat) (text : String) : String :=
  let newLine := '\n' :: List.replicate spaces ' '
  String.ofList (text.toList.flatMap fun c => if c = '\n' then newLine else [c])

/-- The number of columns that a text takes. -/
def columnsOf (text : String) : Nat := (uncontrolled text).length

/-- Names with their explanations in columns under a heading. -/
def columns (heading : String) (rows : List (String × String)) : String :=
  let longest := (rows.map fun r => columnsOf r.1).foldl max 0
  let taken := longest + 12
  let broad :=
    taken ≤ width ∧ 40 * width < 100 * taken ∧ rows.any fun r => width - taken < r.2.length
  let row (r : String × String) : String :=
    if broad then "  " ++ r.1 ++ indented 10 ("\n" ++ r.2) ++ "\n"
    else
      "  " ++ r.1 ++ "".pushn ' ' (longest - columnsOf r.1 + 2) ++ indented (longest + 4) r.2 ++
        "\n"
  if rows.isEmpty then ""
  else "\n" ++ underlined (heading ++ ":") ++ "\n" ++ String.join (rows.map row)

/-- The options with their explanations. -/
def options (env : Variables) (flags : List Flag) : String :=
  columns "Options" (flags.map fun f => (f.label, f.explanation env))

/-- The text for the program. -/
def program (env : Variables) : String :=
  "Compile document-model declarations and synchronize their schemas\n\n" ++
    underlined "Usage:" ++ " " ++ bold "docmodel" ++ " [OPTIONS] <COMMAND>\n" ++
    columns "Commands" (Verb.all.map fun v => (bold v.name, v.about)) ++
    options env Level.program.flags

/-- The text for a command. -/
def command (env : Variables) (v : Verb) : String :=
  v.about ++ "\n\n" ++ underlined "Usage:" ++ " " ++ v.usage ++ "\n" ++
    columns "Arguments" v.operand?.toList ++ options env v.flags

/-- The text for a topic. -/
def text (env : Variables) : Option Verb → String
  | none   => uncontrolled (program env)
  | some v => uncontrolled (command env v)

end Help

end Schemata
