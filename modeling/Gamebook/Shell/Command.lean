import Gamebook.Settings
import Gamebook.Shell.Arguments
import Gamebook.Shell.Folder
import Gamebook.Tagged

/-!
# Commands

The commands of the program: validating stories, playing a story, and reading one condition or
effect.  `Command.ofArguments` reads a command line; the help texts are laid out for terminals
of eighty columns.
-/

namespace Gamebook.Shell

/-- What a text on the command line stands for. -/
abbrev TextKind := TaggedKind

/-- A command. -/
inductive Command where
  /-- Show a help text on request. -/
  | help (text : String)
  /-- Show the help text of the program because no command is given. -/
  | nothing
  /-- The command line makes no sense. -/
  | misuse
  /-- Validate stories. -/
  | validate (files : List String) (allowCycles : Bool)
  /-- Play a story, with given choices or interactively. -/
  | play (file : String) (choices : List Datum) (catalog : Option String)
  /-- Read a condition or an effect. -/
  | read (kind : TextKind) (text : String)

namespace Command

/-- The help text of the program. -/
def programHelp : String :=
  "usage: narrgen [-h] \x7bvalidate,play,dsl\x7d ...\n" ++
  "\n" ++
  "narrgen - Interactive narrative graph interpreter\n" ++
  "\n" ++
  "positional arguments:\n" ++
  "  \x7bvalidate,play,dsl\x7d  Commands\n" ++
  "    validate           Validate model files\n" ++
  "    play               Play through a model\n" ++
  "    dsl                Parse condition or effect text\n" ++
  "\n" ++
  "options:\n" ++
  "  -h, --help           show this help message and exit\n"

/-- The help text of `validate`. -/
def validateHelp : String :=
  "usage: narrgen validate [-h] [--no-circular] model_files [model_files ...]\n" ++
  "\n" ++
  "positional arguments:\n" ++
  "  model_files    Paths to model JSON files\n" ++
  "\n" ++
  "options:\n" ++
  "  -h, --help     show this help message and exit\n" ++
  "  --no-circular  Reject models whose transition graph contains a cycle\n"

/-- The help text of `play`. -/
def playHelp : String :=
  "usage: narrgen play [-h] [--choose CHOICE_ID] [--catalog CATALOG] model_file\n" ++
  "\n" ++
  "positional arguments:\n" ++
  "  model_file          Path to model JSON file\n" ++
  "\n" ++
  "options:\n" ++
  "  -h, --help          show this help message and exit\n" ++
  "  --choose CHOICE_ID  Apply this choice (repeatable); omit for interactive\n" ++
  "                      play\n" ++
  "  --catalog CATALOG   Path to an entity catalog JSON file\n"

/-- The help text of `dsl`. -/
def readHelp : String :=
  "usage: narrgen dsl [-h] \x7bcondition,effect\x7d text\n" ++
  "\n" ++
  "positional arguments:\n" ++
  "  \x7bcondition,effect\x7d\n" ++
  "  text                DSL text, e.g. 'flag:hasKey=true'\n" ++
  "\n" ++
  "options:\n" ++
  "  -h, --help          show this help message and exit\n"

/-- The option that every command has. -/
def helpOption : OptionSpec :=
  ⟨["-h", "--help"], .help⟩

/-- The grammar of the program: a command and its arguments. -/
def programGrammar : Grammar where
  options := [helpOption]
  parts := [⟨.rest, false, some ["validate", "play", "dsl"]⟩]

/-- The grammar of `validate`. -/
def validateGrammar : Grammar where
  options := [helpOption, ⟨["--no-circular"], .switch⟩]
  parts := [⟨.many, true, none⟩]

/-- The grammar of `play`. -/
def playGrammar : Grammar where
  options := [helpOption, ⟨["--choose"], .value⟩, ⟨["--catalog"], .value⟩]
  parts := [⟨.one, true, none⟩]

/-- The grammar of `dsl`. -/
def readGrammar : Grammar where
  options := [helpOption]
  parts := [⟨.one, true, some ["condition", "effect"]⟩, ⟨.one, true, none⟩]

/-- Sorts the arguments of a command and makes the command of them. -/
def ofSorted (g : Grammar) (help : String) (args : List String) (make : Sorted → Command) :
    Command :=
  match g.read args with
  | .error .help => .help help
  | .error .usage => .misuse
  | .ok sorted => if sorted.leftOver then .misuse else make sorted

/-- The values of an option, in order. -/
def valuesOf (name : String) (sorted : Sorted) : List (Option String) :=
  (sorted.options.filter (·.1 = name)).map Prod.snd

/-- What the value of an option asks for; a value that fell away asks for the empty list. -/
def asked : Option String → Datum
  | some id => .text id
  | none => .list []

/-- Reads the arguments of a command by its name.  A text that fell away is the empty text. -/
def ofName (settings : Settings) (name : String) (args : List String) : Command :=
  match name with
  | "validate" =>
    ofSorted validateGrammar validateHelp args fun sorted =>
      .validate sorted.parts.flatten
        (settings.allowCycles && (valuesOf "--no-circular" sorted).isEmpty)
  | "play" =>
    ofSorted playGrammar playHelp args fun sorted =>
      match sorted.parts with
      | [[file]] =>
        .play file ((valuesOf "--choose" sorted).map asked)
          (valuesOf "--catalog" sorted).getLast?.join
      | _ => .misuse
  | "dsl" =>
    ofSorted readGrammar readHelp args fun sorted =>
      match sorted.parts with
      | [["condition"], text] => .read .condition (text.headD "")
      | [["effect"], text] => .read .effect (text.headD "")
      | _ => .misuse
  | _ => .misuse

/-- Reads a command line. -/
def ofArguments (settings : Settings) (args : List String) : Command :=
  match programGrammar.read args with
  | .error .help => .help programHelp
  | .error .usage => .misuse
  | .ok sorted =>
    match sorted.parts with
    | [name :: args] =>
      match ofName settings name args with
      | .help text => .help text
      | command => if sorted.leftOver then .misuse else command
    | _ => if sorted.leftOver then .misuse else .nothing

/-- The names of the files that a command reads. -/
def files : Command → List String
  | .validate files _ => files.map tidyName
  | .play file _ catalog => tidyName file :: catalog.toList
  | _ => []

end Command

end Gamebook.Shell
