import Gamebook.Text.Digit

/-!
# Command line arguments

A grammar says which options a command has and which arguments follow each other.  `read` sorts
the arguments of a command accordingly:

* an option can be shortened as long as it stays unambiguous, and can have its value behind `=`,
  where `--` is no value;
* an unknown option, or an argument too many, is left over;
* a negative number, or an argument with a space, is no option, and behind `--` nothing is.

Arguments take effect in order, so that a request for help is met unless an error comes before
it.
-/

namespace Gamebook.Shell

/-- What an option does. -/
inductive OptionKind where
  | help
  | switch
  | value
  deriving DecidableEq, Repr

/-- An option: its spellings, the first of which names it. -/
structure OptionSpec where
  spellings : List String
  kind : OptionKind

/-- How many arguments a part of a command takes. -/
inductive Arity where
  /-- One argument. -/
  | one
  /-- As many as there are before the next option, and at least one. -/
  | many
  /-- One argument and everything behind it, options included. -/
  | rest
  deriving DecidableEq, Repr

/-- A part of a command that is no option; `choices` lists what its first argument can be. -/
structure Part where
  arity : Arity
  required : Bool
  choices : Option (List String)

/-- The options and parts of a command. -/
structure Grammar where
  options : List OptionSpec
  parts : List Part

/-- Why arguments are not accepted. -/
inductive Stop where
  /-- Help is asked for. -/
  | help
  /-- The arguments do not fit the grammar. -/
  | usage
  deriving DecidableEq, Repr

/-- Sorted arguments: the options by name, in order, with their values, the arguments of each
part, and whether arguments are left over. -/
structure Sorted where
  options : List (String × Option String) := []
  parts : List (List String) := []
  leftOver : Bool := false
  deriving Repr

/-- What an argument looks like before it takes effect. -/
inductive Token where
  /-- An argument that is no option. -/
  | word (text : String)
  /-- The first `--`. -/
  | dashes
  /-- An option of the grammar in one of its spellings, with what follows the spelling in the
  same argument. -/
  | option (spec : OptionSpec) (spelling : String) (tail : List Char) (text : String)
  /-- An option that the grammar does not have. -/
  | unknown (text : String)

namespace Token

/-- The argument itself. -/
def text : Token → String
  | .word s => s
  | .dashes => "--"
  | .option _ _ _ s => s
  | .unknown s => s

/-- Whether the argument looks like an option. -/
def isOption : Token → Bool
  | .option .. => true
  | .unknown _ => true
  | _ => false

end Token

/-- Whether a text is a minus sign and a decimal number, with digits of any script, and perhaps a
line break behind it. -/
def isNegativeNumber (cs : List Char) : Bool :=
  match cs with
  | '-' :: body =>
    let body := if body.getLast? = some '\n' then body.dropLast else body
    match body.dropWhile Text.isDecimalDigit with
    | [] => !body.isEmpty
    | '.' :: fraction => !fraction.isEmpty && fraction.all Text.isDecimalDigit
    | _ => false
  | _ => false

namespace Grammar

/-- All spellings with their options. -/
def spellings (g : Grammar) : List (String × OptionSpec) :=
  g.options.flatMap fun o => o.spellings.map (·, o)

/-- The options that a shortened spelling can mean, each with its full spelling and what follows
the spelling.  One letter behind one minus can be followed by anything. -/
def shortened (g : Grammar) (s : String) : List Token :=
  let cs := s.toList
  match cs with
  | '-' :: '-' :: _ =>
    let beginning := cs.takeWhile (· != '=')
    (g.spellings.filter fun e => beginning.isPrefixOf e.1.toList).map
      fun e => .option e.2 e.1 (cs.dropWhile (· != '=')) s
  | _ =>
    let short := String.ofList (cs.take 2)
    g.spellings.filterMap fun e =>
      if e.1 = short then some (.option e.2 e.1 (cs.drop 2) s)
      else if cs.isPrefixOf e.1.toList then some (.option e.2 e.1 [] s)
      else none

/-- Recognises an argument. -/
def token (g : Grammar) (s : String) : Except Stop Token :=
  match s.toList with
  | '-' :: c :: cs =>
    match g.spellings.lookup s with
    | some o => .ok (.option o s [] s)
    | none =>
      let all := '-' :: c :: cs
      let spelling := String.ofList (all.takeWhile (· != '='))
      match g.spellings.lookup spelling with
      | some o => .ok (.option o spelling (all.dropWhile (· != '=')) s)
      | none =>
        match g.shortened s with
        | [t] => .ok t
        | _ :: _ => .error .usage
        | [] =>
          if isNegativeNumber all || all.contains ' ' then .ok (.word s) else .ok (.unknown s)
  | _ => .ok (.word s)

/-- Recognises all arguments. -/
def tokens (g : Grammar) : List String → Except Stop (List Token)
  | [] => .ok []
  | "--" :: rest => .ok (.dashes :: rest.map .word)
  | s :: rest => do return (← g.token s) :: (← g.tokens rest)

end Grammar

/-- Cuts the arguments of a part off, with a `--` among them. -/
def Arity.cut : Arity → List Token → Option (List Token × List Token)
  | .one, .dashes :: .word s :: ts => some ([.dashes, .word s], ts)
  | .one, .word s :: .dashes :: ts => some ([.word s, .dashes], ts)
  | .one, .word s :: ts => some ([.word s], ts)
  | .many, ts =>
    let taken := ts.takeWhile (!·.isOption)
    if taken.any (fun t => t matches .word _) then some (taken, ts.drop taken.length) else none
  | .rest, ts =>
    match ts with
    | .word _ :: _ => some (ts, [])
    | .dashes :: .word _ :: _ => some (ts, [])
    | _ => none
  | _, _ => none

/-- The arguments of a part.  The first `--` among them falls away, wherever it stands, unless the
part takes everything. -/
def Arity.values (a : Arity) (ts : List Token) : List String :=
  let values := ts.map Token.text
  match a with
  | .rest => values
  | _ => values.erase "--"

/-- Gives as many parts as possible their arguments.  Returns the arguments, the parts that are
still without and the tokens that are left. -/
def takeParts : List Part → List Token →
    Except Stop (List (List String) × List Part × List Token)
  | [], ts => .ok ([], [], ts)
  | p :: ps, ts =>
    match p.arity.cut ts with
    | none => .ok ([], p :: ps, ts)
    | some (taken, rest) => do
      let values := p.arity.values taken
      match p.choices, values with
      | some choices, v :: _ => if !choices.contains v then throw .usage
      | _, _ => pure ()
      let (more, parts, rest) ← takeParts ps rest
      return (values :: more, parts, rest)

/-- Whether what follows `-h` in the same argument leaves it a request for help: only a repeated
`h` does, also behind an equals sign. -/
def keepsHelp (tail : List Char) : Bool :=
  match tail with
  | '=' :: hs => !hs.isEmpty && hs.all (· = 'h')
  | hs => hs.all (· = 'h')

/-- The value of an option behind an equals sign; `--` is none and falls away. -/
def explicitValue (v : List Char) : Option String :=
  let text := String.ofList v
  if text = "--" then none else some text

/-- Gives an option its effect.  Returns its value, if it has one, and the tokens that are left. -/
def takeOption (o : OptionSpec) (spelling : String) (tail : List Char) (ts : List Token) :
    Except Stop (Option String × List Token) :=
  match o.kind, tail, ts with
  | .value, '=' :: v, ts => .ok (explicitValue v, ts)
  | .value, [], .word v :: ts => .ok (some v, ts)
  | .value, _, _ => .error .usage
  | .help, tail, _ =>
    if tail.isEmpty || (spelling.length = 2 && keepsHelp tail) then .error .help
    else .error .usage
  | .switch, [], ts => .ok (none, ts)
  | .switch, _, _ => .error .usage

/-- Sorts tokens.  `fuel` bounds their number. -/
def sort (fuel : Nat) (parts : List Part) (sorted : Sorted) (ts : List Token) :
    Except Stop Sorted :=
  match fuel, ts with
  | 0, _ => .error .usage
  | fuel + 1, .option o spelling tail _ :: ts => do
    let (v, ts) ← takeOption o spelling tail ts
    sort fuel parts { sorted with options := sorted.options ++ [(o.spellings.headD "", v)] } ts
  | fuel + 1, .unknown _ :: ts => sort fuel parts { sorted with leftOver := true } ts
  | fuel + 1, ts => do
    let (values, parts, rest) ← takeParts parts ts
    let sorted := { sorted with parts := sorted.parts ++ values }
    if !ts.any Token.isOption then
      if parts.any Part.required then throw .usage
      else return { sorted with leftOver := sorted.leftOver || !rest.isEmpty }
    else if rest.length < ts.length then sort fuel parts sorted rest
    else sort fuel parts { sorted with leftOver := true } (ts.dropWhile (!·.isOption))

/-- Sorts the arguments of a command. -/
def Grammar.read (g : Grammar) (args : List String) : Except Stop Sorted := do
  let ts ← g.tokens args
  sort (ts.length + 1) g.parts {} ts

end Gamebook.Shell
