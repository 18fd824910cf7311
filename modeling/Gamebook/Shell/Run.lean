import Gamebook.Condition.Shorthand
import Gamebook.Effect.Shorthand
import Gamebook.Shell.Command
import Gamebook.Shell.Dialogue
import Gamebook.Shell.Folder
import Gamebook.Story.Loading

/-!
# Running commands

`run` turns a command line into a report: what is written to the terminal, and how the program
ends.  Everything that it needs to know is in the world that it is given.
-/

namespace Gamebook.Shell

/-- What a command finds outside: environment variables, files, lines to read, the dice, and the checker
of documents. -/
structure World where
  environment : String → Option String
  file : String → Opened
  lines : List String
  dice : Dice
  checker : Checker

/-- Why a command breaks off. -/
inductive Failure where
  | range (error : RangeError)
  | notUtf8 (fault : Text.Utf8.Fault)
  | notJson (fault : Datum.ReadFault)
  | noFile (name : String)
  | notOpened (fault : OpenFault)
  | entity (error : EntityError)
  | noNumber (text : String)
  | brokenOff (message : String)

/-- The failure of reading a document. -/
def Failure.ofRead : Datum.ReadError → Failure
  | .malformed f => .notJson f
  | .range e => .range e

/-- The wording of a failure. -/
def Failure.message : Failure → String
  | .range e => e.message
  | .notUtf8 f => f.message
  | .notJson f => f.message
  | .noFile name =>
    "[Errno 2] No such file or directory: " ++ String.ofList (Text.quoted name.toList)
  | .notOpened f => f.message
  | .entity e => e.message
  | .noNumber text =>
    "invalid literal for int() with base 10: " ++ String.ofList ((Text.quoted text.toList).take 200)
  | .brokenOff message => message

/-- How the program ends. -/
inductive Ending where
  | exit (code : Nat)
  | failed (failure : Failure)

/-- What is written, and how the program ends. -/
structure Report where
  output : String
  ending : Ending

namespace Report

/-- Ends with a code. -/
def exit (output : String) (code : Nat) : Report :=
  ⟨output, .exit code⟩

/-- Breaks off. -/
def failed (output : String) (failure : Failure) : Report :=
  ⟨output, .failed failure⟩

/-- Puts text in front of a report. -/
def after (text : String) (r : Report) : Report :=
  ⟨text ++ r.output, r.ending⟩

end Report

/-- Writes every line break as a single character. -/
def unifyLineBreaks : List Char → List Char
  | '\r' :: '\n' :: cs => '\n' :: unifyLineBreaks cs
  | '\r' :: cs => '\n' :: unifyLineBreaks cs
  | c :: cs => c :: unifyLineBreaks cs
  | [] => []

/-- Cuts text into lines; a last line without a line break counts too. -/
def linesOf (cs : List Char) : List String :=
  let ps := Text.pieces '\n' cs
  (if ps.getLast? = some [] then ps.dropLast else ps).map String.ofList

/-- What loading a story from a file leads to. -/
inductive Loaded where
  | story (s : Story)
  | missing
  | refused (message : String)
  | invalid (issues : List Issue)
  | failed (failure : Failure)

/-- Loads a story from a file, whose name need not be tidy. -/
def loadFile (w : World) (name : String) (allowCycles : Bool) : Loaded :=
  match w.file (tidyName name) with
  | .missing => .missing
  | .refused f => .failed (.notOpened f)
  | .text (.error f) => .failed (.notUtf8 f)
  | .text (.ok text) =>
    match Story.loadText w.checker (unifyLineBreaks text.toList) allowCycles with
    | .ok s => .story s
    | .error (.document e) => .refused e.message
    | .error (.invalid issues) => .invalid issues
    | .error (.range e) => .failed (.range e)
    | .error (.brokenOff message) => .failed (.brokenOff message)
    | .error (.notUtf8 f) => .failed (.notUtf8 f)

/-- Validates stories one after the other; `failures` says whether one has failed before. -/
def validate (w : World) (allowCycles failures : Bool) : List String → Report
  | [] => .exit "" (if failures then 1 else 0)
  | name :: names =>
    match loadFile w name allowCycles with
    | .story s =>
      (validate w allowCycles failures names).after
        s!"{name}: OK ({s.nodes.size} nodes, start: {s.start})\n"
    | .missing =>
      (validate w allowCycles true names).after s!"{name}: file not found\n"
    | .refused message =>
      (validate w allowCycles true names).after s!"{name}: {message}\n"
    | .invalid issues =>
      (validate w allowCycles true names).after
        (String.join (s!"{name}: {issues.length} issue(s)\n"
          :: issues.map fun i => s!"  - {i.line}\n"))
    | .failed f => .failed "" f

/-- Reads the items of a catalog. -/
def readEntities : List Datum → Except Failure (List Entity)
  | [] => .ok []
  | d :: ds => do
    let e ← (Entity.ofDatum d).mapError .entity
    return e :: (← readEntities ds)

/-- Reads a catalog from a file: a list of items, or an object with items as values. -/
def loadCatalog (w : World) (name : Option String) : Except Failure Catalog :=
  match name with
  | none => .ok ∅
  | some "" => .ok ∅
  | some name =>
    match w.file name with
    | .missing => .error (.noFile name)
    | .refused f => .error (.notOpened f)
    | .text (.error f) => .error (.notUtf8 f)
    | .text (.ok text) => do
      let d ← (Datum.read (unifyLineBreaks text.toList)).mapError .ofRead
      let items ←
        match d with
        | .list items => pure items
        | .object ms => pure (ms.map Prod.snd)
        | .text "" => pure []
        | _ => throw (.entity .notObject)
      return Catalog.ofItems (← readEntities items)

/-- Takes given choices, then shows the session and the inventory. -/
def playChoices (p : Playthrough) : (asked : List Datum) → Report
  | [] =>
    match p.session.toDatum.write with
    | .error e => .failed "" (.range e)
    | .ok state =>
      let items :=
        if p.inventory.ids.isEmpty then ""
        else "Inventory: " ++ ", ".intercalate p.inventory.ids ++ "\n"
      .exit (String.ofList state ++ "\n" ++ items) 0
  | d :: ds =>
    match p.choose d with
    | (none, p) =>
      (playChoices p ds).after s!"{String.ofList d.plain} -> {p.session.node}\n"
    | (some (.choice e), _) => .exit s!"Error: {e.message}\n" 1
    | (some (.range e), _) => .failed "" (.range e)

/-- Plays interactively until the story ends, the reader leaves or the lines run out.  The heading is
written before the choices are looked up. -/
def converse (p : Playthrough) (lines : List String) : Report :=
  match p.choices with
  | .error e => .failed (heading p) (.range e)
  | .ok choices =>
    if choices.isEmpty then .exit (screen p choices ++ ending) 0
    else
      let asked := screen p choices ++ prompt
      match lines with
      | [] => .exit asked 0
      | line :: lines =>
        match reply p choices line with
        | .left => .exit asked 0
        | .next text p => (converse p lines).after (asked ++ text)
        | .range e => .failed asked (.range e)
        | .noNumber text => .failed asked (.noNumber text)

/-- Begins to play a story, or reports why that is impossible. -/
def beginPlay (w : World) (file : String) (catalog : Option String) :
    Except Report Playthrough :=
  match loadFile w file true with
  | .missing => .error (.exit s!"Error: File not found: {file}\n" 1)
  | .refused message => .error (.exit s!"Error: {message}\n" 1)
  | .invalid issues => .error (.exit s!"Error: {Issue.summary issues}\n" 1)
  | .failed f => .error (.failed "" f)
  | .story s =>
    match loadCatalog w catalog with
    | .error f => .error (.failed "" f)
    | .ok catalog => .ok (.begin s ∅ (s.begin {}) (.withItems catalog []) w.dice)

/-- Shows what a text stands for, and its text form. -/
def shown (dump : Datum) (text : String) (isVerbatim : Bool) : Except RangeError String := do
  let written ← dump.write
  return String.ofList written ++ s!"\nserialized: {text}\n"
    ++ if isVerbatim then "(unrecognised; kept as text)\n" else ""

/-- Reads a condition and shows it. -/
def showCondition (text : String) : Except RangeError String := do
  match ← Condition.ofText text.toList with
  | none => shown .null "" false
  | some c => shown c.toDatum (← c.render) (c matches .verbatim _)

/-- Reads an effect and shows it. -/
def showEffect (text : String) : Except RangeError String := do
  match ← Effect.ofText text.toList with
  | none => shown .null "" false
  | some e => shown e.toDatum (← e.render) (e matches .verbatim _)

/-- Writes a text, or breaks off without writing anything. -/
def writing : Except RangeError String → Report
  | .ok text => .exit text 0
  | .error e => .failed "" (.range e)

/-- Runs a command. -/
def Command.run (w : World) : Command → Report
  | .help text => .exit text 0
  | .nothing => .exit programHelp 1
  | .misuse => .exit "" 2
  | .validate files allowCycles => Shell.validate w allowCycles false files
  | .play file choices catalog =>
    match beginPlay w file catalog with
    | .error report => report
    | .ok p => if choices.isEmpty then converse p w.lines else playChoices p choices
  | .read .condition text => writing (showCondition text)
  | .read .effect text => writing (showEffect text)

/-- Runs a command line. -/
def run (w : World) (args : List String) : Report :=
  (Command.ofArguments (Settings.ofEnvironment w.environment) args).run w

end Gamebook.Shell
