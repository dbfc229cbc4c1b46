import Debundle.Journal.Console
import Debundle.Path.Location
import Debundle.Text.Digit
import Debundle.Text.Quoted

/-!
# The command line

The words of the command line are flags, values of flags, and paths.  A long flag may be cut short
as long as only one flag begins like that, and its value may be attached with an equals sign;
short flags may be joined.  A word `--` ends the flags.  All paths have to stand together.

Every word is classified before any of them is acted upon, so a flag that is ambiguous is an error
even behind a request for help.  After that the words are read from left to right, and the first
error or request for help ends the reading.  Words that are not known are gathered, and are an
error at the end.

* `Flag`: the flags with their spellings.
* `Word`, `classifyAll`: what the words are.
* `Arguments`: what the command line asks for.
* `Arguments.read`: reads a command line.
* `UsageError.message`, `usage`, `help`: the texts.
-/

namespace Debundle.Command

/-! ## Flags -/

/-- The flags. -/
inductive Flag where
  | help
  | quiet
  | verbose
  | config
  | logFile
  | noRenameExports
  | report
  | list
deriving DecidableEq, Repr

namespace Flag

/-- All flags, in the order in which they are described. -/
def all : List Flag := [help, quiet, verbose, config, logFile, noRenameExports, report, list]

/-- How a flag is written. -/
def spellings : Flag → List Text
  | .help => [Text.ofString "-h", Text.ofString "--help"]
  | .quiet => [Text.ofString "-q", Text.ofString "--quiet"]
  | .verbose => [Text.ofString "-v", Text.ofString "--verbose"]
  | .config => [Text.ofString "--config"]
  | .logFile => [Text.ofString "--log-file"]
  | .noRenameExports => [Text.ofString "--no-rename-exports"]
  | .report => [Text.ofString "--report"]
  | .list => [Text.ofString "--list"]

/-- Whether a value belongs to a flag. -/
def takesValue : Flag → Bool
  | .config | .logFile | .report => true
  | _ => false

/-- A flag in a message. -/
def shown (f : Flag) : Text := Text.join "/" f.spellings

/-- Every spelling with its flag. -/
def table : List (Text × Flag) := all.flatMap fun f => f.spellings.map fun s => (s, f)

/-- The flag that is written like this. -/
def ofSpelling? (t : Text) : Option Flag := (table.find? fun e => e.1 == t).map Prod.snd

end Flag

/-- Why a command line is not accepted. -/
inductive UsageError where
  /-- Several flags begin like this. -/
  | ambiguous (word : Text) (candidates : List Text)
  /-- A flag has no value. -/
  | missingValue (f : Flag)
  /-- A value is attached to a flag that takes none. -/
  | unusedValue (f : Flag) (value : Text)
  /-- Two flags exclude each other. -/
  | conflict (f earlier : Flag)
  /-- There are words that mean nothing. -/
  | unrecognized (words : List Text)
deriving DecidableEq, Repr

/-- What is said about a command line that is not accepted. -/
def UsageError.message : UsageError → Text
  | .ambiguous word candidates =>
    "ambiguous option: " ++ word ++ " could match " ++ Text.join ", " candidates
  | .missingValue f => "argument " ++ f.shown ++ ": expected one argument"
  | .unusedValue f value =>
    "argument " ++ f.shown ++ ": ignored explicit argument " ++ value.quoted
  | .conflict f earlier =>
    "argument " ++ f.shown ++ ": not allowed with argument " ++ earlier.shown
  | .unrecognized words => "unrecognized arguments: " ++ Text.join " " words

/-! ## Words -/

/-- What a word of the command line is. -/
inductive Word where
  /-- A path, or the value of a flag. -/
  | operand (text : Text)
  /-- The end of the flags. -/
  | separator
  /-- A flag, whether it is written long, and the text attached to it. -/
  | flag (f : Flag) (long : Bool) (attached : Option Text)
  /-- What looks like a flag and is none. -/
  | unknown (text : Text)
deriving DecidableEq, Repr

/-- The word that ends the flags. -/
def endOfFlags : Text := "--"

/-- A text up to the first equals sign, and what follows the sign if there is one. -/
def splitValue (t : Text) : Text × Option Text :=
  (t.takeWhile fun c => !c.is '=', (t.dropWhile fun c => !c.is '=').tail?)

/-- Whether a text is written like a number below zero; a line feed may follow. -/
def isNegativeNumber (t : Text) : Bool :=
  match t with
  | [] => false
  | minus :: body =>
    let body := if Text.endsWith body "\n" then body.dropLast else body
    let fraction := (body.dropWhile CodePoint.isDecimal).tail
    minus.is '-' &&
      ((!body.isEmpty && body.all CodePoint.isDecimal) ||
        (((body.dropWhile CodePoint.isDecimal).head?.any (·.is '.')) && !fraction.isEmpty
          && fraction.all CodePoint.isDecimal))

/-- The flags that begin like a long word. -/
def candidates (word : Text) : List (Text × Flag) :=
  Flag.table.filter fun e => Text.startsWith e.1 (splitValue word).1

/-- A word with a dash in front that is no spelling of a flag, and to which no value is attached
with an equals sign behind a spelling. -/
def classifyRest (word : Text) : Except UsageError Word :=
  let other : Word :=
    if isNegativeNumber word || word.any (·.is ' ') then .operand word else .unknown word
  if Text.startsWith word endOfFlags then
    match candidates word with
    | [] => .ok other
    | [(_, f)] => .ok (.flag f true (splitValue word).2)
    | several => .error (.ambiguous word (several.map Prod.fst))
  else
    match Flag.ofSpelling? (word.take 2) with
    | some f => .ok (.flag f false (some (word.drop 2)))
    | none => .ok other

/-- What a word before the end of the flags is. -/
def classify (word : Text) : Except UsageError Word :=
  let long := Text.startsWith word endOfFlags
  if !Text.startsWith word "-" then .ok (.operand word)
  else
    match Flag.ofSpelling? word with
    | some f => .ok (.flag f long none)
    | none =>
      if word.length = 1 then .ok (.operand word)
      else
        match splitValue word with
        | (spelling, some value) =>
          match Flag.ofSpelling? spelling with
          | some f => .ok (.flag f long (some value))
          | none => classifyRest word
        | (_, none) => classifyRest word

/-- What all words are; behind the end of the flags there are only operands. -/
def classifyAll : List Text → Except UsageError (List Word)
  | [] => .ok []
  | word :: words =>
    if word == endOfFlags then .ok (.separator :: words.map Word.operand)
    else do
      let first ← classify word
      return first :: (← classifyAll words)

/-! ## Reading -/

/-- A file or directory that is the value of a flag.  The mark `--` as a value names nothing. -/
inductive FileArgument where
  /-- A location. -/
  | location (l : Location)
  /-- Nothing. -/
  | nothing
deriving DecidableEq, Repr

/-- The value of a flag. -/
def FileArgument.ofText (t : Text) : FileArgument :=
  if t == endOfFlags then .nothing else .location (Location.ofText t)

/-- What the command line asks for. -/
structure Arguments where
  /-- The verbosity, if it is given. -/
  verbosity : Option Verbosity
  /-- The configuration file. -/
  config : Option FileArgument
  /-- The file for the journal. -/
  logFile : Option FileArgument
  /-- Whether exported variables keep their names. -/
  keepsExports : Bool
  /-- The file for the report. -/
  report : Option FileArgument
  /-- Whether the modules are listed and not written. -/
  lists : Bool
  /-- The paths. -/
  paths : List Text
deriving DecidableEq, Repr

/-- The empty command line. -/
def Arguments.empty : Arguments := ⟨none, none, none, false, none, false, []⟩

/-- Why the reading of a command line ends early. -/
inductive Stop where
  /-- Help was asked for. -/
  | help
  /-- There is an error. -/
  | usage (e : UsageError)
deriving DecidableEq, Repr

/-- Acts upon a flag without a value. -/
def Arguments.takeFlag (a : Arguments) : Flag → Except Stop Arguments
  | .help => .error .help
  | .quiet =>
    if a.verbosity = some .verbose then .error (.usage (.conflict .quiet .verbose))
    else .ok { a with verbosity := some .quiet }
  | .verbose =>
    if a.verbosity = some .quiet then .error (.usage (.conflict .verbose .quiet))
    else .ok { a with verbosity := some .verbose }
  | .noRenameExports => .ok { a with keepsExports := true }
  | .list => .ok { a with lists := true }
  | _ => .ok a

/-- Acts upon a flag with a value. -/
def Arguments.takeValue (a : Arguments) (f : Flag) (value : Text) : Arguments :=
  match f with
  | .config => { a with config := some (.ofText value) }
  | .logFile => { a with logFile := some (.ofText value) }
  | .report => { a with report := some (.ofText value) }
  | _ => a

/-- The flags that are joined in a word: `f`, and those that the attached text writes. -/
def joined (f : Flag) : Text → Except UsageError (List Flag)
  | [] => .ok [f]
  | c :: rest =>
    match Flag.ofSpelling? [CodePoint.ofChar '-', c] with
    | none => .error (.unusedValue f (c :: rest))
    | some g => do return f :: (← joined g rest)

/-- The flags without a value that a word writes. -/
def flagsOf (f : Flag) (long : Bool) : Option Text → Except UsageError (List Flag)
  | none => .ok [f]
  | some text => if long || text.isEmpty then .error (.unusedValue f text) else joined f text

/-- Where the paths are in the command line: still to come, being read, or behind. -/
inductive PathsAt where
  | ahead
  | here
  | behind
deriving DecidableEq, Repr

/-- Behind a flag there are no more paths if there were any before it. -/
def PathsAt.pass : PathsAt → PathsAt
  | .here => .behind
  | p => p

/-- Reads words; the words that mean nothing come with the result. -/
def readWords : PathsAt → Arguments → List Word → Except Stop (Arguments × List Text)
  | _, a, [] => .ok (a, [])
  | p, a, .unknown text :: words => do
    let (a, extra) ← readWords p.pass a words
    return (a, text :: extra)
  | p, a, .operand text :: words =>
    if p = .behind then do
      let (a, extra) ← readWords p a words
      return (a, text :: extra)
    else readWords .here { a with paths := a.paths ++ [text] } words
  | p, a, .separator :: words =>
    if p = .behind then do
      let (a, extra) ← readWords p a words
      return (a, endOfFlags :: extra)
    else readWords .here a words
  | p, a, .flag f long attached :: words =>
    if f.takesValue then
      match attached, words with
      | some value, words => readWords p.pass (a.takeValue f value) words
      | none, .operand value :: words => readWords p.pass (a.takeValue f value) words
      | none, _ => .error (.usage (.missingValue f))
    else do
      let flags ← (flagsOf f long attached).mapError Stop.usage
      let a ← flags.foldlM Arguments.takeFlag a
      readWords p.pass a words

/-- What a command line asks for. -/
def Arguments.read (words : List Text) : Except Stop Arguments := do
  let words ← (classifyAll words).mapError Stop.usage
  let (a, extra) ← readWords .ahead Arguments.empty words
  if extra.isEmpty then return a else .error (.usage (.unrecognized extra))

/-! ## Texts -/

/-- Lines, each with its end. -/
def lines (ls : List String) : Text := ls.flatMap fun l => Text.ofString l ++ "\n"

/-- How the command is called. -/
def usage : Text := lines [
  "usage: unpack-bundle [-h] [-q | -v] [--config CONFIG] [--log-file LOG_FILE]",
  "                     [--no-rename-exports] [--report REPORT] [--list]",
  "                     [PATH ...]"]

/-- What the command does, and what its flags mean. -/
def help : Text := usage ++ lines [
  "",
  "Unpack Browserify and AMD bundles into their original source files",
  "",
  "positional arguments:",
  "  PATH                 bundle files followed by the output directory",
  "",
  "options:",
  "  -h, --help           show this help message and exit",
  "  -q, --quiet          skip per-module details and progress lines",
  "  -v, --verbose        print every module, debug logs and a closing report",
  "  --config CONFIG      YAML file with default options",
  "  --log-file LOG_FILE  also write a full debug log to this file",
  "  --no-rename-exports  write module sources without renaming exported locals",
  "  --report REPORT      write a JSON summary of the run",
  "  --list               print the reconstructed paths of each bundle instead of",
  "                       writing files"]

/-- What is printed about a command line that is not accepted. -/
def complaint (e : UsageError) : Text :=
  usage ++ "unpack-bundle: error: " ++ e.message ++ "\n"

end Debundle.Command
