import Debundle.Journal.Entry
import Debundle.Text.Utf8
import Debundle.Text.Quoted

/-!
# Where the journal is shown

Entries go to the console and, if one is asked for, to a file.  The console shows the entries
from a threshold on, in colour on a terminal.  The file gets everything from `debug` on, a line
each, with the time in front.

* `Verbosity`: how much is shown.
* `Setup`: which entries are shown where.
* `Setup.consoleLines`, `Setup.fileLines`: the text that the console and the file get.
* `colorize`: a text in colour.
-/

namespace Debundle

/-! ## Colours -/

/-- The code of a colour; `0` stands for a colour that is not known. -/
def colourCode (name : Text) : Text :=
  let table : List (String × String) := [
    ("red", "31"), ("green", "32"), ("yellow", "33"), ("blue", "34"), ("magenta", "35"),
    ("cyan", "36")]
  match table.find? fun row => Text.ofString row.1 == name with
  | some row => row.2
  | none => "0"

/-- A text in a colour, in bold type if `bold`. -/
def colorize (text colour : Text) (bold : Bool) : Text :=
  let style : Text := if bold then "1;" else []
  "\x1b[" ++ style ++ colourCode colour ++ "m" ++ text ++ "\x1b[0m"

/-- The colour of a level. -/
def Level.colour (l : Level) : Text :=
  if l = debug then "blue"
  else if l = info then "green"
  else if l = warning then "yellow"
  else if l = error then "red"
  else if l = critical then "magenta"
  else "green"

/-! ## Verbosity -/

/-- How much is shown.  `quiet` and `normal` differ in the progress that the command prints, and
not in the entries that are shown. -/
inductive Verbosity where
  | quiet
  | normal
  | verbose
deriving DecidableEq, Repr

namespace Verbosity

/-- The name of a verbosity. -/
def name : Verbosity → Text
  | .quiet => "quiet"
  | .normal => "normal"
  | .verbose => "verbose"

/-- The verbosity with a name. -/
def ofName? (t : Text) : Option Verbosity := [quiet, normal, verbose].find? fun v => v.name == t

/-- The level from which on entries are shown. -/
def threshold : Verbosity → Level
  | .quiet => .warning
  | .normal => .warning
  | .verbose => .debug

end Verbosity

/-! ## Setup -/

/-- Which entries are shown where. -/
structure Setup where
  /-- How much the console shows. -/
  verbosity : Verbosity
  /-- Whether the console is a terminal. -/
  terminal : Bool
  /-- Whether there is a file. -/
  file : Bool
deriving DecidableEq, Repr

namespace Setup

/-- The level below which entries go nowhere. -/
def floor (s : Setup) : Level := if s.file then .debug else s.verbosity.threshold

/-- Whether the console shows an entry. -/
def isShown (s : Setup) (e : Entry) : Bool :=
  s.floor.number ≤ e.level.number && s.verbosity.threshold.number ≤ e.level.number

/-- Whether the file keeps an entry: it can only keep what can be encoded. -/
def isKept (s : Setup) (e : Entry) : Bool :=
  s.file && s.floor.number ≤ e.level.number && (e.channel ++ e.message).surrogateAt?.isNone

/-- An entry as a line of the console. -/
def consoleLine (s : Setup) (e : Entry) : Text :=
  let line := e.level.name ++ ": " ++ e.message
  (if s.terminal then colorize line e.level.colour false else line) ++ "\n"

/-- An entry as a line of the file, with the time in front. -/
def fileLine (time : Text) (e : Entry) : Text :=
  time ++ " - " ++ e.channel ++ " - " ++ e.level.name ++ " - " ++ e.message ++ "\n"

/-- What the console shows of some entries. -/
def consoleLines (s : Setup) (entries : List Entry) : Text :=
  (entries.filter s.isShown).flatMap s.consoleLine

/-- What the file keeps of some entries. -/
def fileLines (s : Setup) (time : Text) (entries : List Entry) : Text :=
  (entries.filter s.isKept).flatMap (fileLine time)

end Setup

end Debundle
