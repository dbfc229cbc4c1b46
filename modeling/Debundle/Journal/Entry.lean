import Debundle.Text.Basic

/-!
# Journal entries

While it works, the unpacker notes what it meets: names that disagree, modules it cannot read,
references it renames.  An entry has a level, the channel it comes through, and a message.

* `Level`: how much an entry matters; levels are numbers, five of which have a name.
* `Entry`: one entry.
* `Channel`: the parts of the unpacker that have something to say.
-/

namespace Debundle

/-- How much an entry matters. -/
structure Level where
  /-- The larger, the more serious. -/
  number : Int
deriving DecidableEq, Repr

namespace Level

/-- For following every step. -/
def debug : Level := ⟨10⟩

/-- Worth knowing. -/
def info : Level := ⟨20⟩

/-- Something had to be left out or guessed. -/
def warning : Level := ⟨30⟩

/-- Something could not be done. -/
def error : Level := ⟨40⟩

/-- Nothing more can be done. -/
def critical : Level := ⟨50⟩

/-- The name of a level. -/
def name (l : Level) : Text :=
  if l = debug then "DEBUG"
  else if l = info then "INFO"
  else if l = warning then "WARNING"
  else if l = error then "ERROR"
  else if l = critical then "CRITICAL"
  else "Level " ++ Text.ofInt l.number

end Level

/-- One entry of the journal. -/
structure Entry where
  /-- How much it matters. -/
  level : Level
  /-- The channel it comes through. -/
  channel : Text
  /-- What it says. -/
  message : Text
deriving DecidableEq, Repr

namespace Channel

/-- The reconstruction of directories. -/
def forest : Text := "unbundle.path_tree"

/-- The bookkeeping over several bundles. -/
def session : Text := "unbundle.session"

/-- The reading of packed bundles. -/
def packed : Text := "unbundle.extractors.packed"

/-- The reading of bundles of definitions. -/
def amd : Text := "unbundle.extractors.amd"

/-- The unpacking of bundles inside bundles. -/
def unpack : Text := "unbundle.recursive"

/-- The gathering of all modules. -/
def aggregate : Text := "unbundle.aggregate"

/-- The restoring of parameter names. -/
def factory : Text := "unbundle.passes.restore_params"

/-- The renaming of exported variables. -/
def exports : Text := "unbundle.passes.rename_exports"

/-- The command line. -/
def command : Text := "unbundle.main"

end Channel

end Debundle
