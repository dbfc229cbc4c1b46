import Debundle.Digest
import Debundle.Exports
import Debundle.Options
import Debundle.Path.Target
import Debundle.Report
import Debundle.Storage.Host
import Debundle.Unpack.Aggregate

/-!
# Writing modules

The modules go below the output directory, one after the other.  A module that cannot be written
is an error in the report, and the next one follows.  A path or a content that no file can have
breaks the command off, and so does a line that cannot be printed.

Of a small number of modules every one is shown; of a larger number the first ones are, and after
that a line about the progress every now and then.

* `Breakdown`: why the command breaks off.
* `writeModule`: writes one module.
* `Announcement`, `announce`: what is shown of a module that was written.
* `writeModules`: writes all modules.
-/

namespace Debundle.Command

open Script (EditError)

/-- Why the command breaks off. -/
inductive Breakdown where
  /-- There are no options. -/
  | options (e : OptionsError)
  /-- The configuration file has no name. -/
  | unnamedConfig
  /-- The file for the report has no name. -/
  | unnamedReport
  /-- A step on files was not done, or a text was not printed. -/
  | storage (e : StorageError)
  /-- The bundles cannot be unpacked. -/
  | bundles (e : BundleError)
  /-- The exports of a module cannot be renamed. -/
  | unedited (e : EditError)
  /-- A source has no digest. -/
  | noDigest

/-- What is said about a fault in the unpacking. -/
def faultMessage : Fault → Text
  | .literal e => e.message
  | .noDigest => "a source has no UTF-8 form"
  | .unedited _ => "a source cannot be put together"
  | .forest e => e.message
  | .badPath => "the path of a bundle is no text"
  | .badSource => "the source of a bundle is no text"
  | .exhausted => "the bundles contain themselves"

/-- What is said when the command breaks off. -/
def Breakdown.message : Breakdown → Text
  | .options e => e.message
  | .unnamedConfig => "the configuration file has no name"
  | .unnamedReport => "the file for the report has no name"
  | .storage e => e.message
  | .bundles (.notAMapping v) => "no bundle: " ++ v.spelling
  | .bundles (.fault f) => faultMessage f
  | .unedited _ => "a source cannot be put together"
  | .noDigest => "a source has no UTF-8 form"

/-- A part of the command: it may break off. -/
abbrev Part (m : Type → Type) (α : Type) := ExceptT Breakdown m α

variable {m : Type → Type} [Monad m]

/-- Prints a text; one that the output has no bytes for breaks the command off. -/
def printText (h : Host m) (text : Text) : Part m Unit := do
  match ← h.print text with
  | .ok () => return ()
  | .error e => throw (.storage e)

/-- Prints a line. -/
def printLine (h : Host m) (line : Text) : Part m Unit := printText h (line ++ "\n")

/-- Shows journal entries. -/
def note (h : Host m) (setup : Setup) (entries : List Entry) : Part m Unit := h.note setup entries

/-! ## One module -/

/-- A module as it is written: the content, and the report with the exports that were renamed. -/
def prepare (h : Host m) (setup : Setup) (o : Options) (path source : Text) (r : Report) :
    Part m (Text × Report) := do
  if o.renameExports.isTruthy then
    match renameExports source (some path) with
    | .error e => throw (.unedited e)
    | .ok changed =>
      note h setup changed.entries
      let names := changed.renamed.map fun (old, new) => old ++ " -> " ++ new
      let table :=
        if names.isEmpty then r.renamedExports else Table.insert path names r.renamedExports
      return (changed.source, { r with renamedExports := table })
  else return (source, r)

/-- Writes a module.  What is said about a failure comes with the report. -/
def writeModule (h : Host m) (setup : Setup) (o : Options) (root path source : Text) (r : Report) :
    Part m (Except Text Unit × Report) := do
  match Path.safeJoin root (Path.withSuffix path o.outputSuffix) with
  | .error refusal => return (.error refusal.message, r)
  | .ok target =>
    let (content, r) ← prepare h setup o path source r
    match ← h.writeText target content with
    | .ok () => return (.ok (), r)
    | .error e => if e.isRefusal then return (.error e.message, r) else throw (.storage e)

/-! ## What is shown -/

/-- What is shown of a module that was written. -/
inductive Announcement where
  /-- Its path, size and digest. -/
  | details
  /-- How many modules there were so far. -/
  | progress
  /-- Nothing. -/
  | nothing
deriving DecidableEq, Repr

/-- Whether there are so few modules that all of them are shown. -/
def isSmall (o : Options) (total : Nat) : Bool := total ≤ o.smallBundleThreshold

/-- What is shown of the module with a number, from one on, after the details of some modules were
shown. -/
def announcement (o : Options) (total number detailed : Nat) : Announcement :=
  match o.verbosity with
  | .quiet => .nothing
  | .verbose => .details
  | .normal =>
    if isSmall o total || detailed < o.maxDetailedLogs then .details
    else if number % o.progressInterval = 0 then .progress
    else .nothing

/-- The line between the details of modules. -/
def rule : Text := List.replicate 40 '-'

/-- The path, size and digest of a module. -/
def details (path source : Text) : Except Breakdown (List Text) := do
  let digest ← source.digest.mapError fun _ => Breakdown.noDigest
  return ["✓ " ++ path, "  Size: " ++ Text.ofNat source.utf8Size ++ " bytes",
    "  Hash: " ++ digest, rule]

/-- Shows a module that was written, and gives the number of modules whose details were shown. -/
def announce (h : Host m) (o : Options) (total number detailed : Nat) (path source : Text) :
    Part m Nat := do
  match announcement o total number detailed with
  | .details =>
    let lines ← ExceptT.mk (pure (details path source))
    lines.forM (printLine h)
    return detailed + 1
  | .progress =>
    printLine h ("Progress: " ++ Text.ofNat number ++ "/" ++ Text.ofNat total
      ++ " modules written...")
    return detailed
  | .nothing => return detailed

/-- Says how many modules were not shown in detail. -/
def announceSkipped (h : Host m) (o : Options) (total detailed : Nat) : Part m Unit := do
  if o.verbosity = .normal ∧ isSmall o total = false ∧ 0 < detailed ∧ detailed < total then
    printLine h ("Skipped detailed logs for " ++ Text.ofNat (total - detailed)
      ++ " module(s). Use --verbose to see all.")

/-! ## All modules -/

/-- The entry about a module that was not written. -/
def unwrittenEntry (path reason : Text) : Entry :=
  ⟨.error, Channel.command, "Failed to write " ++ path ++ ": " ++ reason⟩

/-- Writes modules, the first of which has a number, and gives the report with the number of
modules whose details were shown. -/
def writeFrom (h : Host m) (setup : Setup) (o : Options) (root : Text) (total : Nat) :
    Nat → Nat → Report → List SourceModule → Part m (Report × Nat)
  | _, detailed, r, [] => return (r, detailed)
  | number, detailed, r, source :: rest => do
    let path := source.path.display
    match ← writeModule h setup o root path source.source r with
    | (.error reason, r) =>
      note h setup [unwrittenEntry path reason]
      writeFrom h setup o root total (number + 1) detailed (r.withError path reason) rest
    | (.ok (), r) =>
      let detailed ← announce h o total number detailed path source.source
      writeFrom h setup o root total (number + 1) detailed (r.withPath path) rest

/-- Writes modules below a directory. -/
def writeModules (h : Host m) (setup : Setup) (o : Options) (root : Text)
    (modules : List SourceModule) (r : Report) : Part m Report := do
  let (r, detailed) ← writeFrom h setup o root modules.length 1 0 r modules
  announceSkipped h o modules.length detailed
  return r

end Debundle.Command
