import Debundle.Command.Arguments
import Debundle.Command.Output

/-!
# Running the command

The command reads bundles and writes their modules below a directory, or lists them.

* `resolveOptions`: the options from the configuration file and the command line.
* `listBundles`: lists the modules of bundles.
* `unpackInto`: writes the modules of bundles.
* `run`: the command, up to its exit status.
-/

namespace Debundle.Command

variable {m : Type → Type} [Monad m]

/-! ## Options -/

/-- The options that the command line overrides. -/
def overrides (a : Arguments) : Table Value := [
  (Text.ofString "log_level",
    match a.verbosity with
    | some v => .scalar (.text v.name)
    | none => .scalar .null),
  (Text.ofString "rename_exports",
    if a.keepsExports then .scalar (.bool false) else .scalar .null),
  (Text.ofString "log_file",
    match a.logFile with
    | some (.location l) => .scalar (.text l.toText)
    | some .nothing => .list []
    | none => .scalar .null)]

/-- The options that a configuration and the command line give, or what is said about them. -/
def combine (a : Arguments) (base : Except OptionsError Options) :
    Except Breakdown (Except Text Options) :=
  match base.bind fun o => o.merged (overrides a) with
  | .ok o => .ok (.ok o)
  | .error e => if e.isComplaint then .ok (.error e.message) else .error (.options e)

/-- The options of a run, or what is said about them. -/
def resolveOptions (h : Host m) (a : Arguments) : Part m (Except Text Options) := do
  match a.config with
  | none => ExceptT.mk (pure (combine a (Options.check Options.defaults)))
  | some .nothing => throw .unnamedConfig
  | some (.location l) =>
    match ← h.readText l.toText with
    | .error e => return .error e.message
    | .ok text => ExceptT.mk (pure (combine a (Options.ofDocument l.toText text)))

/-- Begins the journal. -/
def beginJournal (h : Host m) (o : Options) : Part m Setup := do
  match o.logFile with
  | none => return ⟨o.verbosity, ← h.terminal, false⟩
  | some l =>
    match ← h.beginJournal l with
    | .error e => throw (.storage e)
    | .ok () => return ⟨o.verbosity, ← h.terminal, true⟩

/-! ## Bundles -/

/-- A bundle as the unpacking takes it. -/
def bundleValue (l : Location) (source : Text) : Value := .mapping [
  (.text "path", .scalar (.text l.fileName)),
  (.text "source", .scalar (.text source))]

/-- Reads bundles; the first that cannot be read ends the reading. -/
def readBundles (h : Host m) : List Text → Part m (Except Host.ReadError (List Value))
  | [] => return .ok []
  | path :: paths => do
    let l := Location.ofText path
    match ← h.readText l.toText with
    | .error e => return .error e
    | .ok source =>
      match ← readBundles h paths with
      | .error e => return .error e
      | .ok rest => return .ok (bundleValue l source :: rest)

/-- The entry about a bundle that could not be read. -/
def unreadEntry (e : Host.ReadError) : Entry :=
  ⟨.error, Channel.command, "Failed to read bundle: " ++ e.message⟩

/-- The exit status after a bundle could not be read.  A path that no file can have breaks the
command off. -/
def unread (h : Host m) (setup : Setup) (e : Host.ReadError) : Part m Nat := do
  match e.misnamed? with
  | some flaw => throw (.storage flaw)
  | none =>
    note h setup [unreadEntry e]
    return 1

/-- The modules of bundles. -/
def modulesOf (h : Host m) (setup : Setup) (bundles : List Value) : Part m (List SourceModule) := do
  let outcome := unpackBundles defaultSteps bundles
  note h setup outcome.entries
  ExceptT.mk (pure (outcome.result.mapError Breakdown.bundles))

/-! ## Listing -/

/-- The lines for the modules of a bundle, the first of which has a number. -/
def pathLines : Nat → List SourceModule → List Text
  | _, [] => []
  | number, source :: rest =>
    ("  [" ++ Text.ofNat number ++ "] " ++ source.path.display) :: pathLines (number + 1) rest

/-- Lists the modules of bundles, each of which comes with the path by which it was asked for. -/
def listEach (h : Host m) (setup : Setup) : List (Text × Value) → Part m Unit
  | [] => return ()
  | (path, bundle) :: rest => do
    let modules ← modulesOf h setup [bundle]
    printLine h ("Bundle: " ++ path)
    printLine h ("Modules: " ++ Text.ofNat modules.length)
    (pathLines 0 modules).forM (printLine h)
    printLine h []
    listEach h setup rest

/-- Lists the modules of bundles. -/
def listBundles (h : Host m) (setup : Setup) (paths : List Text) : Part m Nat := do
  if paths.isEmpty then
    h.printError "Usage: unpack-bundle --list <bundle1> [bundle2 ...]\n"
    return 1
  else
    match ← readBundles h paths with
    | .error e => unread h setup e
    | .ok bundles =>
      listEach h setup (paths.zip bundles)
      return 0

/-! ## Writing -/

/-- Writes the report to a file, if there is one. -/
def writeReport (h : Host m) (file : Option FileArgument) (r : Report) : Part m Unit := do
  match file with
  | none => return ()
  | some .nothing => throw .unnamedReport
  | some (.location l) =>
    match ← h.writeJson l.toText r.toValue false with
    | .ok () => return ()
    | .error e => throw (.storage e)

/-- Writes the modules of bundles below a directory. -/
def unpackInto (h : Host m) (setup : Setup) (o : Options) (report : Option FileArgument)
    (bundlePaths : List Text) (directory : Text) : Part m Nat := do
  match ← readBundles h bundlePaths with
  | .error e => unread h setup e
  | .ok bundles =>
    let modules ← modulesOf h setup bundles
    if modules.isEmpty then
      printLine h "No modules found in the bundle."
      return 0
    else
      let root := (Location.ofText directory).toText
      printLine h ("Unpacked " ++ Text.ofNat modules.length ++ " module(s) from "
        ++ Text.ofNat bundlePaths.length ++ " bundle(s).")
      printLine h ("Writing files into: " ++ root)
      let start : Report := { Report.empty with bundles := bundlePaths, modules := modules.length }
      let r ← writeModules h setup o root modules start
      printLine h r.summary
      if o.verbosity = .verbose then printLine h r.toText
      writeReport h report r
      return 0

/-- What is printed if there are too few paths. -/
def pathsUsage : Text :=
  "Usage: unpack-bundle [--quiet|-q] [--verbose|-v] <bundle1> [bundle2 ...] <outputDir>\n"

/-- Writes the modules of all bundles but the last path below that path. -/
def unpackPaths (h : Host m) (setup : Setup) (o : Options) (a : Arguments) : Part m Nat := do
  match a.paths.dropLast, a.paths.getLast? with
  | first :: rest, some directory => unpackInto h setup o a.report (first :: rest) directory
  | _, _ =>
    h.printError pathsUsage
    return 1

/-! ## The command -/

/-- Runs the command, and gives its exit status. -/
def run (h : Host m) (words : List Text) : Part m Nat := do
  match Arguments.read words with
  | .error .help =>
    printText h help
    return 0
  | .error (.usage e) =>
    h.printError (complaint e)
    return 2
  | .ok a =>
    match ← resolveOptions h a with
    | .error reason =>
      h.printError ("Invalid configuration: " ++ reason ++ "\n")
      return 1
    | .ok o =>
      let setup ← beginJournal h o
      if a.lists then listBundles h setup a.paths else unpackPaths h setup o a

end Debundle.Command
