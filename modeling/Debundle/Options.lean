import Debundle.Data.Table
import Debundle.Journal.Console
import Debundle.Path.Location
import Debundle.Yaml.Load

/-!
# Options

The options of the command have defaults, may be set in a configuration file, and may be
overridden on the command line.

* `Options`: options that were checked.
* `Settings`: options as they are given, any value under each name.
* `OptionsError.isComplaint`: the errors that the user is told.
* `Options.check`: checks settings; the first option that is wrong, in a fixed order, is the
  error.
* `Options.ofMapping`, `Options.ofDocument`: options from a configuration.
* `Options.merged`: options with some of them overridden.
-/

namespace Debundle

/-- Options that were checked. -/
structure Options where
  /-- How much is shown. -/
  verbosity : Verbosity
  /-- Whether exported variables are renamed: any value that counts as given. -/
  renameExports : Value
  /-- The ending of the files that are written. -/
  outputSuffix : Text
  /-- Up to how many modules all of them are shown. -/
  smallBundleThreshold : Nat
  /-- How many modules are shown if there are more. -/
  maxDetailedLogs : Nat
  /-- After how many modules a line about the progress is shown. -/
  progressInterval : Nat
  /-- The file for the journal. -/
  logFile : Option Location

/-- Why options are not accepted. -/
inductive OptionsError where
  /-- There is no such verbosity. -/
  | unknownLevel (v : Value)
  /-- The verbosity is a list or a mapping. -/
  | levelNotScalar
  /-- An option that counts something is no natural number. -/
  | notNatural (name : Text) (v : Value)
  /-- Progress would be shown after every zero modules. -/
  | zeroInterval
  /-- The ending is no text. -/
  | suffixNotText
  /-- The ending does not begin with a point. -/
  | badSuffix (suffix : Text)
  /-- The file for the journal is not named by a text. -/
  | logFileNotText
  /-- There is no option with this name. -/
  | unknownOption (name : Text)
  /-- There is no option to override with this name. -/
  | unknownOverride
  /-- The configuration is no mapping. -/
  | notAMapping (file : Text)
  /-- The configuration has no value. -/
  | noValue (e : Yaml.Error)
deriving Repr

/-- What is said about a configuration without a value. -/
def Yaml.Error.message : Yaml.Error → Text
  | .malformed => "malformed document"
  | .notACodePoint => "chr() arg not in range(0x110000)"
  | .escapeTooLarge => "signed integer is greater than maximum"
  | .notABool t => t
  | .notAnInteger base t =>
    "invalid literal for int() with base " ++ Text.ofNat base ++ ": " ++ t.quoted
  | .emptyInteger => "string index out of range"
  | .tooManyDigits count =>
    "Exceeds the limit (4300 digits) for integer string conversion: value has " ++ Text.ofNat count
      ++ " digits; use sys.set_int_max_str_digits() to increase the limit"
  | .notAFloat t => "could not convert string to float: " ++ t.quoted
  | .notATime => "'NoneType' object has no attribute 'groupdict'"
  | .noSuchTime reason => reason

/-- What is said about options that are not accepted. -/
def OptionsError.message : OptionsError → Text
  | .unknownLevel v => "log_level must be one of ['normal', 'quiet', 'verbose'], got " ++ v.spelling
  | .levelNotScalar => "unhashable type"
  | .notNatural name v => name ++ " must be a non-negative integer, got " ++ v.spelling
  | .zeroInterval => "progress_interval must be positive"
  | .suffixNotText => "object has no attribute 'startswith'"
  | .badSuffix suffix => "output_suffix must start with '.', got " ++ suffix.quoted
  | .logFileNotText => "expected str, bytes or os.PathLike object"
  | .unknownOption name => "Unknown option: " ++ name
  | .unknownOverride => "unexpected keyword argument"
  | .notAMapping file => file ++ ": expected a mapping at the top level"
  | .noValue e => e.message

/-- Whether a document has no value because of what one of its scalars says. -/
def Yaml.Error.isComplaint : Yaml.Error → Bool
  | .notACodePoint | .notAnInteger _ _ | .tooManyDigits _ | .notAFloat _ | .noSuchTime _ => true
  | _ => false

/-- Whether the error is about what is set, and is told the user.  An error in the form of the
configuration, or in the kind of a value, breaks the command off. -/
def OptionsError.isComplaint : OptionsError → Bool
  | .levelNotScalar | .suffixNotText | .logFileNotText | .unknownOverride => false
  | .noValue e => e.isComplaint
  | _ => true

/-- Options as they are given. -/
abbrev Settings := Table Value

namespace Options

/-! ## Names and defaults -/

/-- The settings that hold where nothing is set. -/
def defaults : Settings := [
  (Text.ofString "log_level", .scalar (.text "normal")),
  (Text.ofString "rename_exports", .scalar (.bool true)),
  (Text.ofString "output_suffix", .scalar (.text ".js")),
  (Text.ofString "small_bundle_threshold", .scalar (.int 50)),
  (Text.ofString "max_detailed_logs", .scalar (.int 20)),
  (Text.ofString "progress_interval", .scalar (.int 200)),
  (Text.ofString "log_file", .scalar .null)]

/-- The value of a setting. -/
def setting (s : Settings) (name : Text) : Value := (s.get? name).getD (.scalar .null)

/-! ## Checking -/

/-- A verbosity. -/
def checkLevel : Value → Except OptionsError Verbosity
  | .scalar (.text t) =>
    match Verbosity.ofName? t with
    | some v => .ok v
    | none => .error (.unknownLevel (.scalar (.text t)))
  | .scalar s => .error (.unknownLevel (.scalar s))
  | _ => .error .levelNotScalar

/-- A natural number. -/
def checkNatural (s : Settings) (name : Text) : Except OptionsError Nat :=
  match setting s name with
  | .scalar (.int (.ofNat n)) => .ok n
  | v => .error (.notNatural name v)

/-- An ending. -/
def checkSuffix : Value → Except OptionsError Text
  | .scalar (.text t) => if Text.startsWith t "." then .ok t else .error (.badSuffix t)
  | _ => .error .suffixNotText

/-- A file, if there is one. -/
def checkLogFile : Value → Except OptionsError (Option Location)
  | .scalar .null => .ok none
  | .scalar (.text t) => .ok (some (Location.ofText t))
  | _ => .error .logFileNotText

/-- Checks settings. -/
def check (s : Settings) : Except OptionsError Options := do
  let verbosity ← checkLevel (setting s "log_level")
  let threshold ← checkNatural s "small_bundle_threshold"
  let detailed ← checkNatural s "max_detailed_logs"
  let interval ← checkNatural s "progress_interval"
  if interval == 0 then .error .zeroInterval
  else
    let suffix ← checkSuffix (setting s "output_suffix")
    let logFile ← checkLogFile (setting s "log_file")
    return ⟨verbosity, setting s "rename_exports", suffix, threshold, detailed, interval, logFile⟩

/-- The settings that give these options. -/
def toSettings (o : Options) : Settings := [
  (Text.ofString "log_level", .scalar (.text o.verbosity.name)),
  (Text.ofString "rename_exports", o.renameExports),
  (Text.ofString "output_suffix", .scalar (.text o.outputSuffix)),
  (Text.ofString "small_bundle_threshold", .scalar (.int o.smallBundleThreshold)),
  (Text.ofString "max_detailed_logs", .scalar (.int o.maxDetailedLogs)),
  (Text.ofString "progress_interval", .scalar (.int o.progressInterval)),
  (Text.ofString "log_file",
    match o.logFile with
    | some l => .scalar (.text l.toText)
    | none => .scalar .null)]

/-! ## Sources of options -/

/-- The name of the option that a key of a configuration means: dashes count as underscores. -/
def optionName (key : Scalar) : Text := Text.replace '-' '_' key.display

/-- Takes the entries of a mapping into settings. -/
def readMapping (s : Settings) : Mapping → Except OptionsError Settings
  | [] => .ok s
  | (key, value) :: rest =>
    if defaults.has (optionName key) then readMapping (s.insert (optionName key) value) rest
    else .error (.unknownOption key.display)

/-- The options that a mapping sets, and the defaults for the others. -/
def ofMapping (m : Mapping) : Except OptionsError Options := do
  check (← readMapping defaults m)

/-- The options that a configuration file with a name and a content sets. -/
def ofDocument (file content : Text) : Except OptionsError Options := do
  match ← (Yaml.load content).mapError OptionsError.noValue with
  | .scalar .null => check defaults
  | .mapping m => ofMapping m
  | _ => .error (.notAMapping file)

/-- Takes overrides into settings; one that is null is none. -/
def override (s : Settings) : Table Value → Except OptionsError Settings
  | [] => .ok s
  | (_, .scalar .null) :: rest => override s rest
  | (name, value) :: rest =>
    if defaults.has name then override (s.insert name value) rest else .error .unknownOverride

/-- The options with some of them overridden. -/
def merged (o : Options) (overrides : Table Value) : Except OptionsError Options := do
  check (← override o.toSettings overrides)

end Options

end Debundle
