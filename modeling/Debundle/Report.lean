import Debundle.Data.Json
import Debundle.Data.Table

/-!
# Reports

What was read, what was found, and what was written.

* `Report.withPath`, `Report.withError`: what became of a module.
* `Report.summary`: one line.
* `Report.toText`: some lines.
* `Report.toValue`: all of it.
-/

namespace Debundle

/-- What a run of the command did. -/
structure Report where
  /-- The bundles that were read. -/
  bundles : List Text
  /-- How many modules they have. -/
  modules : Int
  /-- How many of them were written. -/
  written : Int
  /-- What went wrong. -/
  errors : List Text
  /-- The paths of the modules that were written. -/
  paths : List Text
  /-- For every module the exports that were renamed in it. -/
  renamedExports : Table (List Text)
deriving Repr

namespace Report

/-- The report before anything was done. -/
def empty : Report := ⟨[], 0, 0, [], [], []⟩

/-- The report with a module that was written. -/
def withPath (r : Report) (path : Text) : Report :=
  { r with written := r.written + 1, paths := r.paths ++ [path] }

/-- The report with a module that was not written. -/
def withError (r : Report) (path reason : Text) : Report :=
  { r with errors := r.errors ++ [path ++ ": " ++ reason] }

/-- The report in one line. -/
def summary (r : Report) : Text :=
  let problems : Text :=
    if r.errors.isEmpty then [] else " (" ++ Text.ofNat r.errors.length ++ " error(s))"
  "Done. Wrote " ++ Text.ofInt r.written ++ " module(s)" ++ problems ++ "."

/-- Some lines under a heading, unless there are none. -/
def group (heading : Text) (lines : List Text) : List Text :=
  if lines.isEmpty then [] else heading :: lines

/-- The report in some lines. -/
def toText (r : Report) : Text :=
  let bundles := Text.join ", " r.bundles
  let renamed := r.renamedExports.map fun (path, names) =>
    "  " ++ path ++ ": " ++ Text.join ", " names
  Text.join "\n" <|
    [ "Bundles: " ++ (if bundles.isEmpty then Text.ofString "none" else bundles),
      "Modules unpacked: " ++ Text.ofInt r.modules,
      "Modules written: " ++ Text.ofInt r.written ]
      ++ group "Renamed exports:" renamed
      ++ group "Errors:" (r.errors.map fun e => "  - " ++ e)

/-- Texts as a list of values. -/
def textList (ts : List Text) : Value := .list (ts.map fun t => .scalar (.text t))

/-- All of the report. -/
def toValue (r : Report) : Value := .mapping [
  (.text "bundles", textList r.bundles),
  (.text "modules", .scalar (.int r.modules)),
  (.text "written", .scalar (.int r.written)),
  (.text "errors", textList r.errors),
  (.text "paths", textList r.paths),
  (.text "renamed_exports",
    .mapping (r.renamedExports.map fun (path, names) => (.text path, textList names)))]

end Report

end Debundle
