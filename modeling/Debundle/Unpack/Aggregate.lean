import Debundle.Data.Table
import Debundle.Ranking
import Debundle.Unpack.Work

/-!
# All modules of all bundles

The bundles are unpacked one after the other in one session.  A packed bundle gives out modules
of earlier bundles again, perhaps under better paths, so of all modules with one id the one with
the best path is kept.

* `pathScore`: how good a path is.
* `bestById`: the best module for every id.
* `dedupe`: modules with different paths.
* `unpackBundles`: all modules of all bundles.
-/

namespace Debundle

/-- How good a path is: every component counts one against it, and ten more if it looks like a
placeholder. -/
def pathScore (path : Text) : Int :=
  let components := Text.split Path.slash path
  let placeholders := (components.filter fun c => Text.startsWith c "parent").length
  (-10) * (placeholders : Int) - components.length

/-- How good the path of a module is. -/
def SourceModule.score (m : SourceModule) : Int := pathScore m.path.display

/-- Whether a module has a path and a source. -/
def SourceModule.isPresent (m : SourceModule) : Bool := m.path.isTruthy && !m.source.isEmpty

/-- The better of two modules; the first one if they are equally good. -/
def betterModule (incumbent challenger : SourceModule) : SourceModule :=
  (prefer (fun a b => b.score < a.score) incumbent challenger).1

/-- Puts a module under its id unless a better one is there; a module without an id goes nowhere. -/
def keepBest (best : Table SourceModule) (m : SourceModule) : Table SourceModule :=
  match m.id with
  | none => best
  | some id =>
    match best.get? id with
    | none => best.insert id m
    | some incumbent => best.insert id (betterModule incumbent m)

/-- The best module for every id, in the order in which the ids first came. -/
def bestById (ms : List SourceModule) : Table SourceModule := ms.foldl keepBest []

/-- The modules whose path is not among those given or earlier ones. -/
def dedupe (paths : List Scalar) : List SourceModule → List SourceModule
  | [] => []
  | m :: ms =>
    if paths.any (·.sameKey m.path) then dedupe paths ms else m :: dedupe (m.path :: paths) ms

/-- One module for every id, then the modules without an id; every path once. -/
def aggregate (leaves : List SourceModule) : List SourceModule :=
  let present := leaves.filter SourceModule.isPresent
  let anonymous := present.filter (·.id.isNone)
  dedupe [] ((bestById present).map Prod.snd ++ anonymous)

/-- Why bundles cannot be unpacked. -/
inductive BundleError where
  /-- An input is no mapping. -/
  | notAMapping (v : Value)
  /-- The unpacking was given up. -/
  | fault (f : Fault)

/-- The input that a value describes. -/
def Candidate.ofValue : Value → Except BundleError Candidate
  | .mapping m => .ok (.ofMapping m)
  | v => .error (.notAMapping v)

/-- Unpacks inputs one after the other; those that are null, or without a path or a source, are
passed over. -/
def unpackAll (fuel : Nat) : List Value → Action Progress BundleError (List SourceModule)
  | [] => return []
  | .scalar .null :: rest => unpackAll fuel rest
  | v :: rest => do
    let c ← Action.ofExcept (Candidate.ofValue v)
    if !c.path.isTruthy || !c.source.isTruthy then
      Action.say .debug Channel.aggregate "Skipping input without path or source"
      unpackAll fuel rest
    else
      let leaves ← (unpackCandidate fuel c).mapError BundleError.fault
      return leaves ++ (← unpackAll fuel rest)

/-- All modules of all bundles. -/
def unpackBundles (fuel : Nat) (bundles : List Value) :
    Outcome Progress BundleError (List SourceModule) :=
  let outcome := (unpackAll fuel bundles).run Progress.start
  { outcome with result := outcome.result.map aggregate }

/-- The number of steps that are allowed where nothing else is said. -/
def defaultSteps : Nat := 1000000

end Debundle
