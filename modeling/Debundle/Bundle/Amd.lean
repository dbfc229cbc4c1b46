import Debundle.Bundle.Module
import Debundle.Bundle.Shape

/-!
# AMD bundles

Every definition of an AMD bundle names its module by the path it is to be written to.
-/

namespace Debundle

open Script

/-- The module of a definition; a definition that cannot be read is left out. -/
def unpackDefinition {σ : Type} (source : Source) (d : Definition) :
    Action σ Fault (List SourceModule) := do
  match ← Action.attempt (restoreEntry (source.textOf d.factory)) with
  | .ok text => return [⟨.text d.path, text, none⟩]
  | .error (.flaw flaw) =>
    Action.say .warning Channel.amd ("Failed to parse module " ++ d.path ++ ": " ++ flaw.message)
    return []
  | .error (.fault fault) => Action.fail fault

/-- The modules that statements define. -/
def unpackStatements {σ : Type} (source : Source) : List Node → Action σ Fault (List SourceModule)
  | [] => return []
  | n :: ns => do
    let found ←
      match ← Action.ofExcept ((definition? n).mapError Fault.literal) with
      | none => pure []
      | some d => unpackDefinition source d
    return found ++ (← unpackStatements source ns)

/-- The modules of an AMD bundle. -/
def unpackAmd {σ : Type} (source : Source) : Action σ Fault (List SourceModule) :=
  unpackStatements source source.statements

end Debundle
