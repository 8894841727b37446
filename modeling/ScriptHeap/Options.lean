import ScriptHeap.Json.Datum

/-!
# Options

Settings that change the behaviour of an analysis run, with their form as JSON text.
-/

namespace ScriptHeap

/-- The settings of an analysis run. -/
structure Options where
  /-- Whether every object that is about to change is copied at once. -/
  copyOnWriteDisabled : Bool := false
  /-- The variable that stands for the root of the host's namespace. -/
  foreignRootName : String := "Java"
  /-- The member of the root that gives the class of a name. -/
  typeConstructorName : String := "type"
  /-- How many blocks are analysed before a run is given up. -/
  maxIterations : Nat := 100000
  /-- Whether a run goes on after an error of the host's side. -/
  continueOnHostError : Bool := false
deriving DecidableEq, Repr, Inhabited

namespace Options

/-- The data of the settings. All of them have to be given. -/
def schema : Schema :=
  .record [("copy_on_write_disabled", .bool), ("foreign_root_name", .text),
    ("type_constructor_name", .text), ("max_iterations", .word),
    ("continue_on_cross_language_error", .bool)]

/-- The settings as data. -/
def toDatum (options : Options) : Datum :=
  .record
    [("copy_on_write_disabled", .bool options.copyOnWriteDisabled),
      ("foreign_root_name", .text options.foreignRootName),
      ("type_constructor_name", .text options.typeConstructorName),
      ("max_iterations", .word options.maxIterations),
      ("continue_on_cross_language_error", .bool options.continueOnHostError)]

/-- The settings of data. -/
def ofDatum? : Datum → Option Options
  | .record [(_, copyOnWriteDisabled), (_, foreignRootName), (_, typeConstructorName),
      (_, maxIterations), (_, continueOnHostError)] => do
    return {
      copyOnWriteDisabled := ← copyOnWriteDisabled.bool?
      foreignRootName := ← foreignRootName.text?
      typeConstructorName := ← typeConstructorName.text?
      maxIterations := ← maxIterations.word?
      continueOnHostError := ← continueOnHostError.bool? }
  | _ => none

/-- The settings as JSON text. -/
def toText? (options : Options) : Option String :=
  Json.format.write? options.toDatum

/-- Read settings from JSON text. -/
def ofText? (s : String) : Option Options :=
  (Json.format.read? schema s).bind ofDatum?

end Options

end ScriptHeap
