import AggregateLayout.Batch
import AggregateLayout.Environment
import AggregateLayout.Decimal.Numeral

namespace AggregateLayout

structure Tuning where
  defaultProfile : String := "lp64"
  maxDepth : Int := 64
  workers : Int := 1
  wasteWarning : Float := 25
  checkUnions : Bool := false

namespace Tuning

def ofEnvironment (env : Environment) : Tuning :=
  let base : Tuning := {}
  let int (name : String) (otherwise : Int) : Int :=
    ((env.value? name).bind fun s => (Decimal.readInt s).toOption).getD otherwise
  { defaultProfile := (env.value? "LAYOUT_DEFAULT_PROFILE").getD base.defaultProfile
    maxDepth := int "LAYOUT_MAX_NESTING_DEPTH" base.maxDepth
    workers := int "LAYOUT_BATCH_WORKERS" base.workers
    wasteWarning :=
      ((env.value? "LAYOUT_WASTE_WARNING_PERCENT").bind Decimal.readFloat?).getD base.wasteWarning
    checkUnions :=
      ((env.value? "LAYOUT_CHECK_UNIONS").map Environment.isYes).getD base.checkUnions }

def batchOptions (t : Tuning) : BatchOptions :=
  { checkUnions := t.checkUnions
    workers := t.workers
    maxDepth := .whole t.maxDepth
    wasteWarning := t.wasteWarning }

end Tuning

end AggregateLayout
