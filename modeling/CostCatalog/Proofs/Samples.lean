import CostCatalog.Command.Uom
import CostCatalog.Repository.Call

/-!
# Sample entries

A unit, a parameter measured in it and a world to keep them in, for the theorems that speak of one
run.
-/

namespace CostCatalog.Sample

theorem utc_epoch : Timestamp.epoch.offset = some 0 := rfl

/-- A unit of mass by the name it is given. -/
def kilogram (name : String) : Uom where
  code := ⟨"KG", by decide⟩
  name := name
  category := .weight
  isBase := true
  audit := .start "ada" .epoch

/-- A parameter measured in kilograms. -/
def load : Parameter where
  code := ⟨"LOAD", by decide⟩
  name := "Load"
  category := .machine
  dataType := .numeric
  uom := some "KG"
  audit := .start "ada" .epoch

/-- A world with empty tables, references enforced, and an empty cache behind a stem. -/
def world (stem : String) : World where
  store := { enforces := true }
  cache := .memory { stem }
  wall := .epoch

/-- The unit is deleted after the parameter was read alone and in a page; the clock goes back in
between. -/
def calls : List (Float × Call) :=
  [(1.0, .create .uom (kilogram "Kilogram")), (2.0, .create .parameter load),
    (3.0, .find .parameter load.code), (2.5, .list .parameter { activity := none }),
    (2.5, .delete .uom (kilogram "").code), (4.0, .find .parameter load.code),
    (4.0, .list .parameter { activity := none })]

/-- A unit is made, read, and given another name, by three callers. -/
def callers : Fin 3 → Call
  | 0 => .create .uom (kilogram "Kilogram")
  | 1 => .find .uom (kilogram "").code
  | 2 => .update .uom (kilogram "Kilo")

/-- The reader has read the store but not yet filled the cache when the unit gets its new name. -/
def lateFill : List (Turn (Fin 3)) :=
  [0, 0, 0, 1, 1, 2, 2, 2, 1].map fun i => { who := i, wall := .epoch, monotonic := 1.0 }

/-- The same unit is made under two names. -/
def makers (i : Fin 2) : Command.CreateUom :=
  { code := "KG", name := if i = 0 then "Kilogram" else "Kilo", category := "WEIGHT", isBase := true
    createdBy := "ada" }

/-- A world in which the kilogram is stored. -/
def stocked : World where
  store := { uoms := some {
    rows := [kilogram "Kilogram"]
    sorted := List.pairwise_singleton ..
    stored := List.forall_mem_singleton.mpr ⟨rfl, rfl, rfl⟩ } }
  wall := .epoch

/-- The same behind an empty cache. -/
def shelved : World := { stocked with cache := .memory { stem := "v1:" } }

/-- The slot of the kilogram in the cache. -/
def kept : Cache.Slot :=
  ⟨"v1:" ++ Filter.entryKey (kilogram "").code, 61.0,
    (Record.ofEntry (k := .uom) (kilogram "Kilogram")).printAscii⟩

/-- The kilogram is stored, and kept in the cache. -/
def recalled : World := { stocked with cache := .memory { stem := "v1:", slots := [kept] } }

/-- The same with references enforced. -/
def guarded : World := { stocked with store := { stocked.store with enforces := true } }

/-- The kilogram is to get another name. -/
def rename : Command.UpdateUom :=
  { code := "KG", name := "Kilo", category := "WEIGHT", isBase := true, updatedBy := "ada" }

/-- The second caller comes in between, after the first has made its first request. -/
def inBetween : List (Turn (Fin 2)) :=
  [0, 1, 1, 0, 0].map fun i => { who := i, wall := .epoch, monotonic := 0.0 }

/-- Both makers look before either inserts. -/
def bothLook : List (Turn (Fin 2)) :=
  [0, 1, 0, 1, 0, 1, 1, 1, 0].map fun i => { who := i, wall := .epoch, monotonic := 0.0 }

end CostCatalog.Sample
