import Concordance.Console.Json
import Concordance.Indexing.Walk
import Concordance.Search.Options

/-!
# Settings in JSON

Configurations, read from values that someone wrote down.

A setting that is missing keeps its default, and what is not a setting is passed
over. A setting that is there has to be of its kind: a whole number within its
range, a string, a truth value. Nothing stands for a missing setting but leaving
it out; only the two that may be absent take a null. The settings of a
configuration may also be given as a list, in their order.

## Main definitions

* `Fields`: The settings that were written down.
* `SpreadLimit.ofJson?`, `IndexingOptions.ofJson?`, `SearchOptions.ofJson?`,
  `WalkOptions.ofJson?`: Configurations.
-/

namespace Concordance

namespace Json

/-- A whole number below a limit. -/
def natBelow? (limit : Nat) : Json → Option Nat
  | .integer (.ofNat value) => if value < limit then some value else none
  | _ => none

/-- A string. -/
def string? : Json → Option String
  | .string value => some value
  | _ => none

/-- A truth value. -/
def bool? : Json → Option Bool
  | .bool value => some value
  | _ => none

/-- A list of strings. -/
def strings? : Json → Option (List String)
  | .list elements => elements.mapM string?
  | _ => none

/-- A value that may be null. -/
def optional? {α : Type} (read : Json → Option α) : Json → Option (Option α)
  | .null => some none
  | value => (read value).map some

end Json

/-- The settings that were written down, by name or in their order. -/
inductive Fields where
  | named (fields : List (String × Json))
  | ordered (values : List Json)

namespace Fields

/-- The settings of a configuration that has `count` of them. -/
def ofJson? (count : Nat) : Json → Option Fields
  | .object fields => some (.named fields)
  | .list values => if values.length ≤ count then some (.ordered values) else none
  | _ => none

/-- The value of a setting, if it was written down. -/
def find (fields : Fields) (place : Nat) (name : String) : Option Json :=
  match fields with
  | .named fields => fields.lookup name
  | .ordered values => values[place]?

/-- A setting: its default if it is missing, and nothing if it is not of its
    kind. -/
def get? {α : Type} (fields : Fields) (place : Nat) (name : String) (default : α)
    (read : Json → Option α) : Option α :=
  match fields.find place name with
  | none => some default
  | some value => read value

end Fields

/-- A spread limit. -/
def SpreadLimit.ofJson? (json : Json) : Option SpreadLimit := do
  let base : SpreadLimit := {}
  let fields ← Fields.ofJson? 2 json
  let maxDocuments ← fields.get? 0 "files_max" base.maxDocuments (Json.natBelow? UInt64.size)
  let maxPercent ← fields.get? 1 "percent_max" base.maxPercent (Json.natBelow? 256)
  some { maxDocuments, maxPercent }

/-- The configuration of an indexing session. -/
def IndexingOptions.ofJson? (json : Json) : Option IndexingOptions := do
  let base : IndexingOptions := {}
  let fields ← Fields.ofJson? 5 json
  let runSize ←
    fields.get? 0 "word_threshold" base.runSize (Json.natBelow? UInt64.size)
  let spread ← fields.get? 1 "frequency" base.spread SpreadLimit.ofJson?
  let smallest ← fields.get? 2 "word_min_size" base.sizes.smallest (Json.natBelow? UInt64.size)
  let largest ← fields.get? 3 "word_max_size" base.sizes.largest (Json.natBelow? UInt64.size)
  let scratch ← fields.get? 4 "temp_dir" base.scratch (Json.optional? Json.string?)
  some { runSize, spread, sizes := { smallest, largest }, scratch }

/-- The options of a query. -/
def SearchOptions.ofJson? (json : Json) : Option SearchOptions := do
  let base : SearchOptions := {}
  let fields ← Fields.ofJson? 6 json
  let spread ← fields.get? 0 "frequency" base.spread SpreadLimit.ofJson?
  let reach ← fields.get? 1 "near_distance" base.reach (Json.natBelow? UInt32.size)
  let pageSize ←
    fields.get? 2 "max_results" base.pageSize (Json.optional? (Json.natBelow? UInt64.size))
  let pageStart ← fields.get? 3 "skip_results" base.pageStart (Json.natBelow? UInt64.size)
  let smallest ← fields.get? 4 "word_min_size" base.sizes.smallest (Json.natBelow? UInt64.size)
  let largest ← fields.get? 5 "word_max_size" base.sizes.largest (Json.natBelow? UInt64.size)
  some { spread, reach, pageSize, pageStart, sizes := { smallest, largest } }

/-- The options of a walk. -/
def WalkOptions.ofJson? (json : Json) : Option WalkOptions := do
  let base : WalkOptions := {}
  let fields ← Fields.ofJson? 2 json
  let extensions ← fields.get? 0 "extensions" base.extensions Json.strings?
  let recursive ← fields.get? 1 "recursive" base.recursive Json.bool?
  some { extensions, recursive }

end Concordance
