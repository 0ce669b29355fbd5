import Kubernetes.StrategicPatch.Diff

/-!
# Strategic merge patch: the three-way patch and its conflict check

`CreateThreeWayMergePatch(original, modified, current, schema, overwrite)` builds the patch
that `kubectl apply` sends: the additions and changes from the live object `current` to the
new configuration `modified` (`deltaMap`, without deletions), merged by `mergeMap` into the
deletions from the last applied configuration `original` to `modified` (`deletionsMap`,
without additions or changes).  Unless `overwrite` is set, the patch is compared with the
changes from `original` to `current` (`changedMap`) by `MergingMapsHaveConflicts`, and an
overlap with different values is a conflict.

Each diff sorts the `merge` lists of scalars of its first document in place, so the
changes from `original` to `current` are taken between the documents as the first two
diffs left them.  The conflict check itself deduplicates and sorts, in place, the lists of
scalars it compares outside `merge` fields: these are lists of the patch, which the call
then returns.  The model threads both effects: `mergingMapsHaveConflicts` returns the patch
as the check leaves it.

The conflict message prints both maps as YAML (`mergepatch.ToYAMLOrError`); the encoder is
a parameter of the model.
-/

namespace Kubernetes
namespace StrategicPatch

open Go

variable {σ : Type} [LookupPatchMeta σ]

/-! ## `MergingMapsHaveConflicts` -/

/-- The recursive call of the conflict check: whether `left` and `right` conflict, and
`left` as the check leaves it. -/
abbrev ConflictsFn (σ : Type) := Value → Value → σ → String → String → Except String (Bool × Value)

/-- The backing array of a slice after `deduplicateAndSortScalars` ran on it: the
deduplicated prefix sorted, the cells past it as the deduplication left them. -/
def deduplicateAndSortScalarsInPlace (s : List Value) : List Value :=
  match s with
  | [] => []
  | _ =>
      let (s, length) := deduplicateScalarsArray s
      sortScalars (s.take length) ++ s.drop length
attribute [grind] deduplicateAndSortScalarsInPlace

/-- `sliceOfMapsToMapOfMaps`: each map of the list under the `%s` text of its merge-key
value, a later map replacing an earlier one with the same text. -/
def sliceOfMapsToMapOfMaps (slice : List Value) (mergeKey : String) : Except String Object :=
  slice.foldlM (fun result value =>
    match value with
    | .object typedValue =>
        match Object.get? typedValue mergeKey with
        | some mergeValue => .ok (Object.set result (mergeValue.format true) value)
        | none => .error ("cannot find merge key `" ++ mergeKey ++ "` in merging list element:" ++
            value.format false)
    | _ => .error ("invalid element type in merging list:" ++ (Value.array slice).format false)) []
attribute [grind] sliceOfMapsToMapOfMaps

/-- The position of the map that `sliceOfMapsToMapOfMaps` keeps under `key`: the last one
whose merge-key value prints as `key`. -/
def mapOfMapsPosition (slice : List Value) (mergeKey key : String) : Nat :=
  (slice.zipIdx.filter fun (v, _) =>
    match v with
    | .object m => ((Object.get? m mergeKey).map (·.format true)) = some key
    | _ => false).getLast?.elim 0 (·.2)
attribute [grind] mapOfMapsPosition

section Checks

variable (mergingMapFieldsHaveConflicts : ConflictsFn σ)

/-- `mapsHaveConflicts`: some key of both maps, other than `$patch` and `$retainKeys`, whose
values conflict under the field's metadata.  Returns `typedLeft` as the checks leave it. -/
def mapsHaveConflicts (typedLeft typedRight : Object) (schema : σ) : Except String (Bool × Object) :=
  loop typedLeft typedLeft
where
  /-- The loop over the keys of `typedLeft`, threading the map. -/
  loop (typedLeft : Object) : Object → Except String (Bool × Object)
    | [] => .ok (false, typedLeft)
    | (key, leftValue) :: rest =>
        if key ≠ directiveMarker && key ≠ retainKeysDirective then
          match Object.get? typedRight key with
          | none => loop typedLeft rest
          | some rightValue => do
              let (subschema, patchStrategy, patchMergeKey) ←
                match leftValue with
                | .array _ => do
                    let (subschema, patchMeta) ← LookupPatchMeta.lookupPatchMetadataForSlice schema key
                    let (_, patchStrategy) ← extractRetainKeysPatchStrategy patchMeta.patchStrategies
                    pure (subschema, patchStrategy, patchMeta.patchMergeKey)
                | .object _ => do
                    let (subschema, patchMeta) ← LookupPatchMeta.lookupPatchMetadataForStruct schema key
                    let (_, patchStrategy) ← extractRetainKeysPatchStrategy patchMeta.patchStrategies
                    pure (subschema, patchStrategy, patchMeta.patchMergeKey)
                -- a scalar has no metadata; the check of two scalars does not read the schema
                | _ => pure (schema, "", "")
              let (hasConflicts, leftValue) ←
                mergingMapFieldsHaveConflicts leftValue rightValue subschema patchStrategy patchMergeKey
              let typedLeft := Object.set typedLeft key leftValue
              if hasConflicts then pure (true, typedLeft) else loop typedLeft rest
        else loop typedLeft rest
attribute [grind] mapsHaveConflicts mapsHaveConflicts.loop

/-- `mapsOfMapsHaveConflicts`: the maps of two merge lists with the same merge key
conflict.  The maps of `leftMap` are those of the list `left`, where the checks change
them. -/
def mapsOfMapsHaveConflicts (typedLeft typedRight : Object) (left : List Value) (mergeKey : String)
    (schema : σ) : Except String (Bool × List Value) :=
  loop left typedLeft
where
  /-- The loop over the merge keys of `typedLeft`, threading the list. -/
  loop (left : List Value) : Object → Except String (Bool × List Value)
    | [] => .ok (false, left)
    | (key, leftValue) :: rest =>
        match Object.get? typedRight key with
        | none => loop left rest
        | some rightValue => do
            let (hasConflicts, leftValue) ←
              mergingMapFieldsHaveConflicts leftValue rightValue schema "" ""
            let left := left.set (mapOfMapsPosition left mergeKey key) leftValue
            if hasConflicts then pure (true, left) else loop left rest
attribute [grind] mapsOfMapsHaveConflicts mapsOfMapsHaveConflicts.loop

/-- `slicesHaveConflicts`: `merge` lists of scalars never conflict, `merge` lists of maps
conflict in the maps with the same merge key; other lists conflict when their lengths
differ or an item differs, lists of scalars being compared deduplicated and sorted.
Returns `typedLeft` as the checks leave it. -/
def slicesHaveConflicts (typedLeft typedRight : List Value) (schema : σ)
    (fieldPatchStrategy fieldPatchMergeKey : String) : Except String (Bool × List Value) := do
  let elementType ← sliceElementType [typedLeft, typedRight]
  if fieldPatchStrategy = mergeDirective then
    if elementType ≠ .map then return (false, typedLeft)
    let leftMap ← sliceOfMapsToMapOfMaps typedLeft fieldPatchMergeKey
    let rightMap ← sliceOfMapsToMapOfMaps typedRight fieldPatchMergeKey
    mapsOfMapsHaveConflicts mergingMapFieldsHaveConflicts leftMap rightMap typedLeft
      fieldPatchMergeKey schema
  else if typedLeft.length ≠ typedRight.length then return (true, typedLeft)
  else if elementType ≠ .map then
    -- both slices are deduplicated and sorted in place; the patch keeps its slice header
    let left := deduplicateAndSortScalars typedLeft
    let right := deduplicateAndSortScalars typedRight
    let hasConflicts ← compareScalars left right 0
    pure (hasConflicts, deduplicateAndSortScalarsInPlace typedLeft)
  else compareMaps typedLeft typedRight 0 typedLeft
where
  /-- The comparison of the deduplicated and sorted scalars at each index of the left
  slice; the right one may have become shorter. -/
  compareScalars : List Value → List Value → Nat → Except String Bool
    | [], _, _ => .ok false
    | l :: ls, rs, i =>
        match rs[i]? with
        | none => .error ("runtime error: index out of range [" ++ toString i ++ "] with length " ++
            toString rs.length)
        | some r => if l ≠ r then .ok true else compareScalars ls rs (i + 1)
  /-- The comparison of the maps at each index, threading the left list. -/
  compareMaps : List Value → List Value → Nat → List Value → Except String (Bool × List Value)
    | [], _, _, left => .ok (false, left)
    | l :: ls, r :: rs, i, left => do
        let (hasConflicts, l) ← mergingMapFieldsHaveConflicts l r schema "" ""
        let left := left.set i l
        if hasConflicts then pure (true, left) else compareMaps ls rs (i + 1) left
    | _ :: _, [], _, left => .ok (false, left)

end Checks

/-- `mergingMapFieldsHaveConflicts` on `fuel`, each nested call taking one unit: maps with
different `$patch` directives conflict, maps of a `replace` field never do, other maps
conflict in a common key; lists by `slicesHaveConflicts`; scalars when they differ; values
of different types always.  Returns `left` as the check leaves it. -/
def mergingMapFieldsHaveConflicts : Nat → Value → Value → σ → String → String →
    Except String (Bool × Value)
  | 0, _, _, _, _, _ => .error "mergingMapFieldsHaveConflicts: nesting deeper than the fuel"
  | fuel + 1, left, right, schema, fieldPatchStrategy, fieldPatchMergeKey =>
      match left, right with
      | .object leftType, .object rightType =>
          let leftMarker := Object.get? leftType directiveMarker
          let rightMarker := Object.get? rightType directiveMarker
          if (leftMarker.isSome || rightMarker.isSome) &&
              (leftMarker.isSome ≠ rightMarker.isSome || leftMarker ≠ rightMarker) then
            .ok (true, left)
          else if fieldPatchStrategy = replaceDirective then .ok (false, left)
          else do
            let (hasConflicts, leftType) ←
              mapsHaveConflicts (mergingMapFieldsHaveConflicts fuel) leftType rightType schema
            pure (hasConflicts, .object leftType)
      | .object _, _ => .ok (true, left)
      | .array leftType, .array rightType => do
          let (hasConflicts, leftType) ←
            slicesHaveConflicts (mergingMapFieldsHaveConflicts fuel) leftType rightType schema
              fieldPatchStrategy fieldPatchMergeKey
          pure (hasConflicts, .array leftType)
      | .array _, _ => .ok (true, left)
      | _, _ => .ok (left ≠ right, left)
attribute [grind] mergingMapFieldsHaveConflicts

/-- `MergingMapsHaveConflicts`: whether the two maps overlap with different values, and
`left` as the check leaves it. -/
def mergingMapsHaveConflicts (left right : Object) (schema : σ) : Except String (Bool × Object) := do
  match ← mergingMapFieldsHaveConflicts ((Value.object left).depth + 1) (.object left) (.object right)
      schema "" "" with
  | (hasConflicts, .object left) => pure (hasConflicts, left)
  | (hasConflicts, _) => pure (hasConflicts, left)
attribute [grind] mergingMapsHaveConflicts

/-! ## `CreateThreeWayMergePatch` -/

/-- `mergepatch.NewErrConflict(patch, current)`. -/
def errConflict (patch current : String) : String :=
  "patch:\n" ++ patch ++ "\nconflicts with changes made from original to current:\n" ++ current ++ "\n"
attribute [grind] errConflict

/-- `CreateThreeWayMergePatch`: the changes from `current` to `modified` merged into the
deletions from `original` to `modified`, checked by the preconditions `fns` and, unless
`overwrite`, against the changes from `original` to `current`. -/
def createThreeWayMergePatch (original modified current : Object) (schema : σ) (overwrite : Bool)
    (fns : List (Object → Bool)) (toYAMLOrError : Object → String) : Except String Object := do
  let (deltaMap, current) ←
    diffMaps (diffFuel modified) current modified schema ⟨true, false, true, false⟩
  let (deletionsMap, original) ←
    diffMaps (diffFuel modified) original modified schema ⟨true, true, false, false⟩
  let patchMap ← mergeMap (mergeFuel deltaMap) schema deletionsMap deltaMap ⟨false, false⟩
  if !fns.all (· patchMap) then throw (errPreconditionFailed patchMap)
  if overwrite then return patchMap
  let (changedMap, _) ← diffMaps (diffFuel current) original current schema ⟨false, false, false, false⟩
  let (hasConflicts, patchMap) ← mergingMapsHaveConflicts patchMap changedMap schema
  if hasConflicts then throw (errConflict (toYAMLOrError patchMap) (toYAMLOrError changedMap))
  pure patchMap
attribute [grind] createThreeWayMergePatch

-- A `retainKeys` field keeps only the keys `modified` lists: the field `c` that only
-- `current` has, and that neither `original` nor `modified` mentions, is cleared by the
-- three-way patch.
example :
    let schema : PatchMetaFromStruct :=
      ⟨.struct "T" [("s", "retainKeys", "",
        .struct "S" [("a", "", "", .basic "int"), ("c", "", "", .basic "int")])]⟩
    let original : Object := [("s", .object [("a", .number 1)])]
    let modified : Object := [("s", .object [("a", .number 2)])]
    let current : Object := [("s", .object [("a", .number 1), ("c", .number 3)])]
    let patch : Object := [("s", .object [("$retainKeys", .array [.string "a"]), ("a", .number 2)])]
    createThreeWayMergePatch original modified current schema true [] (fun _ => "") = .ok patch ∧
      strategicMergeMapPatchUsingLookupPatchMeta current patch schema =
        .ok [("s", .object [("a", .number 2)])] := by
  decide

-- With `overwrite` false the conflict check sorts, in place, a list of scalars outside a
-- `merge` field that both the patch and the changes from `original` to `current` carry, and
-- the call returns the sorted list: the order `modified` asks for is lost.
example :
    let schema : PatchMetaFromStruct := ⟨.struct "T" [("l", "", "", .slice (.basic "string"))]⟩
    let original : Object := [("l", .array [.string "a"])]
    let modified : Object := [("l", .array [.string "c", .string "b"])]
    let current : Object := [("l", .array [.string "b", .string "c"])]
    createThreeWayMergePatch original modified current schema true [] (fun _ => "") =
        .ok [("l", .array [.string "c", .string "b"])] ∧
      createThreeWayMergePatch original modified current schema false [] (fun _ => "") =
        .ok [("l", .array [.string "b", .string "c"])] := by
  decide

end StrategicPatch
end Kubernetes
