import Kubernetes.StrategicPatch.Merge

/-!
# Strategic merge patch: computing a patch

`diffMaps(original, modified, schema, diffOptions)` computes the patch that takes `original`
to `modified`: a key of `modified` that `original` lacks, or holds a value of another type,
is set; maps are diffed recursively (unless the field's strategy is `replace`); lists of a
`merge` field are diffed by `diffLists`, the others replaced when they differ; a key of
`original` missing from `modified` is set to `null`.  For a `merge` list the patch carries
the added or changed elements, `$patch: delete` elements or the parallel list
`$deleteFromPrimitiveList/<list>` for the removed ones, and `$setElementOrder/<list>` for the
order.  `DiffOptions` drops the additions and changes, or the deletions, for the two halves
of a three-way patch.

The code sorts slices of `original` in place: `diffListsOfScalars` sorts the list it is
given, and `diffLists` then compares the sorted list with `modified`.  The model threads
`original` through the diff and returns it as the diff leaves it.  `diffListsOfMaps` walks
a sorted copy of `original` that holds references to its maps, which the recursion changes
in place: the model sorts their positions, with the same comparisons, and reads and writes
the maps there.

`diffMaps` recurses through `handleMapDiff`, `handleSliceDiff`, `diffLists` and
`diffListsOfMaps`, which take the recursive call as their argument, on fuel as `mergeMap`
does: each nested call is on a map nested inside `modified`.
-/

namespace Kubernetes
namespace StrategicPatch

open Go

variable {σ : Type} [LookupPatchMeta σ]

/-- `DiffOptions`. -/
structure DiffOptions where
  setElementOrder : Bool
  ignoreChangesAndAdditions : Bool
  ignoreDeletions : Bool
  buildRetainKeysDirective : Bool
  deriving DecidableEq, Repr

/-- The recursive call into nested maps: the patch, and `original` as the call leaves
it. -/
abbrev DiffMapsFn (σ : Type) := Object → Object → σ → DiffOptions → Except String (Object × Object)

/-! ## Sorting -/

/-- `sortScalars`: `sort.Sort` by the `%v` text, `Less` being `<=` (what
`sort.StringsAreSorted` of the pair says).  It sorts the slice in place. -/
def sortScalars (s : List Value) : List Value :=
  sort s fun a b => decide (a.format false ≤ b.format false)
attribute [grind] sortScalars

/-- `deduplicateAndSortScalars`. -/
def deduplicateAndSortScalars (s : List Value) : List Value :=
  sortScalars (deduplicateScalars s)
attribute [grind] deduplicateAndSortScalars

/-- The `%v` text of the merge-key value of a map, `<nil>` when it has none. -/
def mergeKeyText (mergeKey : String) (m : Object) : String :=
  ((Object.get? m mergeKey).getD .null).format false
attribute [grind] mergeKeyText

/-- `sortMapsBasedOnField`: `mapSliceFromSlice` asserts that each element is a map, then
`sort.Sort` orders the maps by the `%v` text of their `fieldName` values, `Less` being
`<=`. -/
def sortMapsBasedOnField (m : List Value) (fieldName : String) : Except String (List Value) := do
  let mapM ← m.mapM fun v =>
    match v with
    | .object vt => pure vt
    | v => throw (panicNotMap v)
  pure ((sort mapM fun a b => decide (mergeKeyText fieldName a ≤ mergeKeyText fieldName b)).map
    Value.object)
attribute [grind] sortMapsBasedOnField

/-- `sortMergeListsByNameArray` with `recurse` false, as the diff calls it (the schema is
then unused): scalars are deduplicated and sorted, maps sorted by their merge key. -/
def sortMergeListsByNameArray (s : List Value) (mergeKey : String) : Except String (List Value) :=
  if s.isEmpty then .ok s
  else do
    let t ← sliceElementType [s]
    if t ≠ .map then pure (deduplicateAndSortScalars s)
    else sortMapsBasedOnField s mergeKey
attribute [grind] sortMergeListsByNameArray

/-- The map at position `i` of a list of maps, or the empty map. -/
def mapAt (l : List Value) (i : Nat) : Object :=
  match l[i]? with
  | some (.object m) => m
  | _ => []
attribute [grind] mapAt

/-- The positions of a list of maps in the order `sortMapsBasedOnField` puts the maps:
the same comparisons, made on the maps at the positions. -/
def sortedPositions (l : List Value) (mergeKey : String) : List Nat :=
  sort (List.range l.length) fun i j =>
    decide (mergeKeyText mergeKey (mapAt l i) ≤ mergeKeyText mergeKey (mapAt l j))
attribute [grind] sortedPositions

/-! ## Single fields -/

/-- `handleDirectiveMarker`: whether `key` is `$patch`, and the patch with the directive
when it changed. -/
def handleDirectiveMarker (key : String) (originalValue modifiedValue : Value) (patch : Object) :
    Except String (Bool × Object) :=
  if key = directiveMarker then
    match originalValue, modifiedValue with
    | .string originalString, .string modifiedString =>
        .ok (true, if modifiedString ≠ originalString then Object.set patch directiveMarker modifiedValue
          else patch)
    | _, _ => .error ("invalid value for special key: " ++ directiveMarker)
  else .ok (false, patch)
attribute [grind] handleDirectiveMarker

/-- `replacePatchFieldIfNotEqual`. -/
def replacePatchFieldIfNotEqual (key : String) (original modified : Value) (patch : Object)
    (diffOptions : DiffOptions) : Object :=
  if diffOptions.ignoreChangesAndAdditions then patch
  else if original = modified then patch
  else Object.set patch key modified
attribute [grind] replacePatchFieldIfNotEqual

/-- `updatePatchIfMissing`: `null` for each key of `original` that `modified` lacks. -/
def updatePatchIfMissing (original modified patch : Object) (diffOptions : DiffOptions) : Object :=
  if diffOptions.ignoreDeletions then patch
  else original.foldl (fun patch (key, _) =>
    if (Object.get? modified key).isSome then patch else Object.set patch key .null) patch
attribute [grind] updatePatchIfMissing

/-- `hasAdditionalNewField`: whether `original` has a non-`null` key that `modified`
lacks. -/
def hasAdditionalNewField (original modified : Object) : Bool :=
  original.any fun (k, v) => v ≠ .null && (Object.get? modified k).isNone
attribute [grind] hasAdditionalNewField

/-- `CreateDeleteDirective`. -/
def createDeleteDirective (mergeKey : String) (mergeKeyValue : Value) : Value :=
  .object (Object.set (Object.set [] mergeKey mergeKeyValue) directiveMarker (.string deleteDirective))
attribute [grind] createDeleteDirective

/-- `ItemAddedToModifiedSlice`. -/
def itemAddedToModifiedSlice (original modified : String) : Bool := decide (original > modified)
attribute [grind] itemAddedToModifiedSlice

/-- `ItemRemovedFromModifiedSlice`. -/
def itemRemovedFromModifiedSlice (original modified : String) : Bool := decide (original < modified)
attribute [grind] itemRemovedFromModifiedSlice

/-- `ItemMatchesOriginalAndModifiedSlice`. -/
def itemMatchesOriginalAndModifiedSlice (original modified : String) : Bool :=
  decide (original = modified)
attribute [grind] itemMatchesOriginalAndModifiedSlice

/-! ## Lists -/

/-- `compareListValuesAtIndex`: a value of the first list missing from the second, or one
of the second missing from the first. -/
def compareListValuesAtIndex (list1Inbounds list2Inbounds : Bool) (list1Value list2Value : String) :
    Option String × Option String :=
  let bothInBounds := list1Inbounds && list2Inbounds
  if bothInBounds && list1Value = list2Value then (none, none)
  else if !list1Inbounds || (bothInBounds && list1Value > list2Value) then (none, some list2Value)
  else if !list2Inbounds || (bothInBounds && list1Value < list2Value) then (some list1Value, none)
  else (none, none)
attribute [grind] compareListValuesAtIndex

/-- `diffListsOfScalars`: the added and the removed scalars, walking both lists sorted by
their `%v` text, and `original` as the code leaves it, sorted in place. -/
def diffListsOfScalars (original modified : List Value) (diffOptions : DiffOptions) :
    Except String (List Value × List Value × List Value) := do
  let originalScalars := sortScalars original
  let modifiedScalars := sortScalars modified
  let (addList, deletionList) ←
    loop (originalScalars.length + modifiedScalars.length) originalScalars modifiedScalars [] []
  pure (addList, deduplicateScalars deletionList, originalScalars)
where
  /-- The loop over both sorted lists from their current indices. -/
  loop : Nat → List Value → List Value → List Value → List Value →
      Except String (List Value × List Value)
    | 0, _, _, addList, deletionList => .ok (addList, deletionList)
    | fuel + 1, originalScalars, modifiedScalars, addList, deletionList =>
        let originalString := match originalScalars with
          | v :: _ => v.format false
          | [] => ""
        let modifiedString := match modifiedScalars with
          | v :: _ => v.format false
          | [] => ""
        if originalScalars.isEmpty && modifiedScalars.isEmpty then .ok (addList, deletionList)
        else
          match compareListValuesAtIndex (!originalScalars.isEmpty) (!modifiedScalars.isEmpty)
              originalString modifiedString, originalScalars, modifiedScalars with
          | (none, none), _ :: os, _ :: ms => loop fuel os ms addList deletionList
          | (some _, none), originalValue :: os, ms =>
              loop fuel os ms addList
                (if !diffOptions.ignoreDeletions then deletionList ++ [originalValue] else deletionList)
          | (none, some _), os, modifiedValue :: ms =>
              loop fuel os ms
                (if !diffOptions.ignoreChangesAndAdditions then addList ++ [modifiedValue] else addList)
                deletionList
          | (originalV, modifiedV), _, _ =>
              .error ("Unexpected returned value from compareListValuesAtIndex: " ++
                originalV.getD "<nil>" ++ " and " ++ modifiedV.getD "<nil>")

/-- `getMapAndMergeKeyValueByIndex`. -/
def getMapAndMergeKeyValueByIndex (index : Nat) (mergeKey : String) (listOfMaps : List Value) :
    Except String (Object × Value) :=
  match listOfMaps[index]? with
  | some (.object m) =>
      match Object.get? m mergeKey with
      | some val => .ok (m, val)
      | none => .error (errNoMergeKey m mergeKey)
  | some v => .error (errBadArgType .map v)
  | none => .error ("runtime error: index out of range [" ++ toString index ++ "] with length " ++
      toString listOfMaps.length)
attribute [grind] getMapAndMergeKeyValueByIndex

/-- `isOrderSame`: whether both lists have the same merge-key values in the same order. -/
def isOrderSame (original modified : List Value) (mergeKey : String) : Except String Bool :=
  if original.length ≠ modified.length then .ok false
  else loop (original.zip modified)
where
  /-- The loop over the pairs of items at the same index. -/
  loop : List (Value × Value) → Except String Bool
    | [] => .ok true
    | (originalItem, modifiedItem) :: rest => do
        if ← mergeKeyValueEqual originalItem modifiedItem mergeKey then loop rest else pure false
attribute [grind] isOrderSame isOrderSame.loop

section Handlers

variable (diffMaps : DiffMapsFn σ)

/-- `diffListsOfMaps`: walk both lists sorted by merge key; a map in both is diffed (the
patch keeps its merge key), one only in `modified` is added, one only in `original` gets a
`$patch: delete` element.  Returns the patch list, the deletion list and `original` with the
maps the recursion changed. -/
def diffListsOfMaps (original modified : List Value) (schema : σ) (mergeKey : String)
    (diffOptions : DiffOptions) : Except String (List Value × List Value × List Value) := do
  let _ ← sortMergeListsByNameArray original mergeKey
  let originalSorted := sortedPositions original mergeKey
  let modifiedSorted ← sortMergeListsByNameArray modified mergeKey
  loop originalSorted modifiedSorted (originalSorted.length + modifiedSorted.length) 0 0 original [] []
where
  /-- The loop from the current indices into both sorted lists. -/
  loop (originalSorted : List Nat) (modifiedSorted : List Value) :
      Nat → Nat → Nat → List Value → List Value → List Value →
        Except String (List Value × List Value × List Value)
    | 0, _, _, original, patch, deletionList => .ok (patch, deletionList, original)
    | fuel + 1, originalIndex, modifiedIndex, original, patch, deletionList => do
        let originalInBounds := decide (originalIndex < originalSorted.length)
        let modifiedInBounds := decide (modifiedIndex < modifiedSorted.length)
        if !originalInBounds && !modifiedInBounds then return (patch, deletionList, original)
        let originalPosition := originalSorted.getD originalIndex 0
        let originalElement ←
          if originalInBounds then some <$> getMapAndMergeKeyValueByIndex originalPosition mergeKey original
          else pure none
        let modifiedElement ←
          if modifiedInBounds then some <$> getMapAndMergeKeyValueByIndex modifiedIndex mergeKey modifiedSorted
          else pure none
        let originalString := (originalElement.map (·.2.format false)).getD ""
        let modifiedString := (modifiedElement.map (·.2.format false)).getD ""
        -- the three cases of the code's switch; strings are totally ordered, so when neither
        -- matches nor is added, the original item was removed
        match originalElement, modifiedElement with
        | some (originalMap, originalElementMergeKeyValue),
            some (modifiedMap, modifiedElementMergeKeyValue) =>
            if itemMatchesOriginalAndModifiedSlice originalString modifiedString then do
              let (patchValue, originalMap) ← diffMaps originalMap modifiedMap schema diffOptions
              let patch := if patchValue.isEmpty then patch
                else patch ++ [.object (Object.set patchValue mergeKey modifiedElementMergeKeyValue)]
              loop originalSorted modifiedSorted fuel (originalIndex + 1) (modifiedIndex + 1)
                (original.set originalPosition (.object originalMap)) patch deletionList
            else if itemAddedToModifiedSlice originalString modifiedString then
              loop originalSorted modifiedSorted fuel originalIndex (modifiedIndex + 1) original
                (if !diffOptions.ignoreChangesAndAdditions then patch ++ [.object modifiedMap] else patch)
                deletionList
            else
              loop originalSorted modifiedSorted fuel (originalIndex + 1) modifiedIndex original patch
                (if !diffOptions.ignoreDeletions then
                  deletionList ++ [createDeleteDirective mergeKey originalElementMergeKeyValue]
                else deletionList)
        | none, some (modifiedMap, _) =>
            loop originalSorted modifiedSorted fuel originalIndex (modifiedIndex + 1) original
              (if !diffOptions.ignoreChangesAndAdditions then patch ++ [.object modifiedMap] else patch)
              deletionList
        | some (_, originalElementMergeKeyValue), none =>
            loop originalSorted modifiedSorted fuel (originalIndex + 1) modifiedIndex original patch
              (if !diffOptions.ignoreDeletions then
                deletionList ++ [createDeleteDirective mergeKey originalElementMergeKeyValue]
              else deletionList)
        | none, none => return (patch, deletionList, original)
attribute [grind] diffListsOfMaps diffListsOfMaps.loop

/-- `diffLists`: the patch list, the parallel deletion list and the `$setElementOrder` list
of a `merge` list, and `original` as the diff leaves it. -/
def diffLists (original modified : List Value) (schema : σ) (mergeKey : String)
    (diffOptions : DiffOptions) :
    Except String (List Value × List Value × List Value × List Value) :=
  if original.isEmpty then
    if modified.isEmpty || diffOptions.ignoreChangesAndAdditions then .ok ([], [], [], original)
    else .ok (modified, [], [], original)
  else do
    let elementType ← sliceElementType [original, modified]
    match elementType with
    | .map => do
        let (patchList, deleteList, original) ←
          diffListsOfMaps diffMaps original modified schema mergeKey diffOptions
        let patchList ← normalizeSliceOrder patchList modified mergeKey .map
        let orderSame ← isOrderSame original modified mergeKey
        let patchList := patchList ++ deleteList
        let setOrderList ←
          if diffOptions.setElementOrder &&
              ((!diffOptions.ignoreChangesAndAdditions && (!patchList.isEmpty || !orderSame)) ||
                (!diffOptions.ignoreDeletions && !patchList.isEmpty)) then
            modified.mapM fun v =>
              match v with
              | .object typedV =>
                  pure (Value.object (Object.set [] mergeKey ((Object.get? typedV mergeKey).getD .null)))
              | v => throw (panicNotMap v)
          else pure []
        pure (patchList, [], setOrderList, original)
    | .slice => .error errNoListOfLists
    | kind => do
        -- `original` comes back sorted: the comparison below sees the sorted list
        let (patchList, deleteList, original) ← diffListsOfScalars original modified diffOptions
        let patchList ← normalizeSliceOrder patchList modified mergeKey kind
        let setOrderList :=
          if diffOptions.setElementOrder &&
              ((!diffOptions.ignoreDeletions && !deleteList.isEmpty) ||
                (!diffOptions.ignoreChangesAndAdditions && original ≠ modified)) then modified
          else []
        pure (patchList, deleteList, setOrderList, original)
attribute [grind] diffLists

/-- `handleMapDiff`: a field's map diffed recursively, or replaced for the `replace`
strategy; a field the schema does not know is an error unless both maps are equal.
Returns the patch and the field's original map as the diff leaves it. -/
def handleMapDiff (key : String) (originalValue modifiedValue patch : Object) (schema : σ)
    (diffOptions : DiffOptions) : Except String (Object × Object) :=
  match LookupPatchMeta.lookupPatchMetadataForStruct schema key with
  | .error err => if originalValue = modifiedValue then .ok (patch, originalValue) else .error err
  | .ok (subschema, patchMeta) => do
      let (retainKeys, patchStrategy) ← extractRetainKeysPatchStrategy patchMeta.patchStrategies
      let diffOptions := { diffOptions with buildRetainKeysDirective := retainKeys }
      if patchStrategy = replaceDirective then
        pure (if !diffOptions.ignoreChangesAndAdditions then Object.set patch key (.object modifiedValue)
          else patch, originalValue)
      else do
        let (patchValue, originalValue) ← diffMaps originalValue modifiedValue subschema diffOptions
        pure (if !patchValue.isEmpty then Object.set patch key (.object patchValue) else patch,
          originalValue)
attribute [grind] handleMapDiff

/-- `handleSliceDiff`: a `merge` list is diffed by `diffLists` into the list and its
parallel lists; another list is replaced when it differs.  Returns the patch and the
field's original list as the diff leaves it. -/
def handleSliceDiff (key : String) (originalValue modifiedValue : List Value) (patch : Object)
    (schema : σ) (diffOptions : DiffOptions) : Except String (Object × List Value) :=
  match LookupPatchMeta.lookupPatchMetadataForSlice schema key with
  | .error err => if originalValue = modifiedValue then .ok (patch, originalValue) else .error err
  | .ok (subschema, patchMeta) => do
      let (retainKeys, patchStrategy) ← extractRetainKeysPatchStrategy patchMeta.patchStrategies
      if patchStrategy = mergeDirective then do
        let diffOptions := { diffOptions with buildRetainKeysDirective := retainKeys }
        let (addList, deletionList, setOrderList, originalValue) ←
          diffLists diffMaps originalValue modifiedValue subschema patchMeta.patchMergeKey diffOptions
        let patch := if !addList.isEmpty then Object.set patch key (.array addList) else patch
        let patch := if !deletionList.isEmpty then
            Object.set patch (deleteFromPrimitiveListDirectivePrefix ++ "/" ++ key) (.array deletionList)
          else patch
        let patch := if !setOrderList.isEmpty then
            Object.set patch (setElementOrderDirectivePrefix ++ "/" ++ key) (.array setOrderList)
          else patch
        pure (patch, originalValue)
      else
        pure (replacePatchFieldIfNotEqual key (.array originalValue) (.array modifiedValue) patch
          diffOptions, originalValue)
attribute [grind] handleSliceDiff

/-- The state of the loop of `diffMaps`: the patch, the `$retainKeys` list and `original`
as the diff has left it so far. -/
abbrev DiffMapsState := Object × List Value × Object

/-- The body of the loop of `diffMaps` for the key `key` of `modified`. -/
def diffMapsEntry (schema : σ) (diffOptions : DiffOptions) (state : DiffMapsState)
    (entry : String × Value) : Except String DiffMapsState := do
  let (patch, retainKeysList, original) := state
  let (key, modifiedValue) := entry
  let retainKeysList :=
    if diffOptions.buildRetainKeysDirective && modifiedValue ≠ .null then
      retainKeysList ++ [.string key]
    else retainKeysList
  match Object.get? original key with
  | none =>
      pure (if !diffOptions.ignoreChangesAndAdditions then Object.set patch key modifiedValue else patch,
        retainKeysList, original)
  | some originalValue => do
      let (foundDirectiveMarker, patch) ← handleDirectiveMarker key originalValue modifiedValue patch
      if foundDirectiveMarker then return (patch, retainKeysList, original)
      if originalValue.kind? ≠ modifiedValue.kind? then
        return (if !diffOptions.ignoreChangesAndAdditions then Object.set patch key modifiedValue
          else patch, retainKeysList, original)
      match originalValue, modifiedValue with
      | .object originalValueTyped, .object modifiedValueTyped => do
          let (patch, originalValueTyped) ←
            handleMapDiff diffMaps key originalValueTyped modifiedValueTyped patch schema diffOptions
          pure (patch, retainKeysList, Object.set original key (.object originalValueTyped))
      | .array originalValueTyped, .array modifiedValueTyped => do
          let (patch, originalValueTyped) ←
            handleSliceDiff diffMaps key originalValueTyped modifiedValueTyped patch schema diffOptions
          pure (patch, retainKeysList, Object.set original key (.array originalValueTyped))
      | _, _ =>
          pure (replacePatchFieldIfNotEqual key originalValue modifiedValue patch diffOptions,
            retainKeysList, original)
attribute [grind] diffMapsEntry

end Handlers

/-! ## `diffMaps` and the two-way patch -/

/-- `diffMaps` on `fuel`, each nested call taking one unit: the patch, and `original` as
the diff leaves it. -/
def diffMaps : Nat → Object → Object → σ → DiffOptions → Except String (Object × Object)
  | 0, _, _, _, _ => .error "diffMaps: nesting deeper than the fuel"
  | fuel + 1, original, modified, schema, diffOptions => do
      let (patch, retainKeysList, original) ←
        modified.foldlM (diffMapsEntry (diffMaps fuel) schema diffOptions) ([], [], original)
      let patch := updatePatchIfMissing original modified patch diffOptions
      if !retainKeysList.isEmpty && (!patch.isEmpty || hasAdditionalNewField original modified) then
        pure (Object.set patch retainKeysDirective (.array (sortScalars retainKeysList)), original)
      else pure (patch, original)
attribute [grind] diffMaps

/-- The fuel `diffMaps` is given: one more than the depth of `modified`. -/
def diffFuel (modified : Object) : Nat :=
  (Value.object modified).depth + 1
attribute [grind] diffFuel

/-- `mergepatch.NewErrPreconditionFailed(target)`. -/
def errPreconditionFailed (target : Object) : String :=
  "precondition failed for: " ++ (Value.object target).format false

/-- `CreateTwoWayMergeMapPatchUsingLookupPatchMeta`: the patch from `original` to
`modified`, with `$setElementOrder` lists, checked by the preconditions `fns`. -/
def createTwoWayMergeMapPatchUsingLookupPatchMeta (original modified : Object) (schema : σ)
    (fns : List (Object → Bool)) : Except String Object := do
  let (patchMap, _) ← diffMaps (diffFuel modified) original modified schema ⟨true, false, false, false⟩
  if fns.all (· patchMap) then pure patchMap else .error (errPreconditionFailed patchMap)
attribute [grind] createTwoWayMergeMapPatchUsingLookupPatchMeta

/-- Reordering a `merge` list of scalars into its sorted order: `diffListsOfScalars` has
sorted `original` in place, so `diffLists` finds it equal to `modified` and emits no
`$setElementOrder` list.  The patch is empty, and applying it keeps the old order. -/
theorem createTwoWayMergePatch_drops_sorted_reorder :
    let schema : PatchMetaFromStruct :=
      ⟨.struct "T" [("mergingIntList", "merge", "", .slice (.basic "int"))]⟩
    let original : Object := [("mergingIntList", .array [.number 2, .number 1])]
    let modified : Object := [("mergingIntList", .array [.number 1, .number 2])]
    createTwoWayMergeMapPatchUsingLookupPatchMeta original modified schema [] = .ok [] ∧
      strategicMergeMapPatchUsingLookupPatchMeta original [] schema = .ok original ∧
      original ≠ modified := by
  decide

end StrategicPatch
end Kubernetes
