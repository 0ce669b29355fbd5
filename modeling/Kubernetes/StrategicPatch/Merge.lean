import Kubernetes.StrategicPatch.Lists

/-!
# Strategic merge patch: `mergeMap`

`mergeMap(original, patch, schema, mergeOptions)` merges a patch map into a document map:
a `$patch` directive replaces or deletes the whole map, `$retainKeys` clears the keys it
does not list, every `$setElementOrder/<list>` merges and orders its list first, and then
each key of the patch is merged into the document: `null` deletes, a value of a new key or
of another type replaces, maps merge recursively (unless the field's strategy is
`replace`), lists merge by the field's strategy, and scalars replace.  Two entry points use
it: `StrategicMergeMapPatchUsingLookupPatchMeta` applies a patch to a document, and
`MergeStrategicMergeMapPatchUsingLookupPatchMeta` merges patches into one, keeping their
`null`s and parallel lists.

`mergeMap` recurses through the list functions (`mergeSliceHandler`, `mergeSlice`,
`mergeSliceWithoutSpecialElements`) into the maps of a list.  Those functions take the
recursive call as their argument `mergeMap`, and `mergeMap` itself runs on fuel: each
nested call is on a map nested strictly inside the patch, so the entry points give the
patch's depth plus one and the fuel never runs out.

The code mutates `original` and `patch` in place; the model threads the two maps through
the steps that change them.
-/

namespace Kubernetes
namespace StrategicPatch

open Go

variable {σ : Type} [LookupPatchMeta σ]

/-- The recursive call into nested maps, with the options of the outer call. -/
abbrev MergeMapFn (σ : Type) := σ → Object → Object → Except String Object

/-! ## Directives -/

/-- `handleDirectiveInMergeMap`: `$patch: replace` makes the patch, without its
directive, the result; `$patch: delete` makes it empty. -/
def handleDirectiveInMergeMap (directive : Value) (patch : Object) : Except String Object :=
  if directive = Value.string replaceDirective then .ok (Object.erase patch directiveMarker)
  else if directive = Value.string deleteDirective then .ok []
  else .error (errBadPatchType directive patch)
attribute [grind] handleDirectiveInMergeMap

/-- `extractKey`: the list key after the directive prefix and its `/`. -/
def extractKey (s pre : String) : Except String String :=
  match stringsSplitN s '/' 2 with
  | [first, rest] => if first = pre then .ok rest else .error failure
  | _ => .error failure
where
  failure : String :=
    if pre = deleteFromPrimitiveListDirectivePrefix then errBadPatchFormatForPrimitiveList
    else if pre = setElementOrderDirectivePrefix then errBadPatchFormatForSetElementOrderList
    else "fail to find unknown prefix " ++ quote pre ++ " in " ++ s ++ "\n"
attribute [grind] extractKey extractKey.failure

/-- `preprocessDeletionListForMerging`: returns the document, whether to skip the key,
whether the key is a parallel deletion list, and the list key it deletes from.  When
parallel lists are not merged, the deletion list is copied into the document as is. -/
def preprocessDeletionListForMerging (key : String) (original : Object) (patchVal : Value)
    (mergeDeletionList : Bool) : Except String (Object × Bool × Bool × String) :=
  if hasPrefix key deleteFromPrimitiveListDirectivePrefix then
    if !mergeDeletionList then .ok (Object.set original key patchVal, true, false, "")
    else do
      let originalKey ← extractKey key deleteFromPrimitiveListDirectivePrefix
      pure (original, false, true, originalKey)
  else .ok (original, false, false, "")
attribute [grind] preprocessDeletionListForMerging

/-- `applyRetainKeysDirective`: when applying, every key of the patch must be listed in
`$retainKeys`, and the document keeps only the listed keys; when merging patches, the
directive is carried into the merged patch. -/
def applyRetainKeysDirective (original patch : Object) (options : MergeOptions) :
    Except String (Object × Object) :=
  match Object.get? patch retainKeysDirective with
  | none => .ok (original, patch)
  | some retainKeysInPatch =>
      let patch := Object.erase patch retainKeysDirective
      if !options.mergeParallelList then
        match Object.get? original retainKeysDirective with
        | some retainKeysInOriginal =>
            if retainKeysInOriginal = retainKeysInPatch then .ok (original, patch)
            else .error (retainKeysInOriginal.format false ++ " and " ++
              retainKeysInPatch.format false ++
              " are not deep equal: this may happen when calculating the 3-way diff patch")
        | none => .ok (Object.set original retainKeysDirective retainKeysInPatch, patch)
      else
        match retainKeysInPatch with
        | .array retainKeysList =>
            let listed (k : String) : Bool := retainKeysList.contains (Value.string k)
            let unlisted := patch.any fun (k, v) =>
              !(v == .null || hasPrefix k deleteFromPrimitiveListDirectivePrefix ||
                hasPrefix k setElementOrderDirectivePrefix) && !listed k
            if unlisted then .error errBadPatchFormatForRetainKeys
            else .ok (original.filter (fun e => listed e.1), patch)
        | _ => .error errBadPatchFormatForRetainKeys
attribute [grind] applyRetainKeysDirective

mutual
/-- `discardNullValuesFromPatch`: drop every `null` value of a map, in maps and lists at
any depth. -/
def discardNullValuesFromPatch : Value → Value
  | .object fields => .object (discardNullFields fields)
  | .array items => .array (discardNullItems items)
  | v => v
/-- The entries of a map without its `null` values, the others cleaned. -/
def discardNullFields : List (String × Value) → List (String × Value)
  | [] => []
  | (k, v) :: fs =>
      if v = .null then discardNullFields fs else (k, discardNullValuesFromPatch v) :: discardNullFields fs
/-- The elements of a list, cleaned. -/
def discardNullItems : List Value → List Value
  | [] => []
  | v :: vs => discardNullValuesFromPatch v :: discardNullItems vs
end

/-! ## Lists -/

section Handlers

variable (mergeMap : MergeMapFn σ)

/-- `mergeSliceWithoutSpecialElements`: each map of the patch merges into the map of
`original` with its merge-key value, or is appended. -/
def mergeSliceWithoutSpecialElements (schema : σ) (mergeKey : String) :
    List Value → List Value → Except String (List Value)
  | original, [] => .ok original
  | original, .object typedV :: vs =>
      match Object.get? typedV mergeKey with
      | none => .error (errNoMergeKey typedV mergeKey)
      | some mergeValue => do
          match ← findMapInSliceBasedOnKeyValue original mergeKey mergeValue with
          | some (originalMap, originalKey) =>
              let mergedMaps ← mergeMap schema originalMap typedV
              mergeSliceWithoutSpecialElements schema mergeKey
                (original.set originalKey (.object mergedMaps)) vs
          | none =>
              mergeSliceWithoutSpecialElements schema mergeKey (original ++ [.object typedV]) vs
  | _, v :: _ => .error (panicNotMap v)
attribute [grind] mergeSliceWithoutSpecialElements

/-- `mergeSlice`: lists of scalars are concatenated and deduplicated (or, for a parallel
deletion list, filtered); lists of maps merge by merge key.  Either way the result is then
ordered: the patch's items by the patch, the others by `original`. -/
def mergeSlice (original patch : List Value) (schema : σ) (mergeKey : String)
    (mergeOptions : MergeOptions) (isDeleteList : Bool) : Except String (List Value) :=
  if original.isEmpty && patch.isEmpty then .ok original
  else do
    let t ← sliceElementType [original, patch]
    if t ≠ .map && mergeOptions.mergeParallelList && isDeleteList then
      pure (deleteFromSlice original patch)
    else
      let (original, patch, merged) ←
        if t ≠ .map then pure (original, patch, deduplicateScalars (original ++ patch))
        else if mergeKey = "" then
          .error ("cannot merge lists without merge key for " ++ LookupPatchMeta.name schema)
        else do
          let (original, patch) ← mergeSliceWithSpecialElements original patch mergeKey
          let merged ← mergeSliceWithoutSpecialElements mergeMap schema mergeKey original patch
          pure (original, patch, merged)
      let (patchItems, serverOnlyItems) ←
        if mergeKey = "" then pure (partitionPrimitivesByPresentInList merged patch)
        else partitionMapsByPresentInList merged patch mergeKey
      normalizeElementOrder patchItems serverOnlyItems patch original mergeKey t
attribute [grind] mergeSlice

/-- `mergeSliceHandler`: merge by the field's strategy, or replace. -/
def mergeSliceHandler (original patch : Value) (schema : σ)
    (fieldPatchStrategy fieldPatchMergeKey : String) (isDeleteList : Bool)
    (mergeOptions : MergeOptions) : Except String (List Value) :=
  match original, patch with
  | .array typedOriginal, .array typedPatch =>
      if fieldPatchStrategy = mergeDirective then
        mergeSlice mergeMap typedOriginal typedPatch schema fieldPatchMergeKey mergeOptions isDeleteList
      else .ok typedPatch
  | .array _, patch => .error (errBadArgType .slice patch)
  | original, _ => .error (errBadArgType .slice original)
attribute [grind] mergeSliceHandler

/-- `mergeMapHandler`: merge recursively, unless the field's strategy is `replace`. -/
def mergeMapHandler (original patch : Value) (schema : σ) (fieldPatchStrategy : String) :
    Except String Object :=
  match original, patch with
  | .object typedOriginal, .object typedPatch =>
      if fieldPatchStrategy ≠ replaceDirective then mergeMap schema typedOriginal typedPatch
      else .ok typedPatch
  | .object _, patch => .error (errBadArgType .map patch)
  | original, _ => .error (errBadArgType .map original)
attribute [grind] mergeMapHandler

/-! ## `$setElementOrder` -/

/-- The body of the loop of `mergePatchIntoOriginal` for the directive `key`: merge the
list it orders (when patch and document both have it), order the result, and remove the
directive and the list from the patch. -/
def mergeSetElementOrder (schema : σ) (mergeOptions : MergeOptions) (original patch : Object)
    (key : String) (setElementOrderInPatch : Value) : Except String (Object × Object) := do
  let original ←
    if !mergeOptions.mergeParallelList then
      match Object.get? original key with
      | some setElementOrderListInOriginal =>
          if setElementOrderListInOriginal ≠ setElementOrderInPatch then
            .error errBadPatchFormatForSetElementOrderList
          else pure original
      | none => pure (Object.set original key setElementOrderInPatch)
    else pure original
  let patch := Object.erase patch key
  let typedSetElementOrderList ←
    match setElementOrderInPatch with
    | .array l => pure l
    | v => .error (errBadArgType .slice v)
  let originalKey ← extractKey key setElementOrderDirectivePrefix
  let originalFieldValue ←
    match Object.get? original originalKey with
    | none => pure none
    | some (.array l) => pure (some l)
    | some v => .error (errBadArgType .slice v)
  let patchFieldValue ←
    match Object.get? patch originalKey with
    | none => pure none
    | some (.array l) => pure (some l)
    | some v => .error (errBadArgType .slice v)
  let (subschema, patchMeta) ← LookupPatchMeta.lookupPatchMetadataForSlice schema originalKey
  let (_, patchStrategy) ← extractRetainKeysPatchStrategy patchMeta.patchStrategies
  validatePatchWithSetOrderList (patchFieldValue.getD []) typedSetElementOrderList
    patchMeta.patchMergeKey
  let merged ←
    match originalFieldValue, patchFieldValue with
    | some o, none => pure (some o)
    | none, some p => pure (some p)
    | some o, some p =>
        some <$> mergeSliceHandler mergeMap (.array o) (.array p) subschema patchStrategy
          patchMeta.patchMergeKey false mergeOptions
    | none, none => pure none
  match merged with
  | none => pure (original, patch)
  | some merged => do
      let (patchItems, serverOnlyItems) ←
        if patchMeta.patchMergeKey = "" then
          pure (partitionPrimitivesByPresentInList merged typedSetElementOrderList)
        else partitionMapsByPresentInList merged typedSetElementOrderList patchMeta.patchMergeKey
      let elementType ← sliceElementType [originalFieldValue.getD [], patchFieldValue.getD []]
      let both ← normalizeElementOrder patchItems serverOnlyItems typedSetElementOrderList
        (originalFieldValue.getD []) patchMeta.patchMergeKey elementType
      pure (Object.set original originalKey (.array both), Object.erase patch originalKey)
attribute [grind] mergeSetElementOrder

/-- `mergePatchIntoOriginal`: process every `$setElementOrder` key of the patch.  The loop
ranges over the patch as it was, skipping keys deleted from it meanwhile, as ranging over
a Go map does. -/
def mergePatchIntoOriginal (schema : σ) (mergeOptions : MergeOptions) :
    Object → Object → Object → Except String (Object × Object)
  | original, patch, [] => .ok (original, patch)
  | original, patch, (key, _) :: rest =>
      if !hasPrefix key setElementOrderDirectivePrefix then
        mergePatchIntoOriginal schema mergeOptions original patch rest
      else
        match Object.get? patch key with
        | none => mergePatchIntoOriginal schema mergeOptions original patch rest
        | some patchV => do
            let (original, patch) ←
              mergeSetElementOrder mergeMap schema mergeOptions original patch key patchV
            mergePatchIntoOriginal schema mergeOptions original patch rest
attribute [grind] mergePatchIntoOriginal

/-! ## One key of the patch -/

/-- The body of the loop of `mergeMap` for the patch entry `(k, patchV)`. -/
def mergeMapEntry (schema : σ) (mergeOptions : MergeOptions) (original : Object)
    (entry : String × Value) : Except String Object := do
  let (k, patchV) := entry
  let (original, skipProcessing, isDeleteList, noPrefixKey) ←
    preprocessDeletionListForMerging k original patchV mergeOptions.mergeParallelList
  if skipProcessing then return original
  let k := if noPrefixKey ≠ "" then noPrefixKey else k
  -- `null` deletes; it is kept as a value only when unmatched nulls are not ignored
  let original := if patchV = .null then Object.erase original k else original
  if patchV = .null && mergeOptions.ignoreUnmatchedNulls then return original
  let replaced :=
    if !isDeleteList then
      Object.set original k
        (if mergeOptions.ignoreUnmatchedNulls then discardNullValuesFromPatch patchV else patchV)
    else original
  match Object.get? original k with
  | none => pure replaced
  | some originalV =>
      if originalV.kind? ≠ patchV.kind? then pure replaced
      else
        match originalV with
        | .object _ => do
            let (subschema, patchMeta) ← LookupPatchMeta.lookupPatchMetadataForStruct schema k
            let (_, patchStrategy) ← extractRetainKeysPatchStrategy patchMeta.patchStrategies
            let merged ← mergeMapHandler mergeMap originalV patchV subschema patchStrategy
            pure (Object.set original k (.object merged))
        | .array _ => do
            let (subschema, patchMeta) ← LookupPatchMeta.lookupPatchMetadataForSlice schema k
            let (_, patchStrategy) ← extractRetainKeysPatchStrategy patchMeta.patchStrategies
            let merged ← mergeSliceHandler mergeMap originalV patchV subschema patchStrategy
              patchMeta.patchMergeKey isDeleteList mergeOptions
            pure (Object.set original k (.array merged))
        | _ => pure (Object.set original k patchV)
attribute [grind] mergeMapEntry

end Handlers

/-! ## `mergeMap` and its entry points -/

/-- `mergeMap` on `fuel`, each nested call taking one unit. -/
def mergeMap : Nat → σ → Object → Object → MergeOptions → Except String Object
  | 0, _, _, _, _ => .error "mergeMap: nesting deeper than the fuel"
  | fuel + 1, schema, original, patch, mergeOptions =>
      match Object.get? patch directiveMarker with
      | some directive => handleDirectiveInMergeMap directive patch
      | none => do
          let nested : MergeMapFn σ := fun s o p => mergeMap fuel s o p mergeOptions
          let (original, patch) ← applyRetainKeysDirective original patch mergeOptions
          let (original, patch) ←
            mergePatchIntoOriginal nested schema mergeOptions original patch patch
          patch.foldlM (mergeMapEntry nested schema mergeOptions) original
attribute [grind] mergeMap

/-- The fuel `mergeMap` is given: one more than the depth of the patch. -/
def mergeFuel (patch : Object) : Nat :=
  (Value.object patch).depth + 1
attribute [grind] mergeFuel

/-- `StrategicMergeMapPatchUsingLookupPatchMeta`: apply a patch to a document. -/
def strategicMergeMapPatchUsingLookupPatchMeta (original patch : Object) (schema : σ) :
    Except String Object :=
  mergeMap (mergeFuel patch) schema original patch ⟨true, true⟩
attribute [grind] strategicMergeMapPatchUsingLookupPatchMeta

/-- `MergeStrategicMergeMapPatchUsingLookupPatchMeta`: merge patches into one, the later
overriding the earlier. -/
def mergeStrategicMergeMapPatchUsingLookupPatchMeta (schema : σ) (patches : List Object) :
    Except String Object :=
  patches.foldlM (fun merged patch => mergeMap (mergeFuel patch) schema merged patch ⟨false, false⟩) []
attribute [grind] mergeStrategicMergeMapPatchUsingLookupPatchMeta

/-- Merging `{"m": null}` and then `{"m": {"a": 1}}` gives the second patch alone: the
deletion is lost.  Applied to `{"m": {"b": 2}}` the merged patch keeps `b`, while the two
patches applied in turn replace `m` by `{"a": 1}`. -/
theorem mergeStrategicMergeMapPatch_loses_deletion :
    let schema : PatchMetaFromStruct :=
      ⟨.struct "T" [("m", "", "", .struct "M" [("a", "", "", .basic "int"), ("b", "", "", .basic "int")])]⟩
    let p₁ : Object := [("m", .null)]
    let p₂ : Object := [("m", .object [("a", .number 1)])]
    let d : Object := [("m", .object [("b", .number 2)])]
    mergeStrategicMergeMapPatchUsingLookupPatchMeta schema [p₁, p₂] = .ok p₂ ∧
      strategicMergeMapPatchUsingLookupPatchMeta d p₂ schema =
        .ok [("m", .object [("a", .number 1), ("b", .number 2)])] ∧
      (strategicMergeMapPatchUsingLookupPatchMeta d p₁ schema >>= fun d₁ =>
        strategicMergeMapPatchUsingLookupPatchMeta d₁ p₂ schema) = .ok [("m", .object [("a", .number 1)])] := by
  decide

end StrategicPatch
end Kubernetes
