import Kubernetes.StrategicPatch.Meta
import Kubernetes.Go.Sort

/-!
# Strategic merge patch: the list helpers of `patch.go`

The functions a merge of two lists is made of, none of them recursive into documents:
finding a map by its merge key, the `$patch` elements of a list of maps, deduplication
and parallel deletion for lists of scalars, partitions, the order normalisation by
`$setElementOrder` and by the live list, and the element type of lists.

Loops over slices are recursions over lists; a loop that deletes as it goes
(`deleteMatchingEntries`, `deduplicateScalars`) runs on fuel that its number of
iterations never exceeds.
-/

namespace Kubernetes
namespace StrategicPatch

open Go

/-- `containsDirectiveMarker`. -/
def containsDirectiveMarker (item : Value) : Bool :=
  match item with
  | .object m => (Object.get? m directiveMarker).isSome
  | _ => false
attribute [grind] containsDirectiveMarker

/-- `mergeKeyValueEqual`: scalars compare directly, maps by their merge-key values. -/
def mergeKeyValueEqual (left right : Value) (mergeKey : String) : Except String Bool :=
  if mergeKey = "" then .ok (left == right)
  else
    match left, right with
    | .object typedLeft, .object typedRight =>
        match Object.get? typedLeft mergeKey, Object.get? typedRight mergeKey with
        | some mergeKeyLeft, some mergeKeyRight => .ok (mergeKeyLeft == mergeKeyRight)
        | none, _ => .error (errNoMergeKey typedLeft mergeKey)
        | some _, none => .error (errNoMergeKey typedRight mergeKey)
    | .object _, right => .error (errBadArgType .map right)
    | left, _ => .error (errBadArgType .map left)
attribute [grind] mergeKeyValueEqual

/-- `findMapInSliceBasedOnKeyValue`: the first map whose `key` holds `value`, with its
position; an element that is not a map before it is an error. -/
def findMapInSliceBasedOnKeyValue (m : List Value) (key : String) (value : Value) :
    Except String (Option (Object × Nat)) :=
  go 0 m
where
  go (k : Nat) : List Value → Except String (Option (Object × Nat))
    | [] => .ok none
    | .object typedV :: vs =>
        if Object.get? typedV key = some value then .ok (some (typedV, k)) else go (k + 1) vs
    | _ :: _ => .error ("value for key " ++ toString k ++ " is not a map")
attribute [grind] findMapInSliceBasedOnKeyValue findMapInSliceBasedOnKeyValue.go

/-- `deleteMatchingEntries`: delete the first map with the merge value until none is
left. -/
def deleteMatchingEntries (original : List Value) (mergeKey : String) (mergeValue : Value) :
    Except String (List Value) :=
  loop (original.length + 1) original
where
  loop : Nat → List Value → Except String (List Value)
    | 0, original => .ok original
    | fuel + 1, original => do
        match ← findMapInSliceBasedOnKeyValue original mergeKey mergeValue with
        | none => pure original
        | some (_, originalKey) => loop fuel (original.eraseIdx originalKey)
attribute [grind] deleteMatchingEntries deleteMatchingEntries.loop

/-- `mergeSliceWithSpecialElements`: apply the `$patch: delete` elements of a list of maps
to `original` and drop the directive elements from the patch; a `$patch: replace` element
makes the rest of the patch the result. -/
def mergeSliceWithSpecialElements (original patch : List Value) (mergeKey : String) :
    Except String (List Value × List Value) := do
  let (original, patchWithoutSpecialElements, replace) ← loop original [] false patch
  if replace then pure (patchWithoutSpecialElements, [])
  else pure (original, patchWithoutSpecialElements)
where
  loop (original patchWithoutSpecialElements : List Value) (replace : Bool) :
      List Value → Except String (List Value × List Value × Bool)
    | [] => .ok (original, patchWithoutSpecialElements, replace)
    | .object typedV :: vs =>
        match Object.get? typedV directiveMarker with
        | none => loop original (patchWithoutSpecialElements ++ [Value.object typedV]) replace vs
        | some patchType =>
            if patchType = Value.string deleteDirective then
              match Object.get? typedV mergeKey with
              | some mergeValue => do
                  let original ← deleteMatchingEntries original mergeKey mergeValue
                  loop original patchWithoutSpecialElements replace vs
              | none => .error (errNoMergeKey typedV mergeKey)
            else if patchType = Value.string replaceDirective then
              loop original patchWithoutSpecialElements true vs
            else if patchType = Value.string mergeDirective then
              .error "merging lists cannot yet be specified in the patch"
            else .error (errBadPatchType patchType typedV)
    | v :: _ => .error (panicNotMap v)
attribute [grind] mergeSliceWithSpecialElements mergeSliceWithSpecialElements.loop

/-- `deleteFromSlice`: the parallel deletion list removes values from a list of
scalars. -/
def deleteFromSlice (current toDelete : List Value) : List Value :=
  current.filter fun v => !toDelete.contains v
attribute [grind] deleteFromSlice

/-- The inner loop of `deduplicateScalars` at position `i`, on the backing array `s` of the
slice whose last index is `length`: a later duplicate of `s[i]` is overwritten by the last
element, and the slice shortened by one.  The array keeps its cells past the slice. -/
def deduplicateInner (i : Nat) : Nat → List Value → Nat → Nat → List Value × Nat
  | 0, s, length, _ => (s, length)
  | fuel + 1, s, length, j =>
      if j ≤ length then
        if s[i]? = s[j]? then
          deduplicateInner i fuel (s.set j (s[length]?.getD .null)) (length - 1) j
        else deduplicateInner i fuel s length (j + 1)
      else (s, length)
attribute [grind] deduplicateInner

/-- The outer loop of `deduplicateScalars`. -/
def deduplicateOuter : Nat → List Value → Nat → Nat → List Value × Nat
  | 0, s, length, _ => (s, length)
  | fuel + 1, s, length, i =>
      if i < length then
        let (s, length) := deduplicateInner i (length - i) s length (i + 1)
        deduplicateOuter fuel s length (i + 1)
      else (s, length)
attribute [grind] deduplicateOuter

/-- What `deduplicateScalars` leaves in the backing array of a non-empty slice, with the
length of the slice it returns.  A caller that keeps the slice it passed sees this array. -/
def deduplicateScalarsArray (s : List Value) : List Value × Nat :=
  let (s, length) := deduplicateOuter s.length s (s.length - 1) 0
  (s, length + 1)
attribute [grind] deduplicateScalarsArray

/-- `deduplicateScalars`: each duplicate is replaced by the current last element, so the
order of the survivors is not kept. -/
def deduplicateScalars (s : List Value) : List Value :=
  match s with
  | [] => []
  | _ =>
      let (s, length) := deduplicateScalarsArray s
      s.take length
attribute [grind] deduplicateScalars

/-- `partitionPrimitivesByPresentInList`. -/
def partitionPrimitivesByPresentInList (original partitionBy : List Value) :
    List Value × List Value :=
  (original.filter fun v => partitionBy.contains v, original.filter fun v => !partitionBy.contains v)
attribute [grind] partitionPrimitivesByPresentInList

/-- `partitionMapsByPresentInList`: maps whose merge-key value is found in `partitionBy`,
and the others. -/
def partitionMapsByPresentInList (original partitionBy : List Value) (mergeKey : String) :
    Except String (List Value × List Value) :=
  loop [] [] original
where
  loop (patch serverOnly : List Value) : List Value → Except String (List Value × List Value)
    | [] => .ok (patch, serverOnly)
    | .object typedV :: vs =>
        match Object.get? typedV mergeKey with
        | none => .error (errNoMergeKey typedV mergeKey)
        | some mergeKeyValue => do
            match ← findMapInSliceBasedOnKeyValue partitionBy mergeKey mergeKeyValue with
            | none => loop patch (serverOnly ++ [Value.object typedV]) vs
            | some _ => loop (patch ++ [Value.object typedV]) serverOnly vs
    | v :: _ => .error (errBadArgType .map v)
attribute [grind] partitionMapsByPresentInList partitionMapsByPresentInList.loop

/-- `extractToDeleteItems`: the maps that are not `$patch: delete` directives, and those
that are. -/
def extractToDeleteItems (l : List Value) : Except String (List Value × List Value) :=
  loop [] [] l
where
  loop (nonDelete toDelete : List Value) : List Value → Except String (List Value × List Value)
    | [] => .ok (nonDelete, toDelete)
    | .object m :: vs =>
        if Object.get? m directiveMarker = some (Value.string deleteDirective) then
          loop nonDelete (toDelete ++ [Value.object m]) vs
        else loop (nonDelete ++ [Value.object m]) toDelete vs
    | v :: _ => .error (errBadArgType .map v)
attribute [grind] extractToDeleteItems extractToDeleteItems.loop

/-- `validateMergeKeyInLists`: every item is a map carrying the merge key. -/
def validateMergeKeyInLists (mergeKey : String) (lists : List (List Value)) : Except String Unit :=
  loop lists.flatten
where
  loop : List Value → Except String Unit
    | [] => .ok ()
    | .object m :: vs =>
        if (Object.get? m mergeKey).isSome then loop vs else .error (errNoMergeKey m mergeKey)
    | v :: _ => .error (errBadArgType .map v)
attribute [grind] validateMergeKeyInLists validateMergeKeyInLists.loop

/-- What `index` compares: the merge-key value of a map (`nil` when missing), or the
item itself. -/
def indexValue (mergeKey : String) (kind : Kind) (item : Value) : Value :=
  if kind = .map then
    match item with
    | .object m => (Object.get? m mergeKey).getD .null
    | _ => .null
  else item
attribute [grind] indexValue

/-- `index`: the first position of `valToLookUp` in `l`; `-1` is `none`. -/
def index (l : List Value) (valToLookUp : Value) (mergeKey : String) (kind : Kind) : Option Nat :=
  l.findIdx? fun v => indexValue mergeKey kind valToLookUp == indexValue mergeKey kind v
attribute [grind] index

/-- The comparison `normalizeSliceOrder` sorts with: by position in `order`, and `true`
as soon as one of the two is not found there. -/
def orderLess (order : List Value) (mergeKey : String) (kind : Kind) (a b : Value) : Bool :=
  match index order a mergeKey kind, index order b mergeKey kind with
  | some ii, some ij => decide (ii < ij)
  | _, _ => true
attribute [grind] orderLess

/-- `normalizeSliceOrder`: sort `toSort` by the positions in `order`; `$patch: delete`
maps go last. -/
def normalizeSliceOrder (toSort order : List Value) (mergeKey : String) (kind : Kind) :
    Except String (List Value) := do
  let (toSort, toDelete) ←
    if kind = .map then do
      validateMergeKeyInLists mergeKey [toSort, order]
      extractToDeleteItems toSort
    else pure (toSort, [])
  pure (sliceStable toSort (orderLess order mergeKey kind) ++ toDelete)
attribute [grind] normalizeSliceOrder

/-- `mergeSortedSlice`: interleave two sorted lists; an item of `left` goes first only
when both are found in `serverOrder` and it stands earlier there. -/
def mergeSortedSlice (left right serverOrder : List Value) (mergeKey : String) (kind : Kind) :
    List Value :=
  loop (left.length + right.length) left right
where
  less (l r : Value) : Bool :=
    match index serverOrder l mergeKey kind, index serverOrder r mergeKey kind with
    | some li, some ri => decide (li < ri)
    | _, _ => false
  loop : Nat → List Value → List Value → List Value
    | 0, _, _ => []
    | k + 1, [], r :: rs => r :: loop k [] rs
    | k + 1, l :: ls, [] => l :: loop k ls []
    | k + 1, l :: ls, r :: rs =>
        if less l r then l :: loop k ls (r :: rs) else r :: loop k (l :: ls) rs
    | _ + 1, [], [] => []
attribute [grind] mergeSortedSlice mergeSortedSlice.less mergeSortedSlice.loop

/-- `normalizeElementOrder`: sort the patch items by `patchOrder` and the server-only
items by `serverOrder`, then interleave them. -/
def normalizeElementOrder (patch serverOnly patchOrder serverOrder : List Value)
    (mergeKey : String) (kind : Kind) : Except String (List Value) := do
  let patch ← normalizeSliceOrder patch patchOrder mergeKey kind
  let serverOnly ← normalizeSliceOrder serverOnly serverOrder mergeKey kind
  pure (mergeSortedSlice serverOnly patch serverOrder mergeKey kind)
attribute [grind] normalizeElementOrder

/-- `fmt.Sprint` of a list of slices. -/
def formatSlices (slices : List (List Value)) : String :=
  "[" ++ " ".intercalate (slices.map fun s => (Value.array s).format false) ++ "]"
attribute [grind] formatSlices

/-- `sliceElementType`: the one type of all elements of the slices, which may not be a
slice.  A `nil` first element panics: the code asks the `Kind` of its nil type. -/
def sliceElementType (slices : List (List Value)) : Except String Kind := do
  match ← loop none slices.flatten with
  | some t => pure t
  | none => .error "no elements in any of the given slices"
where
  loop : Option Kind → List Value → Except String (Option Kind)
    | prevType, [] => .ok prevType
    | none, v :: vs =>
        match v.kind? with
        | none => .error panicNilDereference
        | some .slice => .error errNoListOfLists
        | some t => loop (some t) vs
    | some prevType, v :: vs =>
        if v.kind? = some prevType then loop (some prevType) vs
        else .error ("list element types are not identical: " ++ formatSlices slices)
attribute [grind] sliceElementType sliceElementType.loop

/-- `validatePatchWithSetOrderList`: the patch list, without its deletions, is a
subsequence of the `$setElementOrder` list. -/
def validatePatchWithSetOrderList (patchList setOrderList : List Value) (mergeKey : String) :
    Except String Unit := do
  if setOrderList.isEmpty || patchList.isEmpty then return ()
  let nonDeleteList ←
    if mergeKey ≠ "" then (·.1) <$> extractToDeleteItems patchList else pure patchList
  if ← loop nonDeleteList setOrderList then
    .error ("The order in patch list:\n" ++ (Value.array patchList).format false ++
      "\n doesn't match " ++ setElementOrderDirectivePrefix ++ " list:\n" ++
      (Value.array setOrderList).format false ++ "\n")
where
  /-- Walk both lists; whether patch items are left when the order list runs out. -/
  loop (patchItems : List Value) : List Value → Except String Bool
    | [] => .ok !patchItems.isEmpty
    | s :: ss =>
        match patchItems.dropWhile containsDirectiveMarker with
        | [] => .ok false
        | p :: ps => do
            if ← mergeKeyValueEqual p s mergeKey then loop ps ss else loop (p :: ps) ss
attribute [grind] validatePatchWithSetOrderList validatePatchWithSetOrderList.loop

end StrategicPatch
end Kubernetes
