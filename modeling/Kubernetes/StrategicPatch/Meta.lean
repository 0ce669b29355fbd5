import Kubernetes.Go.Json
import Kubernetes.Go.Strings

/-!
# Strategic merge patch: directives, errors and patch metadata

`patch.go` reads three things besides the documents: the directive keys a patch may carry
(`$patch`, `$retainKeys`, `$setElementOrder/<list>`, `$deleteFromPrimitiveList/<list>`),
the errors of `mergepatch`, and the patch metadata of a field (its `patchStrategy` and
`patchMergeKey` struct tags) through the `LookupPatchMeta` interface.

The interface is the class `LookupPatchMeta σ`, `σ` being the dynamic type behind it.  Its
implementation from Go struct tags, `PatchMetaFromStruct`, is modelled over `GoType`, what
`reflect` tells of a type: a struct lists its fields as the JSON encoder names them (after
`json` tags and embedded structs are resolved), with their two tags and their type.

Errors are their texts, as `err.Error()` gives them.  A run-time panic of the code is
modelled as a failure carrying the runtime error's text.
-/

namespace Kubernetes
namespace StrategicPatch

open Go

/-! ## Directives and options -/

/-- `directiveMarker`. -/
def directiveMarker : String := "$patch"
attribute [grind] directiveMarker

/-- `deleteDirective`. -/
def deleteDirective : String := "delete"
attribute [grind] deleteDirective

/-- `replaceDirective`. -/
def replaceDirective : String := "replace"
attribute [grind] replaceDirective

/-- `mergeDirective`. -/
def mergeDirective : String := "merge"
attribute [grind] mergeDirective

/-- `retainKeysStrategy`. -/
def retainKeysStrategy : String := "retainKeys"
attribute [grind] retainKeysStrategy

/-- `deleteFromPrimitiveListDirectivePrefix`. -/
def deleteFromPrimitiveListDirectivePrefix : String := "$deleteFromPrimitiveList"
attribute [grind] deleteFromPrimitiveListDirectivePrefix

/-- `retainKeysDirective`. -/
def retainKeysDirective : String := "$" ++ retainKeysStrategy
attribute [grind] retainKeysDirective

/-- `setElementOrderDirectivePrefix`. -/
def setElementOrderDirectivePrefix : String := "$setElementOrder"
attribute [grind] setElementOrderDirectivePrefix

/-- `MergeOptions`. -/
structure MergeOptions where
  mergeParallelList : Bool
  ignoreUnmatchedNulls : Bool
  deriving DecidableEq, Repr

/-! ## Errors -/

/-- `mergepatch.ErrNoListOfLists`. -/
def errNoListOfLists : String := "lists of lists are not supported"
attribute [grind] errNoListOfLists

/-- `mergepatch.ErrBadPatchFormatForPrimitiveList`. -/
def errBadPatchFormatForPrimitiveList : String := "invalid patch format of primitive list"
attribute [grind] errBadPatchFormatForPrimitiveList

/-- `mergepatch.ErrBadPatchFormatForRetainKeys`. -/
def errBadPatchFormatForRetainKeys : String := "invalid patch format of retainKeys"
attribute [grind] errBadPatchFormatForRetainKeys

/-- `mergepatch.ErrBadPatchFormatForSetElementOrderList`. -/
def errBadPatchFormatForSetElementOrderList : String :=
  "invalid patch format of setElementOrder list"
attribute [grind] errBadPatchFormatForSetElementOrderList

/-- `mergepatch.ErrNoMergeKey(m, k)`. -/
def errNoMergeKey (m : Object) (k : String) : String :=
  "map: " ++ (Value.object m).format false ++ " does not contain declared merge key: " ++ k
attribute [grind] errNoMergeKey

/-- `mergepatch.ErrBadArgType(expected, actual)`, `expected` being a typed nil of kind
`expected`. -/
def errBadArgType (expected : Kind) (actual : Value) : String :=
  "expected a " ++ expected.typeString ++ ", but received a " ++ actual.typeString
attribute [grind] errBadArgType

/-- `mergepatch.ErrBadPatchType(t, m)`. -/
def errBadPatchType (t : Value) (m : Object) : String :=
  "unknown patch type: " ++ t.format true ++ " in map: " ++ (Value.object m).format false

/-- The panic of a method call on a nil interface, such as `Kind()` of the
`reflect.TypeOf` of a nil. -/
def panicNilDereference : String :=
  "runtime error: invalid memory address or nil pointer dereference"
attribute [grind] panicNilDereference

/-- The panic of the unchecked assertion `v.(map[string]interface{})` on a non-map. -/
def panicNotMap (v : Value) : String :=
  "interface conversion: interface " ++ "\x7b\x7d" ++ " is " ++
    (match v.kind? with
    | some k => k.typeString
    | none => "nil") ++ ", not " ++ Kind.map.typeString

/-! ## Patch metadata -/

/-- `PatchMeta`: the patch strategies and the merge key of a field. -/
structure PatchMeta where
  patchStrategies : List String
  patchMergeKey : String
  deriving DecidableEq, Repr

/-- `LookupPatchMeta`: the subschema and the patch metadata of a field of an object
(`ForStruct`) or of the elements of a list field (`ForSlice`), and the type's name. -/
class LookupPatchMeta (σ : Type) where
  lookupPatchMetadataForStruct : σ → String → Except String (σ × PatchMeta)
  lookupPatchMetadataForSlice : σ → String → Except String (σ × PatchMeta)
  name : σ → String

/-- `extractRetainKeysPatchStrategy`: whether `retainKeys` is among the strategies, and
the other strategy. -/
def extractRetainKeysPatchStrategy (strategies : List String) : Except String (Bool × String) :=
  match strategies with
  | [] => .ok (false, "")
  | [singleStrategy] =>
      if singleStrategy = retainKeysStrategy then .ok (true, "") else .ok (false, singleStrategy)
  | [s₀, s₁] =>
      if s₀ = retainKeysStrategy then .ok (true, s₁)
      else if s₁ = retainKeysStrategy then .ok (true, s₀)
      else .error ("unexpected patch strategy: " ++ (Value.array (strategies.map .string)).format false)
  | _ => .error ("unexpected patch strategy: " ++ (Value.array (strategies.map .string)).format false)
attribute [grind] extractRetainKeysPatchStrategy

/-! ## Metadata from Go struct tags -/

/-- A Go type as `reflect` shows it to `PatchMetaFromStruct`.  A struct field is its JSON
name, its `patchStrategy` and `patchMergeKey` tags, and its type. -/
inductive GoType where
  | struct (name : String) (fields : List (String × String × String × GoType))
  | slice (elem : GoType)
  | array (elem : GoType)
  | pointer (elem : GoType)
  | map (elem : GoType)
  | basic (kind : String)

namespace GoType

/-- `reflect.Kind.String()`. -/
def kindString : GoType → String
  | .struct _ _ => "struct"
  | .slice _ => "slice"
  | .array _ => "array"
  | .pointer _ => "ptr"
  | .map _ => "map"
  | .basic kind => kind
attribute [grind] kindString

/-- Whether a type is a slice or an array. -/
def isList : GoType → Bool
  | .slice _ => true
  | .array _ => true
  | _ => false
attribute [grind] isList

/-- The element type of a slice, an array, a pointer or a map. -/
def elem : GoType → GoType
  | .slice e => e
  | .array e => e
  | .pointer e => e
  | .map e => e
  | t => t
attribute [grind] elem

/-- The case-insensitive comparison of field names, on ASCII letters. -/
def equalFold (a b : String) : Bool :=
  a.toList.map Char.toLower == b.toList.map Char.toLower
attribute [grind] equalFold

/-- The field the JSON decoder would fill for `jsonField`: the first of that exact name,
else the first whose name matches up to case. -/
def findField (jsonField : String) (fields : List (String × String × String × GoType)) :
    Option (String × String × GoType) :=
  match fields.find? (fun f => f.1 = jsonField) with
  | some f => some f.2
  | none => (fields.find? (fun f => equalFold f.1 jsonField)).map (·.2)
attribute [grind] findField

/-- `forkedjson.LookupPatchMetadataForStruct`: the field's type, its patch strategies
(the tag split at commas) and its merge key. -/
def lookupPatchMetadataForStruct (t : GoType) (jsonField : String) :
    Except String (GoType × List String × String) :=
  let t := match t with
    | .pointer e => e
    | t => t
  match t with
  | .struct name fields =>
      match findField jsonField fields with
      | some (patchStrategy, patchMergeKey, elemType) =>
          .ok (elemType, stringsSplit patchStrategy ',', patchMergeKey)
      | none =>
          .error ("unable to find api field in struct " ++ name ++ " for the json field " ++
            quote jsonField)
  | t => .error ("merging an object in json but data type is not struct, instead is: " ++ t.kindString)
attribute [grind] lookupPatchMetadataForStruct

end GoType

/-- `PatchMetaFromStruct`. -/
structure PatchMetaFromStruct where
  t : GoType

namespace PatchMetaFromStruct

/-- `PatchMetaFromStruct.LookupPatchMetadataForStruct`. -/
def lookupPatchMetadataForStruct (s : PatchMetaFromStruct) (key : String) :
    Except String (PatchMetaFromStruct × PatchMeta) :=
  match GoType.lookupPatchMetadataForStruct s.t key with
  | .ok (fieldType, fieldPatchStrategies, fieldPatchMergeKey) =>
      .ok (⟨fieldType⟩, ⟨fieldPatchStrategies, fieldPatchMergeKey⟩)
  | .error e => .error e
attribute [grind] lookupPatchMetadataForStruct

/-- `PatchMetaFromStruct.LookupPatchMetadataForSlice`: the element type of the list field.
Its last error names the kind of the struct looked into, as the code does. -/
def lookupPatchMetadataForSlice (s : PatchMetaFromStruct) (key : String) :
    Except String (PatchMetaFromStruct × PatchMeta) := do
  let (subschema, patchMeta) ← s.lookupPatchMetadataForStruct key
  match subschema.t with
  | .slice e | .array e =>
      if e.isList then .error "unexpected slice of slice" else pure (⟨e⟩, patchMeta)
  | .pointer e =>
      pure (⟨if e.isList then e.elem else e⟩, patchMeta)
  | _ => .error ("expected slice or array type, but got: " ++ s.t.kindString)
attribute [grind] lookupPatchMetadataForSlice

instance : LookupPatchMeta PatchMetaFromStruct where
  lookupPatchMetadataForStruct := lookupPatchMetadataForStruct
  lookupPatchMetadataForSlice := lookupPatchMetadataForSlice
  name s := s.t.kindString

end PatchMetaFromStruct

end StrategicPatch
end Kubernetes
