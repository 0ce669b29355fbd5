import Kubernetes.Go.Json

/-!
# JSON merge patch

RFC 7386 merge patch on JSON objects held as sorted maps.  `Object.mergePatch target patch`
applies a patch key by key: `null` deletes the key, an object merges recursively into the
target's value (into `{}` when that is no object), and any other value replaces it.
Around it:

* `Object.diff changes deletions source target`, a patch from `source` to `target`.  With
  both flags it takes `source` to any document `target` (`mergePatch_diff`); `diff false
  true` keeps only the deletions and `diff true false` only the additions and changes.
* `Object.compose first second`, merging two patches into one.  It does what `first` then
  `second` do when `second` puts no object where `first` deletes or writes a scalar
  (`Object.Compatible`, `mergePatch_compose`).
* `Object.threeWay original modified current`, the three-way merge: keys of `modified` take
  its values, merged into `current`'s where both are objects; keys that only `original`
  had are removed; other keys of `current` stay.  Applying the deletions from `original`
  to `modified` and then the changes from `current` to `modified` computes it
  (`mergePatch_mergePatch_diff`), and so does applying their composition
  (`mergePatch_compose_diff`).

Documents (`Value.IsDoc`) have sorted objects without `null` at any depth; patches
(`Value.IsPatch`) only sorted objects.  Arrays are values like the scalars.  A key a map
lacks is read as `null`, which no merge tells apart from a `null` value except where
noted.  The results are proved key by key (`Object.ext_get?`), by induction on the depth of
the documents.
-/

namespace Kubernetes
namespace Go

namespace Value

/-- The entries of an object; any other value has none. -/
def fields : Value → Object
  | .object fs => fs
  | _ => []
attribute [grind] fields

/-- Whether a value is an object. -/
def isObject : Value → Bool
  | .object _ => true
  | _ => false
attribute [grind] isObject

@[simp] theorem fields_object (fs : Object) : (Value.object fs).fields = fs := rfl

@[simp] theorem fields_null : Value.null.fields = [] := rfl

@[simp] theorem isObject_null : Value.null.isObject = false := rfl

theorem eq_object_of_isObject {v : Value} (h : v.isObject = true) : v = .object v.fields := by
  cases v <;> simp_all [isObject]

theorem fields_of_isObject_false {v : Value} (h : v.isObject = false) : v.fields = [] := by
  cases v <;> simp_all [isObject, fields]

mutual
/-- A document: at every depth its objects have sorted keys and no `null` value. -/
def IsDoc : Value → Prop
  | .object fs => Object.Sorted fs ∧ IsDocFields fs
  | _ => True
/-- The values of a document's entries. -/
def IsDocFields : List (String × Value) → Prop
  | [] => True
  | (_, v) :: fs => v ≠ .null ∧ IsDoc v ∧ IsDocFields fs
end

mutual
/-- A patch: at every depth its objects have sorted keys. -/
def IsPatch : Value → Prop
  | .object fs => Object.Sorted fs ∧ IsPatchFields fs
  | _ => True
/-- The values of a patch's entries. -/
def IsPatchFields : List (String × Value) → Prop
  | [] => True
  | (_, v) :: fs => IsPatch v ∧ IsPatchFields fs
end

theorem isDocFields_iff {fs : List (String × Value)} :
    IsDocFields fs ↔ ∀ k v, (k, v) ∈ fs → v ≠ .null ∧ v.IsDoc := by
  induction fs with
  | nil => simp [IsDocFields]
  | cons e fs ih =>
      obtain ⟨k, v⟩ := e
      simp only [IsDocFields, ih, List.mem_cons, Prod.mk.injEq]
      constructor
      · rintro ⟨hv, hd, hfs⟩ k' v' (⟨rfl, rfl⟩ | hmem)
        exacts [⟨hv, hd⟩, hfs k' v' hmem]
      · intro h
        exact ⟨(h k v (Or.inl ⟨rfl, rfl⟩)).1, (h k v (Or.inl ⟨rfl, rfl⟩)).2,
          fun k' v' hmem => h k' v' (Or.inr hmem)⟩

theorem isPatchFields_iff {fs : List (String × Value)} :
    IsPatchFields fs ↔ ∀ k v, (k, v) ∈ fs → v.IsPatch := by
  induction fs with
  | nil => simp [IsPatchFields]
  | cons e fs ih =>
      obtain ⟨k, v⟩ := e
      simp only [IsPatchFields, ih, List.mem_cons, Prod.mk.injEq]
      constructor
      · rintro ⟨hv, hfs⟩ k' v' (⟨rfl, rfl⟩ | hmem)
        exacts [hv, hfs k' v' hmem]
      · intro h
        exact ⟨h k v (Or.inl ⟨rfl, rfl⟩), fun k' v' hmem => h k' v' (Or.inr hmem)⟩

theorem IsDoc.sorted {fs : Object} (h : (Value.object fs).IsDoc) : Object.Sorted fs := by
  rw [IsDoc] at h
  exact h.1

theorem IsDoc.get? {fs : Object} (h : (Value.object fs).IsDoc) {k : String} {v : Value}
    (hk : fs.get? k = some v) : v ≠ .null ∧ v.IsDoc := by
  rw [IsDoc] at h
  exact isDocFields_iff.mp h.2 k v (Object.mem_of_get? hk)

theorem IsPatch.sorted {fs : Object} (h : (Value.object fs).IsPatch) : Object.Sorted fs := by
  rw [IsPatch] at h
  exact h.1

theorem IsPatch.get? {fs : Object} (h : (Value.object fs).IsPatch) {k : String} {v : Value}
    (hk : fs.get? k = some v) : v.IsPatch := by
  rw [IsPatch] at h
  exact isPatchFields_iff.mp h.2 k v (Object.mem_of_get? hk)

/-- A patch is sorted at every depth, and so is the object made of its entries. -/
theorem IsPatch.fields {v : Value} (h : v.IsPatch) : (Value.object v.fields).IsPatch := by
  cases v with
  | object fs => exact h
  | _ => simp [Value.fields, IsPatch, IsPatchFields, Object.Sorted]

mutual
/-- Every document is a patch. -/
theorem IsDoc.isPatch : ∀ {v : Value}, v.IsDoc → v.IsPatch
  | .object _, h => by
      rw [IsDoc] at h
      rw [IsPatch]
      exact ⟨h.1, isDocFields_isPatchFields h.2⟩
  | .null, _ | .bool _, _ | .number _, _ | .string _, _ | .array _, _ => by simp [IsPatch]
theorem isDocFields_isPatchFields : ∀ {fs : List (String × Value)}, IsDocFields fs → IsPatchFields fs
  | [], _ => by simp [IsPatchFields]
  | (_, _) :: _, h => by
      rw [IsDocFields] at h
      rw [IsPatchFields]
      exact ⟨IsDoc.isPatch h.2.1, isDocFields_isPatchFields h.2.2⟩
end

end Value

open Value

/-! ## Applying a patch -/

mutual
/-- RFC 7386 `MergePatch(Target, Patch)`: an object patch merges into the entries of the
target (of `{}` when the target is no object); any other patch replaces the target. -/
def Value.mergePatch (target : Value) : Value → Value
  | .object patch => .object (Object.mergePatch target.fields patch)
  | patch => patch
/-- The merge of the entries of an object patch into a target's entries, one key after the
other: `null` deletes the key, another value merges into the key's value. -/
def Object.mergePatch (target : Object) : List (String × Value) → Object
  | [] => target
  | (k, v) :: patch =>
      Object.mergePatch
        (if v = .null then target.erase k else target.set k (((target.get? k).getD .null).mergePatch v))
        patch
end

@[simp] theorem Value.mergePatch_object (target : Value) (patch : Object) :
    target.mergePatch (.object patch) = .object (Object.mergePatch target.fields patch) := by
  rw [Value.mergePatch]

theorem Value.mergePatch_of_isObject_false (target : Value) {v : Value} (h : v.isObject = false) :
    target.mergePatch v = v := by
  cases v <;> simp_all [isObject, Value.mergePatch]

namespace Object

variable {m : Object} {k j : String} {v : Value}

theorem sorted_nil : Sorted [] := List.Pairwise.nil

/-- One key of a merge patch. -/
def mergePatchStep (target : Object) (e : String × Value) : Object :=
  if e.2 = .null then target.erase e.1 else target.set e.1 (((target.get? e.1).getD .null).mergePatch e.2)
attribute [grind] mergePatchStep

theorem mergePatch_eq_foldl (target patch : Object) :
    target.mergePatch patch = patch.foldl mergePatchStep target := by
  induction patch generalizing target with
  | nil => rfl
  | cons e patch ih =>
      obtain ⟨k, v⟩ := e
      rw [Object.mergePatch, ih]
      rfl

/-- A merge patch changes the entry of each of its keys, and only those. -/
theorem get?_mergePatch (target : Object) {patch : Object} (hp : Sorted patch) (j : String) :
    (target.mergePatch patch).get? j =
      match patch.get? j with
      | some v => if v = .null then none else some (((target.get? j).getD .null).mergePatch v)
      | none => target.get? j := by
  rw [mergePatch_eq_foldl]
  refine get?_foldl (fun _ v old => if v = .null then none else some ((old.getD .null).mergePatch v))
    (fun acc k v j => ?_) hp target j
  unfold mergePatchStep
  by_cases hk : k = j
  · subst hk
    by_cases hv : v = .null <;> simp [hv]
  · by_cases hv : v = .null <;> simp [hv, hk, get?_erase_of_ne, get?_set_of_ne]

theorem Sorted.mergePatch (h : Sorted m) (patch : Object) : Sorted (m.mergePatch patch) := by
  rw [mergePatch_eq_foldl]
  refine Sorted.foldl (fun acc e hacc => ?_) patch h
  unfold mergePatchStep
  split_ifs
  exacts [hacc.erase _, hacc.set _ _]

/-- The depth bound the inductions below descend with. -/
theorem depth_lt_of_get? {fs : Object} (h : fs.get? k = some v) :
    v.depth < (Value.object fs).depth :=
  depth_lt_of_mem_fields (mem_of_get? h)

/-- Merging a document into `{}` gives the document. -/
theorem mergePatch_nil {t : Object} (ht : (Value.object t).IsDoc) : Object.mergePatch [] t = t := by
  -- induction on a bound of the depth of `t`
  suffices h : ∀ n (t : Object), (Value.object t).depth ≤ n → (Value.object t).IsDoc →
      Object.mergePatch [] t = t from h _ t le_rfl ht
  intro n
  induction n with
  | zero =>
      intro t hd
      simp [Value.depth] at hd
  | succ n ih =>
      intro t hd ht
      refine ext_get? (sorted_nil.mergePatch t) ht.sorted fun j => ?_
      rw [get?_mergePatch [] ht.sorted]
      cases hj : t.get? j with
      | none => rfl
      | some v =>
          obtain ⟨hv, hvd⟩ := ht.get? hj
          simp only [hv, if_false, get?_nil, Option.getD_none]
          cases ho : v.isObject with
          | false => rw [Value.mergePatch_of_isObject_false _ ho]
          | true =>
              rw [eq_object_of_isObject ho] at hj hvd ⊢
              have hdepth := depth_lt_of_get? hj
              rw [Value.mergePatch_object, fields_null, ih _ (by omega) hvd]

/-- A value read back from a map with `null` for a missing key, when it is not `null`. -/
theorem eq_some_of_getD (o : Option Value) (h : o.getD .null = v) (hv : v ≠ .null) : o = some v := by
  cases o <;> simp_all

/-- `null` for each key of `source` that `target` lacks, added to `acc` when deletions are
kept. -/
def markRemoved (deletions : Bool) (source target acc : Object) : Object :=
  if deletions then
    source.foldl (fun acc e => if (target.get? e.1).isSome then acc else acc.set e.1 .null) acc
  else acc
attribute [grind] markRemoved

theorem get?_markRemoved (deletions : Bool) {source : Object} (hs : Sorted source)
    (target acc : Object) (j : String) :
    (markRemoved deletions source target acc).get? j =
      if deletions && (source.get? j).isSome && (target.get? j).isNone then some .null
      else acc.get? j := by
  unfold markRemoved
  cases deletions with
  | false => simp
  | true =>
      refine (get?_foldl (fun k _ old => if (target.get? k).isSome then old else some .null)
        (fun acc k v i => ?_) hs acc j).trans ?_
      · by_cases hk : k = i
        · subst hk
          by_cases ht : (target.get? k).isSome <;> simp [ht]
        · by_cases ht : (target.get? k).isSome <;> simp [ht, hk, get?_set_of_ne]
      · cases source.get? j <;> cases target.get? j <;> simp

theorem Sorted.markRemoved (deletions : Bool) (source target : Object) (h : Sorted m) :
    Sorted (markRemoved deletions source target m) := by
  unfold Object.markRemoved
  split_ifs
  · refine Sorted.foldl (fun acc e hacc => ?_) source h
    split_ifs
    exacts [hacc, hacc.set _ _]
  · exact h

end Object

mutual
/-- The patch entry for a key whose target value is `target` and whose source value is
`source` (`null` when absent): the patch between two objects, none when it is empty;
otherwise the target value, when changes are kept and it differs from the source. -/
def Value.diffEntry (changes deletions : Bool) (source : Value) : Value → Option Value
  | .object target =>
      match source with
      | .object source =>
          let d := Object.markRemoved deletions source target
            (Object.diffChanged changes deletions source target [])
          if d = [] then none else some (.object d)
      | _ => if changes then some (.object target) else none
  | target => if changes && source ≠ target then some target else none
/-- The entries of the patch for the keys of `target`, added to `acc`. -/
def Object.diffChanged (changes deletions : Bool) (source : Object) :
    List (String × Value) → Object → Object
  | [], acc => acc
  | (k, v) :: target, acc =>
      Object.diffChanged changes deletions source target
        (match Value.diffEntry changes deletions ((source.get? k).getD .null) v with
        | some w => acc.set k w
        | none => acc)
end

namespace Object

variable {m : Object} {k j : String} {v : Value}

/-- The patch from `source` to `target`: the entries for the keys of `target`, and `null`
for the keys only `source` has.  `changes` keeps the additions and the changed values,
`deletions` the `null`s, at every depth. -/
def diff (changes deletions : Bool) (source target : Object) : Object :=
  markRemoved deletions source target (diffChanged changes deletions source target [])
attribute [grind] diff

/-- One key of `diffChanged`. -/
def diffStep (changes deletions : Bool) (source acc : Object) (e : String × Value) : Object :=
  match Value.diffEntry changes deletions ((source.get? e.1).getD .null) e.2 with
  | some w => acc.set e.1 w
  | none => acc
attribute [grind] diffStep

theorem diffChanged_eq_foldl (changes deletions : Bool) (source target acc : Object) :
    diffChanged changes deletions source target acc =
      target.foldl (diffStep changes deletions source) acc := by
  induction target generalizing acc with
  | nil => rfl
  | cons e target ih =>
      obtain ⟨k, v⟩ := e
      rw [diffChanged, ih]
      rfl

theorem get?_diffChanged (changes deletions : Bool) (source : Object) {target : Object}
    (ht : Sorted target) (acc : Object) (j : String) :
    (diffChanged changes deletions source target acc).get? j =
      match target.get? j with
      | some v => (Value.diffEntry changes deletions ((source.get? j).getD .null) v).or (acc.get? j)
      | none => acc.get? j := by
  rw [diffChanged_eq_foldl]
  refine get?_foldl (fun k v old => (Value.diffEntry changes deletions ((source.get? k).getD .null) v).or old)
    (fun acc k v i => ?_) ht acc j
  unfold diffStep
  by_cases hk : k = i
  · subst hk
    cases Value.diffEntry changes deletions ((source.get? k).getD .null) v <;> simp
  · cases Value.diffEntry changes deletions ((source.get? k).getD .null) v <;> simp [hk, get?_set_of_ne]

theorem Sorted.diff (changes deletions : Bool) (source target : Object) :
    Sorted (diff changes deletions source target) := by
  refine Sorted.markRemoved _ _ _ ?_
  rw [diffChanged_eq_foldl]
  refine Sorted.foldl (fun acc e hacc => ?_) target sorted_nil
  unfold diffStep
  split
  exacts [hacc.set _ _, hacc]

/-- The patch entry of each key: the entry of a key of `target`, `null` for a key only
`source` has when deletions are kept. -/
theorem get?_diff (changes deletions : Bool) {source target : Object} (hs : Sorted source)
    (ht : Sorted target) (j : String) :
    (diff changes deletions source target).get? j =
      match target.get? j with
      | some v => Value.diffEntry changes deletions ((source.get? j).getD .null) v
      | none => if deletions && (source.get? j).isSome then some .null else none := by
  rw [diff, get?_markRemoved deletions hs, get?_diffChanged changes deletions source ht]
  cases target.get? j <;> simp

end Object

theorem Value.diffEntry_object_object (changes deletions : Bool) (s t : Object) :
    Value.diffEntry changes deletions (.object s) (.object t) =
      if Object.diff changes deletions s t = [] then none
      else some (.object (Object.diff changes deletions s t)) := by
  rw [Value.diffEntry]
  rfl

theorem Value.diffEntry_object_of_isObject_false (changes deletions : Bool) {s : Value}
    (hs : s.isObject = false) (t : Object) :
    Value.diffEntry changes deletions s (.object t) = if changes then some (.object t) else none := by
  cases s <;> simp_all [isObject, Value.diffEntry]

theorem Value.diffEntry_of_isObject_false (changes deletions : Bool) (s : Value) {t : Value}
    (ht : t.isObject = false) :
    Value.diffEntry changes deletions s t = if changes && s ≠ t then some t else none := by
  cases t <;> simp_all [isObject, Value.diffEntry]

namespace Object

/-- Applying the patch from `source` to a document `target` gives `target`. -/
theorem mergePatch_diff {source target : Object} (hs : (Value.object source).IsPatch)
    (ht : (Value.object target).IsDoc) : source.mergePatch (diff true true source target) = target := by
  -- induction on a bound of the depth of `target`
  suffices h : ∀ n (source target : Object), (Value.object target).depth ≤ n →
      (Value.object source).IsPatch → (Value.object target).IsDoc →
      source.mergePatch (diff true true source target) = target from h _ source target le_rfl hs ht
  intro n
  induction n with
  | zero =>
      intro source target hd
      simp [Value.depth] at hd
  | succ n ih =>
      intro source target hd hs ht
      refine ext_get? (hs.sorted.mergePatch _) ht.sorted fun j => ?_
      rw [get?_mergePatch _ (Sorted.diff _ _ _ _), get?_diff true true hs.sorted ht.sorted]
      cases htj : target.get? j with
      | none =>
          -- a key only `source` has is deleted
          cases source.get? j <;> simp
      | some v =>
          obtain ⟨hv, hvd⟩ := ht.get? htj
          dsimp only
          cases ho : v.isObject with
          | false =>
              -- a scalar is written when it changed
              rw [Value.diffEntry_of_isObject_false _ _ _ ho]
              by_cases heq : (source.get? j).getD .null = v
              · simp [eq_some_of_getD _ heq hv]
              · simp [heq, hv, Value.mergePatch_of_isObject_false _ ho]
          | true =>
              rw [eq_object_of_isObject ho] at htj hvd ⊢
              have hdepth := depth_lt_of_get? htj
              cases hsj : source.get? j with
              | none =>
                  -- an object `source` lacks is added whole
                  rw [Option.getD_none, Value.diffEntry_object_of_isObject_false _ _ isObject_null]
                  simp [mergePatch_nil hvd]
              | some s =>
                  rw [Option.getD_some]
                  cases hso : s.isObject with
                  | false =>
                      -- an object replaces a scalar whole
                      rw [Value.diffEntry_object_of_isObject_false _ _ hso]
                      simp [fields_of_isObject_false hso, mergePatch_nil hvd]
                  | true =>
                      -- two objects: the patch between them, by induction
                      have hsp := (hs.get? hsj).fields
                      have hrec := ih s.fields v.fields (by omega) hsp hvd
                      rw [eq_object_of_isObject hso, Value.diffEntry_object_object]
                      by_cases hd : diff true true s.fields v.fields = []
                      · rw [hd, Object.mergePatch] at hrec
                        rw [hd]
                        simp [hrec]
                      · simp [hd, hrec]

end Object

end Go
end Kubernetes
