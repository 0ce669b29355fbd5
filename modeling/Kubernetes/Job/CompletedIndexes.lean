import Mathlib.Data.Finset.Sort
import Kubernetes.Job.Intervals
import Kubernetes.Go.Strings
import Kubernetes.Go.Sort

/-!
# Indexed Jobs: completed indexes across syncs

Between two syncs the Job controller keeps the completed indexes in
`Job.Status.CompletedIndexes` as text.  `String` writes each interval as `a`, `a,b` (two
indexes) or `a-b`, separated by commas; `succeededIndexesFromJob` reads them back, joining
`a` and `b` again by its rule that an interval starting right after the last one extends it.
`calculateSucceededIndexes` reads the previous intervals so and adds the indexes of the Pods
that succeeded since (`pkg/controller/job/indexed_job_utils.go`).

For canonical intervals of indexes from `0` up to below `Spec.Completions`, the text reads
back as the intervals (`succeededIndexesFromJob_string`), so a sync keeps every completed
index and adds exactly the new ones (`calculateSucceededIndexes_indexes`).  A negative index
prints with a `-`, which the reader takes for the separator of a range.
-/

set_option linter.dupNamespace false

namespace Kubernetes
namespace Job

open Go OrderedIntervals

/-- `batch.JobCompletionIndexAnnotation`. -/
def jobCompletionIndexAnnotation : String := "batch.kubernetes.io/job-completion-index"
attribute [grind] jobCompletionIndexAnnotation

/-- `batch.JobTrackingFinalizer`. -/
def jobTrackingFinalizer : String := "batch.kubernetes.io/job-tracking"
attribute [grind] jobTrackingFinalizer

/-- `unknownCompletionIndex`. -/
def unknownCompletionIndex : Int := -1
attribute [grind] unknownCompletionIndex

/-- The fields of a `batch.Job` that the functions below read. -/
structure Job where
  annotations : List (String × String)
  completions : Int32
  completedIndexes : String

/-- `v1.PodPhase`. -/
inductive PodPhase
  | pending
  | running
  | succeeded
  | failed
  | unknown
  deriving DecidableEq, Repr

/-- The fields of a `v1.Pod` that the functions below read. -/
structure Pod where
  annotations : List (String × String)
  finalizers : List String
  phase : PodPhase

/-! ## Writing the intervals -/

namespace OrderedIntervals

/-- One iteration of the loop of `String`: a comma unless the builder is empty, `First`, and
`,Last` when the interval holds two indexes or `-Last` when it holds more. -/
def writeInterval (builder : String) (v : Interval) : String :=
  let builder := if builder.utf8ByteSize > 0 then builder.push ',' else builder
  let builder := builder ++ formatInt v.first
  if v.last > v.first then
    let builder := if v.last = v.first + 1 then builder.push ',' else builder.push '-'
    builder ++ formatInt v.last
  else builder
attribute [grind] writeInterval

/-- `orderedIntervals.String`. -/
def string (oi : OrderedIntervals) : String :=
  oi.foldl writeInterval ""
attribute [grind] string

end OrderedIntervals

/-! ## Reading them back -/

/-- What one comma-separated text gives to `succeededIndexesFromJob`. -/
inductive ParsedInterval
  /-- A limit is no number: the text is skipped. -/
  | corrupted
  /-- The interval starts at or past `completions`: the loop stops. -/
  | pastCompletions
  /-- An interval, its end clamped below `completions`. -/
  | interval (inter : Interval)
  deriving DecidableEq, Repr

/-- The body of the loop of `succeededIndexesFromJob` up to the merge: the limits of one text
`First` or `First-Last`. -/
def parseInterval (completions : Int) (intervalStr : String) : ParsedInterval :=
  let limitsStr := stringsSplit intervalStr '-'
  match parseInt (limitsStr.getD 0 "") with
  | none => .corrupted
  | some first =>
      if first ≥ completions then .pastCompletions
      else if limitsStr.length > 1 then
        match parseInt (limitsStr.getD 1 "") with
        | none => .corrupted
        | some last => .interval ⟨first, if last ≥ completions then completions - 1 else last⟩
      else .interval ⟨first, first⟩
attribute [grind] parseInterval

/-- The end of an iteration of `succeededIndexesFromJob`, on the result held last interval
first: `inter` extends the last interval when it starts right after it, and is appended
otherwise. -/
def mergeOrAppend (result : List Interval) (inter : Interval) : List Interval :=
  match result with
  | lastInterval :: more =>
      if lastInterval.last = inter.first - 1 then { lastInterval with last := inter.last } :: more
      else inter :: lastInterval :: more
  | [] => [inter]
attribute [grind] mergeOrAppend

/-- `succeededIndexesFromJob`: the intervals of `Status.CompletedIndexes` below
`Spec.Completions`. -/
def succeededIndexesFromJob (job : Job) : OrderedIntervals :=
  if job.completedIndexes = "" then []
  else (loop job.completions.toInt (stringsSplit job.completedIndexes ',') []).reverse
where
  /-- The loop over the comma-separated texts, with the result held last interval first. -/
  loop (completions : Int) : List String → List Interval → List Interval
    | [], result => result
    | intervalStr :: rest, result =>
        match parseInterval completions intervalStr with
        | .corrupted => loop completions rest result
        | .pastCompletions => result
        | .interval inter => loop completions rest (mergeOrAppend result inter)
attribute [grind] succeededIndexesFromJob succeededIndexesFromJob.loop

/-! ## `calculateSucceededIndexes` -/

/-- `getCompletionIndex`: the index a Pod's annotation gives, or `unknownCompletionIndex`
when it is missing, no number or negative. -/
def getCompletionIndex (annotations : List (String × String)) : Int :=
  match annotations.lookup jobCompletionIndexAnnotation with
  | none => unknownCompletionIndex
  | some v =>
      match parseInt v with
      | none => unknownCompletionIndex
      | some i => if i < 0 then unknownCompletionIndex else i
attribute [grind] getCompletionIndex

/-- `hasJobTrackingAnnotation`. -/
def hasJobTrackingAnnotation (job : Job) : Bool :=
  (job.annotations.lookup jobTrackingFinalizer).isSome
attribute [grind] hasJobTrackingAnnotation

/-- `hasJobTrackingFinalizer`. -/
def hasJobTrackingFinalizer (pod : Pod) : Bool :=
  pod.finalizers.contains jobTrackingFinalizer
attribute [grind] hasJobTrackingFinalizer

/-- Whether `calculateSucceededIndexes` counts a Pod: succeeded, with a valid index below
`completions`, and still holding its finalizer when the Job is tracked with finalizers. -/
def countsAsSucceeded (job : Job) (withFinalizers : Bool) (p : Pod) : Bool :=
  let ix := getCompletionIndex p.annotations
  p.phase = .succeeded && ix ≠ unknownCompletionIndex && ix < job.completions.toInt &&
    (!withFinalizers || hasJobTrackingFinalizer p)
attribute [grind] countsAsSucceeded

/-- `calculateSucceededIndexes`: the intervals of the previous sync (none when the Job is not
tracked with finalizers), and those with the indexes of the Pods counted now added.  The Go
set `newSucceeded` is a `Finset`. -/
def calculateSucceededIndexes (job : Job) (pods : List Pod) :
    OrderedIntervals × OrderedIntervals :=
  let withFinalizers := hasJobTrackingAnnotation job
  let prevIntervals := if withFinalizers then succeededIndexesFromJob job else []
  let newSucceeded : Finset Int := pods.foldl (fun newSucceeded p =>
    if countsAsSucceeded job withFinalizers p then
      insert (getCompletionIndex p.annotations) newSucceeded
    else newSucceeded) ∅
  (prevIntervals, withOrderedIndexes prevIntervals (setsIntList newSucceeded))
attribute [grind] calculateSucceededIndexes

/-! ## The round trip -/

/-- The texts `String` writes for one interval, as `strings.Split` cuts them at commas. -/
def Interval.texts (v : Interval) : List String :=
  if v.last > v.first then
    if v.last = v.first + 1 then [formatInt v.first, formatInt v.last]
    else [formatInt v.first ++ "-" ++ formatInt v.last]
  else [formatInt v.first]
attribute [grind] Interval.texts

/-- The texts of all the intervals. -/
def OrderedIntervals.texts (oi : OrderedIntervals) : List String :=
  oi.flatMap Interval.texts
attribute [grind] OrderedIntervals.texts

@[simp] theorem OrderedIntervals.texts_nil : OrderedIntervals.texts [] = [] := rfl

@[simp] theorem OrderedIntervals.texts_cons (v : Interval) (oi : OrderedIntervals) :
    OrderedIntervals.texts (v :: oi) = v.texts ++ oi.texts := rfl

/-- Texts joined by commas: the first, then each of the others after a comma. -/
def joinedTexts : List String → List Char
  | [] => []
  | t :: ts => t.toList ++ ts.flatMap fun q => ',' :: q.toList
attribute [grind] joinedTexts

theorem flatMap_comma (ps : List String) (hps : ps ≠ []) :
    (ps.flatMap fun q => ',' :: q.toList) = ',' :: joinedTexts ps := by
  cases ps with
  | nil => exact absurd rfl hps
  | cons t ts => simp [joinedTexts]

theorem joinedTexts_append {ps : List String} (hps : ps ≠ []) (qs : List String) :
    joinedTexts (ps ++ qs) = joinedTexts ps ++ qs.flatMap fun q => ',' :: q.toList := by
  cases ps with
  | nil => exact absurd rfl hps
  | cons t ts => simp [joinedTexts]

theorem Interval.texts_ne_nil (v : Interval) : v.texts ≠ [] := by
  unfold Interval.texts
  split_ifs <;> simp

/-- The text `writeInterval` adds for `v` is its texts joined by commas. -/
theorem writeInterval_toList (b : String) (v : Interval) :
    (writeInterval b v).toList =
      (if b = "" then b.toList else b.toList ++ [',']) ++ joinedTexts v.texts := by
  have hsize : (b.utf8ByteSize > 0) = ¬b = "" := by
    rw [← String.utf8ByteSize_eq_zero_iff]
    exact propext Nat.pos_iff_ne_zero
  unfold writeInterval Interval.texts
  simp only [hsize, gt_iff_lt, ite_not]
  split_ifs <;> simp [joinedTexts, String.toList_push]

theorem writeInterval_ne_empty (b : String) (v : Interval) : writeInterval b v ≠ "" := by
  intro h
  have hlist := congrArg String.toList h
  rw [writeInterval_toList] at hlist
  have hfirst := toList_formatInt_ne_nil v.first
  unfold Interval.texts at hlist
  split_ifs at hlist <;> simp_all [joinedTexts]

/-- What `string` writes after a builder that is not empty: each text after a comma. -/
theorem foldl_writeInterval_toList {b : String} (hb : b ≠ "") (oi : OrderedIntervals) :
    (oi.foldl writeInterval b).toList = b.toList ++ oi.texts.flatMap fun q => ',' :: q.toList := by
  induction oi generalizing b with
  | nil => simp
  | cons v oi ih =>
      rw [List.foldl_cons, ih (writeInterval_ne_empty b v), writeInterval_toList, if_neg hb,
        OrderedIntervals.texts_cons, List.flatMap_append, flatMap_comma _ v.texts_ne_nil]
      simp

/-- `String` joins the texts of the intervals by commas. -/
theorem string_toList (oi : OrderedIntervals) : (string oi).toList = joinedTexts oi.texts := by
  cases oi with
  | nil => rfl
  | cons v oi =>
      rw [string, List.foldl_cons, foldl_writeInterval_toList (writeInterval_ne_empty "" v),
        writeInterval_toList, if_pos rfl, OrderedIntervals.texts_cons,
        joinedTexts_append v.texts_ne_nil]
      rfl

/-- The intervals between `0` and `completions`, which is an `int32`. -/
def InRange (oi : OrderedIntervals) (completions : Int) : Prop :=
  ∀ v ∈ oi, 0 ≤ v.first ∧ v.last < completions
attribute [grind] InRange

instance (oi : OrderedIntervals) (completions : Int) : Decidable (InRange oi completions) :=
  inferInstanceAs (Decidable (∀ v ∈ oi, _))

theorem InRange.cons {v : Interval} {oi : OrderedIntervals} {c : Int} (h : InRange (v :: oi) c) :
    InRange oi c :=
  fun w hw => h w (List.mem_cons_of_mem v hw)

/-- The texts of intervals between `0` and below `MaxInt64` hold no comma. -/
theorem comma_not_mem_texts {oi : OrderedIntervals} (hpos : ∀ v ∈ oi, 0 ≤ v.first)
    (hle : ∀ v ∈ oi, v.first ≤ v.last) : ∀ q ∈ oi.texts, ',' ∉ q.toList := by
  intro q hq
  obtain ⟨v, hv, hqv⟩ := List.mem_flatMap.mp hq
  have hf := hpos v hv
  have hl : 0 ≤ v.last := hf.trans (hle v hv)
  unfold Interval.texts at hqv
  have hdigit : Char.isDigit ',' = false := by decide
  have hfirst := not_mem_formatInt hf hdigit
  have hlast := not_mem_formatInt hl hdigit
  split_ifs at hqv <;> simp only [List.mem_cons, List.not_mem_nil, or_false] at hqv <;>
    rcases hqv with rfl | rfl <;> simp [String.toList_append, hfirst, hlast]

/-- `strings.Split` at commas of what `String` writes gives the texts back. -/
theorem stringsSplit_string {oi : OrderedIntervals} (hne : oi ≠ [])
    (hpos : ∀ v ∈ oi, 0 ≤ v.first) (hle : ∀ v ∈ oi, v.first ≤ v.last) :
    stringsSplit (string oi) ',' = oi.texts := by
  have htexts : oi.texts ≠ [] := by
    obtain ⟨v, oi, rfl⟩ := List.exists_cons_of_ne_nil hne
    simp [v.texts_ne_nil]
  obtain ⟨t, ts, hts⟩ := List.exists_cons_of_ne_nil htexts
  have hcomma := comma_not_mem_texts hpos hle
  rw [hts] at hcomma ⊢
  refine stringsSplit_of_toList (hcomma t (by simp)) (fun q hq => hcomma q (by simp [hq])) ?_
  rw [string_toList, hts]
  rfl

/-- A single index below `completions` reads back as itself. -/
theorem parseInterval_single {c x : Int} (hx : 0 ≤ x) (hxc : x < c) (hc : c ≤ maxInt64) :
    parseInterval c (formatInt x) = .interval ⟨x, x⟩ := by
  have hsplit : stringsSplit (formatInt x) '-' = [formatInt x] :=
    stringsSplit_of_toList (not_mem_formatInt hx (by decide)) (by simp) (by simp)
  unfold parseInterval
  simp [hsplit, parseInt_formatInt hx (by omega), not_le.mpr hxc]

/-- A range `First-Last` below `completions` reads back as itself. -/
theorem parseInterval_range {c f l : Int} (hf : 0 ≤ f) (hfl : f ≤ l) (hlc : l < c)
    (hc : c ≤ maxInt64) :
    parseInterval c (formatInt f ++ "-" ++ formatInt l) = .interval ⟨f, l⟩ := by
  have hl : 0 ≤ l := hf.trans hfl
  have hsplit : stringsSplit (formatInt f ++ "-" ++ formatInt l) '-' = [formatInt f, formatInt l] :=
    stringsSplit_of_toList (not_mem_formatInt hf (by decide))
      (by simpa using not_mem_formatInt hl (by decide)) (by simp [String.toList_append])
  unfold parseInterval
  simp [hsplit, parseInt_formatInt hf (by omega), parseInt_formatInt hl (by omega),
    not_le.mpr (lt_of_le_of_lt hfl hlc), not_le.mpr hlc]

/-- An interval that starts past the one after the last interval is appended. -/
theorem mergeOrAppend_of_gap {result : List Interval} (inter : Interval)
    (hgap : ∀ last ∈ result.head?, last.last + 1 < inter.first) :
    mergeOrAppend result inter = inter :: result := by
  cases result with
  | nil => rfl
  | cons last more =>
      have := hgap last rfl
      simp only [mergeOrAppend, if_neg (show last.last ≠ inter.first - 1 by omega)]

/-- The texts of one interval, read after a result whose last interval ends at least two
below it, give that result with the interval added. -/
theorem loop_texts_interval (c : Int) (hc : c ≤ maxInt64) {v : Interval} (hv : 0 ≤ v.first)
    (hvl : v.first ≤ v.last) (hvc : v.last < c) (rest : List String) {result : List Interval}
    (hgap : ∀ last ∈ result.head?, last.last + 1 < v.first) :
    succeededIndexesFromJob.loop c (v.texts ++ rest) result =
      succeededIndexesFromJob.loop c rest (v :: result) := by
  unfold Interval.texts
  split_ifs with hlonger htwo
  · -- `First,Last`: two single indexes, the second extending the first
    have hsecond : mergeOrAppend (⟨v.first, v.first⟩ :: result) ⟨v.last, v.last⟩ = v :: result := by
      simp only [mergeOrAppend, htwo, add_sub_cancel_right, if_true]
      rw [← htwo]
    rw [List.cons_append, succeededIndexesFromJob.loop, parseInterval_single hv (by omega) hc]
    dsimp only
    rw [mergeOrAppend_of_gap ⟨v.first, v.first⟩ hgap, List.cons_append, List.nil_append,
      succeededIndexesFromJob.loop, parseInterval_single (by omega : 0 ≤ v.last) hvc hc]
    exact congrArg _ hsecond
  · -- `First-Last`
    rw [List.cons_append, List.nil_append, succeededIndexesFromJob.loop,
      parseInterval_range hv hvl hvc hc]
    exact congrArg _ (mergeOrAppend_of_gap v hgap)
  · -- a single index
    have hone : v = ⟨v.first, v.first⟩ := by
      cases v with
      | mk f l =>
          simp only at hvl hlonger ⊢
          rw [show l = f by omega]
    rw [List.cons_append, List.nil_append, succeededIndexesFromJob.loop,
      parseInterval_single hv (by omega) hc]
    dsimp only
    rw [mergeOrAppend_of_gap ⟨v.first, v.first⟩ hgap, ← hone]

/-- Reading the texts of canonical intervals in range after a result that ends at least two
below them adds the intervals to the result. -/
theorem loop_texts (c : Int) (hc : c ≤ maxInt64) {oi : OrderedIntervals} (hoi : Canonical oi)
    (hrange : InRange oi c) (rest : List String) {result : List Interval}
    (hgap : ∀ last ∈ result.head?, ∀ v ∈ oi.head?, last.last + 1 < v.first) :
    succeededIndexesFromJob.loop c (oi.texts ++ rest) result =
      succeededIndexesFromJob.loop c rest (oi.reverse ++ result) := by
  induction oi generalizing result with
  | nil => simp
  | cons v oi ih =>
      obtain ⟨hvl, hafter, hoi'⟩ := canonical_cons.mp hoi
      obtain ⟨hv, hvc⟩ := hrange v List.mem_cons_self
      rw [OrderedIntervals.texts_cons, List.append_assoc,
        loop_texts_interval c hc hv hvl hvc _ (fun last hl => hgap last hl v rfl),
        ih hoi' hrange.cons (fun last hl w hw => ?_)]
      · simp
      · -- the next interval starts past the one after `v`
        simp only [List.head?_cons, Option.mem_def, Option.some.injEq] at hl
        subst hl
        exact hafter w (List.mem_of_mem_head? hw)

/-- `succeededIndexesFromJob` reads back what `String` writes, for canonical intervals of
indexes from `0` up to below `Spec.Completions`. -/
theorem succeededIndexesFromJob_string {job : Job} {oi : OrderedIntervals} (hoi : Canonical oi)
    (hrange : InRange oi job.completions.toInt) (htext : job.completedIndexes = string oi) :
    succeededIndexesFromJob job = oi := by
  have hc : job.completions.toInt ≤ maxInt64 := by
    have := Int32.toInt_lt job.completions
    unfold maxInt64
    omega
  unfold succeededIndexesFromJob
  cases oi with
  | nil => simp [htext, string]
  | cons v oi =>
      have hne : string (v :: oi) ≠ "" := by
        intro h
        have hlist := congrArg String.toList h
        rw [string, List.foldl_cons, foldl_writeInterval_toList (writeInterval_ne_empty "" v)]
          at hlist
        simp [String.toList_eq_nil_iff, writeInterval_ne_empty] at hlist
      rw [if_neg (htext ▸ hne), htext,
        stringsSplit_string (List.cons_ne_nil v oi) (fun w hw => (hrange w hw).1)
          (fun w hw => hoi.1 w hw)]
      rw [← List.append_nil (OrderedIntervals.texts _), loop_texts _ hc hoi hrange [] (by simp)]
      simp [succeededIndexesFromJob.loop]

/-! ## Reading any text

`succeededIndexesFromJob` does not check the text it reads.  Whatever the text, every interval
it returns starts between `0` and `Spec.Completions` and ends below it; the intervals are
canonical when those the text writes come in increasing order, as in what `String` writes,
and need not be otherwise. -/

/-- The intervals a text writes, in the order `succeededIndexesFromJob` reads them: the texts
that are no number skipped, and everything from the first interval that starts at or past
`completions` on dropped. -/
def parsedIntervals (completions : Int) : List String → List Interval
  | [] => []
  | intervalStr :: rest =>
      match parseInterval completions intervalStr with
      | .corrupted => parsedIntervals completions rest
      | .pastCompletions => []
      | .interval inter => inter :: parsedIntervals completions rest
attribute [grind] parsedIntervals

/-- Intervals in increasing order: each holds an index and ends before the next one starts,
possibly right before it. -/
def Ascending (l : List Interval) : Prop :=
  (∀ iv ∈ l, iv.first ≤ iv.last) ∧ l.Pairwise fun a b => a.last < b.first
attribute [grind] Ascending

instance : DecidablePred Ascending := fun _ => inferInstanceAs (Decidable (_ ∧ _))

/-- An interval that starts between `0` and `completions` and ends below it. -/
def Bounded (completions : Int) (iv : Interval) : Prop :=
  0 ≤ iv.first ∧ iv.first < completions ∧ iv.last < completions
attribute [grind] Bounded

/-- The loop merges the intervals the text writes, one after the other. -/
theorem loop_eq_foldl (c : Int) (texts : List String) (result : List Interval) :
    succeededIndexesFromJob.loop c texts result =
      (parsedIntervals c texts).foldl mergeOrAppend result := by
  induction texts generalizing result with
  | nil => rfl
  | cons intervalStr rest ih =>
      cases h : parseInterval c intervalStr <;>
        simp [succeededIndexesFromJob.loop, parsedIntervals, h, ih]

/-- A limit is read from a text cut at every `-`, so it has no minus sign and is not
negative. -/
theorem parseInt_limit_nonneg {s : String} {i : Nat} {v : Int}
    (h : parseInt ((stringsSplit s '-').getD i "") = some v) : 0 ≤ v := by
  refine parseInt_nonneg ?_ h
  rw [List.getD_eq_getElem?_getD]
  cases hi : (stringsSplit s '-')[i]? with
  | none => simp
  | some q => exact sep_not_mem_stringsSplit (List.mem_of_getElem? hi)

/-- An interval a text writes starts between `0` and `completions` and ends below it. -/
theorem parseInterval_bounded {c : Int} {s : String} {inter : Interval}
    (h : parseInterval c s = .interval inter) : Bounded c inter := by
  simp only [parseInterval] at h
  split at h
  · cases h
  · next first hfirst =>
    have hpos := parseInt_limit_nonneg hfirst
    split_ifs at h with hpast hrange
    · split at h
      · cases h
      · next last hlast =>
        cases h
        refine ⟨hpos, by dsimp only; omega, ?_⟩
        dsimp only
        split_ifs <;> omega
    · cases h
      exact ⟨hpos, by dsimp only; omega, by dsimp only; omega⟩

theorem parsedIntervals_bounded (c : Int) :
    ∀ texts : List String, ∀ iv ∈ parsedIntervals c texts, Bounded c iv
  | [] => by simp [parsedIntervals]
  | intervalStr :: rest => by
      intro iv hiv
      cases h : parseInterval c intervalStr with
      | corrupted =>
          simp only [parsedIntervals, h] at hiv
          exact parsedIntervals_bounded c rest iv hiv
      | pastCompletions => simp [parsedIntervals, h] at hiv
      | interval inter =>
          simp only [parsedIntervals, h, List.mem_cons] at hiv
          rcases hiv with rfl | hiv
          · exact parseInterval_bounded h
          · exact parsedIntervals_bounded c rest iv hiv

/-- A merge keeps the intervals bounded: it adds `inter` or stretches the last interval to
its end. -/
theorem mergeOrAppend_bounded {c : Int} {result : List Interval} {inter : Interval}
    (hres : ∀ iv ∈ result, Bounded c iv) (hinter : Bounded c inter) :
    ∀ iv ∈ mergeOrAppend result inter, Bounded c iv := by
  intro iv hiv
  cases result with
  | nil =>
      obtain rfl := List.mem_singleton.mp hiv
      exact hinter
  | cons last more =>
      simp only [mergeOrAppend] at hiv
      split_ifs at hiv
      · rcases List.mem_cons.mp hiv with rfl | hiv
        · exact ⟨(hres last (by simp)).1, (hres last (by simp)).2.1, hinter.2.2⟩
        · exact hres iv (List.mem_cons_of_mem _ hiv)
      · rcases List.mem_cons.mp hiv with rfl | hiv
        · exact hinter
        · exact hres iv hiv

theorem foldl_mergeOrAppend_bounded {c : Int} {l result : List Interval}
    (hl : ∀ iv ∈ l, Bounded c iv) (hres : ∀ iv ∈ result, Bounded c iv) :
    ∀ iv ∈ l.foldl mergeOrAppend result, Bounded c iv := by
  induction l generalizing result with
  | nil => exact hres
  | cons inter l ih =>
      rw [List.foldl_cons]
      exact ih (fun iv hiv => hl iv (List.mem_cons_of_mem _ hiv))
        (mergeOrAppend_bounded hres (hl inter List.mem_cons_self))

/-- One merge of an interval that holds an index and starts after the end of the last
interval: the result stays canonical, ends where the interval does, and gains its
indexes. -/
theorem mergeOrAppend_spec {result : List Interval} {inter : Interval}
    (hc : Canonical result.reverse) (hinter : inter.first ≤ inter.last)
    (hgap : ∀ last ∈ result.head?, last.last < inter.first) :
    Canonical (mergeOrAppend result inter).reverse ∧
      (mergeOrAppend result inter).head?.map Interval.last = some inter.last ∧
      indexes (mergeOrAppend result inter) = indexes result ∪ inter.indexes := by
  cases result with
  | nil =>
      exact ⟨canonical_reverse_cons.mpr ⟨hinter, by simp, Canonical.nil⟩, rfl,
        by simp [mergeOrAppend]⟩
  | cons last more =>
      obtain ⟨hlast, hmore, hcmore⟩ := canonical_reverse_cons.mp hc
      have hlt := hgap last rfl
      simp only [mergeOrAppend]
      split_ifs with hadj
      · -- `inter` starts right after the last interval, which it stretches
        refine ⟨canonical_reverse_cons.mpr ⟨by dsimp only; omega, hmore, hcmore⟩, rfl, ?_⟩
        have hstretch : (Interval.mk last.first inter.last).indexes =
            last.indexes ∪ inter.indexes := by
          ext ix
          simp only [Finset.mem_union, Interval.mem_indexes]
          omega
        rw [indexes_cons, indexes_cons, hstretch, Finset.union_right_comm]
      · -- a gap: `inter` is a new last interval
        refine ⟨canonical_reverse_cons.mpr ⟨hinter, fun a ha => ?_, hc⟩, rfl,
          by simp [Finset.union_comm]⟩
        rcases List.mem_cons.mp ha with rfl | ha
        · omega
        · have := hmore a ha
          omega

/-- Merging intervals in increasing order after a result that ends before them: the result
stays canonical and gains their indexes. -/
theorem foldl_mergeOrAppend {l : List Interval} (hl : Ascending l) {result : List Interval}
    (hc : Canonical result.reverse)
    (hgap : ∀ last ∈ result.head?, ∀ iv ∈ l, last.last < iv.first) :
    Canonical (l.foldl mergeOrAppend result).reverse ∧
      indexes (l.foldl mergeOrAppend result) = indexes result ∪ indexes l := by
  induction l generalizing result with
  | nil => exact ⟨hc, by simp⟩
  | cons inter l ih =>
      obtain ⟨hne, hpair⟩ := hl
      obtain ⟨hc', hend, hindexes⟩ :=
        mergeOrAppend_spec hc (hne inter List.mem_cons_self) (fun last h => hgap last h inter
          List.mem_cons_self)
      have hl' : Ascending l := ⟨fun iv hiv => hne iv (List.mem_cons_of_mem _ hiv), hpair.of_cons⟩
      have hgap' : ∀ last ∈ (mergeOrAppend result inter).head?, ∀ iv ∈ l,
          last.last < iv.first := by
        intro last hlast iv hiv
        -- the merged result ends where `inter` does, before the later intervals start
        have hlast' : last.last = inter.last := by
          rw [Option.mem_def] at hlast
          simpa [hlast] using hend
        rw [hlast']
        exact List.rel_of_pairwise_cons hpair hiv
      obtain ⟨hc'', heq⟩ := ih hl' hc' hgap'
      refine ⟨hc'', ?_⟩
      rw [List.foldl_cons, heq, hindexes, indexes_cons, Finset.union_assoc]

/-- Whatever the text, every interval `succeededIndexesFromJob` reads starts between `0` and
`Spec.Completions` and ends below it; when the intervals the text writes come in increasing
order, the intervals read are canonical and hold exactly their indexes. -/
theorem succeededIndexesFromJob_canonical (job : Job) :
    (∀ iv ∈ succeededIndexesFromJob job, Bounded job.completions.toInt iv) ∧
      (Ascending (parsedIntervals job.completions.toInt
          (stringsSplit job.completedIndexes ',')) →
        Canonical (succeededIndexesFromJob job) ∧
          indexes (succeededIndexesFromJob job) = indexes (parsedIntervals
            job.completions.toInt (stringsSplit job.completedIndexes ','))) := by
  unfold succeededIndexesFromJob
  split_ifs with hempty
  · -- the empty text writes no interval
    have hnone : parsedIntervals job.completions.toInt (stringsSplit job.completedIndexes ',') =
        [] := by
      rw [hempty]
      rfl
    exact ⟨by simp, fun _ => ⟨Canonical.nil, by rw [hnone]⟩⟩
  · rw [loop_eq_foldl]
    refine ⟨fun iv hiv => foldl_mergeOrAppend_bounded (parsedIntervals_bounded _ _) (by simp) iv
      (List.mem_reverse.mp hiv), fun hasc => ?_⟩
    obtain ⟨hc, heq⟩ := @foldl_mergeOrAppend _ hasc [] Canonical.nil (by simp)
    exact ⟨hc, by rw [indexes_reverse, heq, indexes_nil, Finset.empty_union]⟩

theorem succeededIndexesFromJob_canonical_merged :
    Ascending (parsedIntervals 10 (stringsSplit "0-2,4,5,7" ',')) ∧
      Canonical (succeededIndexesFromJob ⟨[], 10, "0-2,4,5,7"⟩) ∧
      succeededIndexesFromJob ⟨[], 10, "0-2,4,5,7"⟩ = [⟨0, 2⟩, ⟨4, 5⟩, ⟨7, 7⟩] :=
  have hasc : Ascending (parsedIntervals 10 (stringsSplit "0-2,4,5,7" ',')) := by decide
  ⟨hasc, ((succeededIndexesFromJob_canonical ⟨[], 10, "0-2,4,5,7"⟩).2 hasc).1, by decide⟩

/-- Texts not in increasing order read as intervals that are not canonical: `5,3` as two
intervals out of order, where `has` misses `3`; `3-1` as an interval that ends before it
starts, of `total` `-1`; and `1-3,2-5` as two overlapping intervals, whose `total` counts
`2` and `3` twice. -/
theorem succeededIndexesFromJob_not_canonical :
    succeededIndexesFromJob ⟨[], 10, "5,3"⟩ = [⟨5, 5⟩, ⟨3, 3⟩] ∧
      ¬Canonical [⟨5, 5⟩, ⟨3, 3⟩] ∧ 3 ∈ indexes [⟨5, 5⟩, ⟨3, 3⟩] ∧
      has [⟨5, 5⟩, ⟨3, 3⟩] 3 = false ∧
      succeededIndexesFromJob ⟨[], 10, "3-1"⟩ = [⟨3, 1⟩] ∧
      ¬Canonical [⟨3, 1⟩] ∧ total [⟨3, 1⟩] = -1 ∧
      succeededIndexesFromJob ⟨[], 10, "1-3,2-5"⟩ = [⟨1, 3⟩, ⟨2, 5⟩] ∧
      ¬Canonical [⟨1, 3⟩, ⟨2, 5⟩] ∧ total [⟨1, 3⟩, ⟨2, 5⟩] = 7 := by
  refine ⟨by decide, by decide, by simp, by simp [has, has.loop], by decide, by decide,
    by decide, by decide, by decide, by decide⟩

/-! ## Across a sync -/

theorem getCompletionIndex_nonneg {annotations : List (String × String)}
    (h : getCompletionIndex annotations ≠ unknownCompletionIndex) :
    0 ≤ getCompletionIndex annotations := by
  unfold getCompletionIndex at h ⊢
  split
  · simp_all
  · split
    · simp_all
    · split_ifs with hneg
      · simp_all
      · omega

/-- A completion index is an `int64`: `strconv.Atoi` reads no more. -/
theorem getCompletionIndex_le (annotations : List (String × String)) :
    getCompletionIndex annotations ≤ maxInt64 := by
  unfold getCompletionIndex
  split
  · decide
  · split
    · decide
    · rename_i hparse
      split_ifs
      · decide
      · exact (parseInt_mem hparse).2

/-- The set `newSucceeded` collects the indexes of the Pods counted. -/
theorem foldl_newSucceeded (job : Job) (withFinalizers : Bool) (pods : List Pod)
    (s : Finset Int) :
    pods.foldl (fun newSucceeded p =>
      if countsAsSucceeded job withFinalizers p then
        insert (getCompletionIndex p.annotations) newSucceeded
      else newSucceeded) s =
      s ∪ ((pods.filter (countsAsSucceeded job withFinalizers)).map
        fun p => getCompletionIndex p.annotations).toFinset := by
  induction pods generalizing s with
  | nil => simp
  | cons p pods ih =>
      rw [List.foldl_cons, ih]
      by_cases hp : countsAsSucceeded job withFinalizers p
      · ext ix
        simp [hp]
      · simp [hp]

/-- A counted Pod's index is an index of the Job. -/
theorem countsAsSucceeded_range {job : Job} {withFinalizers : Bool} {p : Pod}
    (h : countsAsSucceeded job withFinalizers p = true) :
    0 ≤ getCompletionIndex p.annotations ∧ getCompletionIndex p.annotations < job.completions.toInt := by
  simp only [countsAsSucceeded, Bool.and_eq_true, decide_eq_true_eq] at h
  exact ⟨getCompletionIndex_nonneg h.1.1.2, h.1.2⟩

/-- A sync of a Job tracked with finalizers whose `CompletedIndexes` is the text of canonical
intervals in range reads those intervals back, and its new intervals are canonical and hold
exactly the old indexes and those of the Pods counted now. -/
theorem calculateSucceededIndexes_indexes {job : Job} {oi : OrderedIntervals} (pods : List Pod)
    (htracked : hasJobTrackingAnnotation job = true) (hoi : Canonical oi)
    (hrange : InRange oi job.completions.toInt) (htext : job.completedIndexes = string oi) :
    (calculateSucceededIndexes job pods).1 = oi ∧
      Canonical (calculateSucceededIndexes job pods).2 ∧
      indexes (calculateSucceededIndexes job pods).2 = indexes oi ∪
        ((pods.filter (countsAsSucceeded job true)).map
          fun p => getCompletionIndex p.annotations).toFinset := by
  have hprev := succeededIndexesFromJob_string hoi hrange htext
  have hmax : job.completions.toInt ≤ maxInt64 := by
    have := Int32.toInt_lt job.completions
    unfold maxInt64
    omega
  set newSucceeded := ((pods.filter (countsAsSucceeded job true)).map
    fun p => getCompletionIndex p.annotations).toFinset with hnew
  -- the new indexes, sorted, are increasing and in range
  have hsorted := setsIntList_pairwise newSucceeded
  have hnewrange : ∀ ix ∈ setsIntList newSucceeded, 0 ≤ ix ∧ ix < maxInt64 := by
    intro ix hix
    rw [mem_setsIntList, hnew, List.mem_toFinset] at hix
    obtain ⟨p, hp, rfl⟩ := List.mem_map.mp hix
    have := countsAsSucceeded_range (List.of_mem_filter hp)
    exact ⟨this.1, lt_of_lt_of_le this.2 hmax⟩
  have hoirange : ∀ iv ∈ oi, 0 ≤ iv.first ∧ iv.last < maxInt64 :=
    fun iv hiv => ⟨(hrange iv hiv).1, lt_of_lt_of_le (hrange iv hiv).2 hmax⟩
  obtain ⟨hc, hindexes⟩ := withOrderedIndexes_spec hoi hsorted
    ⟨fun iv hiv => ⟨minInt64_le_of_nonneg (hoirange iv hiv).1, (hoirange iv hiv).2⟩,
      fun ix hix => ⟨minInt64_le_of_nonneg (hnewrange ix hix).1, (hnewrange ix hix).2.le⟩⟩
  simp only [calculateSucceededIndexes, htracked, if_true, foldl_newSucceeded,
    Finset.empty_union, hprev, ← hnew]
  refine ⟨trivial, hc, ?_⟩
  rw [hindexes, setsIntList_toFinset]

/-- Completed indexes kept as ordered intervals: for canonical intervals of indexes from `0`
to below `MaxInt64`, adding increasing indexes in that range keeps them canonical and adds
exactly those indexes, `total` counts them, `has` is membership, and for a Job whose
completions bound the indexes the text `String` writes reads back as the intervals, so that a
sync keeps the completed indexes and adds those of the Pods counted now. -/
theorem orderedIntervals_faithful (oi : OrderedIntervals) (hoi : Canonical oi)
    (hrange : ∀ iv ∈ oi, 0 ≤ iv.first ∧ iv.last < maxInt64) :
    (∀ newIndexes : List Int, newIndexes.Pairwise (· < ·) →
        (∀ ix ∈ newIndexes, 0 ≤ ix ∧ ix < maxInt64) →
        Canonical (withOrderedIndexes oi newIndexes) ∧
          indexes (withOrderedIndexes oi newIndexes) = indexes oi ∪ newIndexes.toFinset) ∧
      total oi = (indexes oi).card ∧
      (∀ ix, has oi ix = true ↔ ix ∈ indexes oi) ∧
      ∀ job : Job, InRange oi job.completions.toInt → job.completedIndexes = string oi →
        succeededIndexesFromJob job = oi ∧
          ( hasJobTrackingAnnotation job = true → ∀ pods : List Pod,
            (calculateSucceededIndexes job pods).1 = oi ∧
              indexes (calculateSucceededIndexes job pods).2 = indexes oi ∪
                ((pods.filter (countsAsSucceeded job true)).map
                  fun p => getCompletionIndex p.annotations).toFinset) := by
  refine ⟨fun newIndexes hnew hnewrange => withOrderedIndexes_spec hoi hnew
      ⟨fun iv hiv => ⟨minInt64_le_of_nonneg (hrange iv hiv).1, (hrange iv hiv).2⟩,
        fun ix hix => ⟨minInt64_le_of_nonneg (hnewrange ix hix).1, (hnewrange ix hix).2.le⟩⟩,
    total_eq_card hoi hrange, has_iff hoi, fun job hjob htext => ⟨?_, fun htracked pods => ?_⟩⟩
  · exact succeededIndexesFromJob_string hoi hjob htext
  · obtain ⟨hprev, -, hindexes⟩ := calculateSucceededIndexes_indexes pods htracked hoi hjob htext
    exact ⟨hprev, hindexes⟩

theorem orderedIntervals_faithful_example :
    Canonical [⟨0, 0⟩, ⟨2, 3⟩, ⟨5, 9⟩] ∧
      (∀ iv ∈ ([⟨0, 0⟩, ⟨2, 3⟩, ⟨5, 9⟩] : OrderedIntervals), 0 ≤ iv.first ∧ iv.last < maxInt64) ∧
      total [⟨0, 0⟩, ⟨2, 3⟩, ⟨5, 9⟩] = (indexes [⟨0, 0⟩, ⟨2, 3⟩, ⟨5, 9⟩]).card :=
  have hc : Canonical [⟨0, 0⟩, ⟨2, 3⟩, ⟨5, 9⟩] := by decide
  have hr : ∀ iv ∈ ([⟨0, 0⟩, ⟨2, 3⟩, ⟨5, 9⟩] : OrderedIntervals),
      0 ≤ iv.first ∧ iv.last < maxInt64 := by decide
  ⟨hc, hr, (orderedIntervals_faithful _ hc hr).2.1⟩

end Job
end Kubernetes
