import Kubernetes.Go.Loops
import Kubernetes.Labels.RoundTrip

/-!
# `metav1.LabelSelector` and `labels.Selector`

`apimachinery/pkg/apis/meta/v1/helpers.go` converts between the API type `LabelSelector` and a
`labels.Selector`.  A `LabelSelector` is a map of labels that must have their values and a list
of expressions; a `labels.Selector` is a conjunction of requirements.  `ParseToLabelSelector`
parses a selector string with `labels.ParseToRequirements` and files each requirement under one
of the two fields; `LabelSelectorAsSelector` builds a requirement from each label and each
expression with `NewRequirement` and adds them to an empty selector.  Both are to "be kept in
sync" with the selector package.

`MatchLabels` is a Go map, here an `AList`, whose keys have no repeats; the order of its entries
is one order in which `range` visits it, and nothing below depends on which.  A
`LabelSelectorOperator` is a Go string: the four constants are constructors and any other text
is `other`.  A `nil` selector is `none`.

What a `LabelSelector` stands for is the list `LabelSelector.requirements`: each label equal to
its value, and each expression (`labelSelectorAsSelector_eq_ok_iff`).  `ParseToLabelSelector`
files the requirements of a string there, but an equality goes into the map under its key, so a
later equality replaces an earlier one on the same key; `foldlM_addRequirement_perm` is the
filing without two equalities on one key.  In the other direction the printed selector is read
back by the parser of the selector package (`oneRequirement_string`) once each requirement's
values are a set in order (`Requirement.normal`).
-/

namespace Kubernetes
namespace Labels

/-! ## The API type -/

/-- `LabelSelectorOperator`: `In`, `NotIn`, `Exists`, `DoesNotExist`, or any other text. -/
inductive LabelSelectorOperator
  | «in»
  | notIn
  | «exists»
  | doesNotExist
  | other (text : String)
  deriving DecidableEq, Repr

/-- The text of a `LabelSelectorOperator`. -/
def LabelSelectorOperator.text : LabelSelectorOperator → String
  | .«in» => "In"
  | .notIn => "NotIn"
  | .«exists» => "Exists"
  | .doesNotExist => "DoesNotExist"
  | .other text => text
attribute [grind] LabelSelectorOperator.text

/-- The `selection.Operator` of a `LabelSelectorOperator`; none for any other text. -/
def LabelSelectorOperator.selection? : LabelSelectorOperator → Option Operator
  | .«in» => some .«in»
  | .notIn => some .notIn
  | .«exists» => some .«exists»
  | .doesNotExist => some .doesNotExist
  | .other _ => none
attribute [grind] LabelSelectorOperator.selection?

/-- `LabelSelectorRequirement`. -/
structure LabelSelectorRequirement where
  key : String
  operator : LabelSelectorOperator
  values : List String
  deriving DecidableEq, Repr

/-- `LabelSelector`: `MatchLabels`, a map from keys to values, and `MatchExpressions`. -/
structure LabelSelector where
  matchLabels : AList (fun _ : String => String)
  matchExpressions : List LabelSelectorRequirement

/-- `labels.Selector` as its two implementations hold it: `internalSelector`, a list of
requirements, and `nothingSelector`. -/
inductive Selector
  | internal (reqs : List Requirement)
  | nothing
  deriving DecidableEq, Repr

/-- `Selector.Matches`. -/
def Selector.matches : Selector → Labels → Bool
  | .internal reqs, ls => selectorMatches reqs ls
  | .nothing, _ => false
attribute [grind] Selector.matches

/-- `Selector.String`. -/
def Selector.string : Selector → String
  | .internal reqs => selectorString reqs
  | .nothing => ""
attribute [grind] Selector.string

/-- `Selector.Add`: the requirements appended and sorted by key (`sort.Sort(ByKey(ret))`). -/
def Selector.add : Selector → List Requirement → Selector
  | .internal s, reqs => .internal (Go.sort (s ++ reqs) (fun a b => decide (a.key < b.key)))
  | .nothing, _ => .nothing
attribute [grind] Selector.add

/-- The text of a `selection.Operator`. -/
def Operator.text : Operator → String
  | .doesNotExist => "!"
  | .equals => "="
  | .doubleEquals => "=="
  | .«in» => "in"
  | .notEquals => "!="
  | .notIn => "notin"
  | .«exists» => "exists"
  | .greaterThan => "gt"
  | .lessThan => "lt"
attribute [grind] Operator.text

/-- `Requirement.Values()`: the values as a set, a list without repeats. -/
def Requirement.values (r : Requirement) : List String :=
  r.strValues.foldl (fun s v => s.insert v) []
attribute [grind] Requirement.values

/-- `NewRequirement` as its callers see it: the requirement, or the aggregate of its errors. -/
def newRequirementChecked (key : String) (op : Operator) (vals : List String) :
    Except String Requirement :=
  if (newRequirement key op vals).2 = [] then .ok (newRequirement key op vals).1
  else .error (aggregateError (newRequirement key op vals).2)
attribute [grind] newRequirementChecked

/-! ## The conversions -/

/-- `LabelSelectorAsSelector`: `Nothing()` for `nil`, `Everything()` for an empty selector, and
otherwise the requirements of the labels and of the expressions, in the order `range` visits
them, added to `NewSelector()`. -/
def labelSelectorAsSelector : Option LabelSelector → Except String Selector
  | none => .ok .nothing
  | some ps =>
      if ps.matchLabels.entries.length + ps.matchExpressions.length = 0 then .ok (.internal [])
      else do
        let labelRequirements ← ps.matchLabels.entries.mapM fun e =>
          newRequirementChecked e.1 .equals [e.2]
        let expressionRequirements ← ps.matchExpressions.mapM fun expr =>
          match expr.operator.selection? with
          | some op => newRequirementChecked expr.key op expr.values
          | none => .error (Go.quote expr.operator.text ++ " is not a valid label selector operator")
        return (Selector.internal []).add (labelRequirements ++ expressionRequirements)
attribute [grind] labelSelectorAsSelector

/-- One round of the loop of `ParseToLabelSelector`: an equality goes into `MatchLabels` under
its key; `in`, `notin`, `exists` and `!` are appended to `MatchExpressions` with their values
in order; `gt`, `lt` and `!=` are errors. -/
def addRequirement (ls : LabelSelector) (req : Requirement) : Except String LabelSelector :=
  let expression (op : LabelSelectorOperator) : LabelSelector :=
    { ls with matchExpressions := ls.matchExpressions ++ [⟨req.key, op, setList req.values⟩] }
  match req.operator with
  | .equals | .doubleEquals =>
      -- `vals.PopAny()` of a set of one value returns it
      match req.values with
      | [val] => .ok { ls with matchLabels := ls.matchLabels.insert req.key val }
      | _ => .error "equals operator must have exactly one value"
  | .«in» => .ok (expression .«in»)
  | .notIn => .ok (expression .notIn)
  | .«exists» => .ok (expression .«exists»)
  | .doesNotExist => .ok (expression .doesNotExist)
  | .greaterThan | .lessThan =>
      .error (Go.quote req.operator.text ++ " isn't supported in label selectors")
  | .notEquals => .error (Go.quote req.operator.text ++ " is not a valid label selector operator")
attribute [grind] addRequirement

/-- `ParseToLabelSelector`. -/
def parseToLabelSelector (selector : String) : Except String LabelSelector :=
  match parse selector with
  | .error err => .error ("couldn't parse the selector string \"" ++ selector ++ "\": " ++ err)
  | .ok reqs => reqs.foldlM addRequirement ⟨∅, []⟩
attribute [grind] parseToLabelSelector

/-! ## What a `LabelSelector` stands for -/

/-- The requirements a `LabelSelector` stands for: each label of `matchLabels` equal to its
value, and each expression whose operator is one of the four. -/
def LabelSelector.requirements (ps : LabelSelector) : List Requirement :=
  ps.matchLabels.entries.map (fun e => ⟨e.1, .equals, [e.2]⟩) ++
    ps.matchExpressions.filterMap fun expr =>
      expr.operator.selection?.map fun op => ⟨expr.key, op, expr.values⟩
attribute [grind] LabelSelector.requirements

/-- A `LabelSelector` whose labels and expressions `NewRequirement` accepts, every expression
with one of the four operators. -/
structure LabelSelector.Accepted (ps : LabelSelector) : Prop where
  labels : ∀ e ∈ ps.matchLabels.entries, (newRequirement e.1 .equals [e.2]).2 = []
  expressions : ∀ expr ∈ ps.matchExpressions,
    ∃ op, expr.operator.selection? = some op ∧ (newRequirement expr.key op expr.values).2 = []

theorem newRequirementChecked_eq_ok {key : String} {op : Operator} {vals : List String}
    {r : Requirement} :
    newRequirementChecked key op vals = .ok r ↔
      (newRequirement key op vals).2 = [] ∧ (⟨key, op, vals⟩ : Requirement) = r := by
  unfold newRequirementChecked
  split_ifs with h
  · rw [Except.ok.injEq]
    exact ⟨fun hr => ⟨h, hr⟩, fun hr => hr.2⟩
  · exact ⟨fun hr => by simp at hr, fun hr => absurd hr.1 h⟩

/-- The labels are read into their equality requirements when `NewRequirement` accepts each. -/
theorem mapM_labels_eq_ok_iff {entries : List (Σ _ : String, String)} {reqs : List Requirement} :
    entries.mapM (fun e => newRequirementChecked e.1 .equals [e.2]) = .ok reqs ↔
      (∀ e ∈ entries, (newRequirement e.1 .equals [e.2]).2 = []) ∧
        reqs = entries.map (fun e => ⟨e.1, .equals, [e.2]⟩) := by
  rw [Go.mapM_eq_ok_iff_filterMap (g := fun e => some ⟨e.1, .equals, [e.2]⟩)
    (fun _ _ => by rw [newRequirementChecked_eq_ok, Option.some.injEq]) (fun _ _ => rfl)]
  have hmap : (entries.filterMap fun e => some (⟨e.1, .equals, [e.2]⟩ : Requirement)) =
      entries.map (fun e => ⟨e.1, .equals, [e.2]⟩) :=
    congrFun List.filterMap_eq_map entries
  rw [hmap]

/-- The expressions are read into their requirements when each has one of the four operators
and `NewRequirement` accepts it. -/
theorem mapM_expressions_eq_ok_iff {exprs : List LabelSelectorRequirement}
    {reqs : List Requirement} :
    exprs.mapM (fun expr =>
        match expr.operator.selection? with
        | some op => newRequirementChecked expr.key op expr.values
        | none => .error (Go.quote expr.operator.text ++ " is not a valid label selector operator")) =
        .ok reqs ↔
      (∀ expr ∈ exprs, ∃ op, expr.operator.selection? = some op ∧
        (newRequirement expr.key op expr.values).2 = []) ∧
        reqs = exprs.filterMap fun expr =>
          expr.operator.selection?.map fun op => ⟨expr.key, op, expr.values⟩ := by
  refine Go.mapM_eq_ok_iff_filterMap (fun expr r => ?_) (fun expr ⟨op, hop, _⟩ => by simp [hop])
  cases hop : expr.operator.selection? with
  | none => simp
  | some op => simp [newRequirementChecked_eq_ok]

/-- `LabelSelectorAsSelector` succeeds exactly on accepted selectors, and returns the
requirements they stand for, sorted by key. -/
theorem labelSelectorAsSelector_eq_ok_iff {ps : LabelSelector} {sel : Selector} :
    labelSelectorAsSelector (some ps) = .ok sel ↔
      ps.Accepted ∧ sel = .internal (Go.sort ps.requirements (fun a b => decide (a.key < b.key))) := by
  simp only [labelSelectorAsSelector]
  split_ifs with hempty
  · -- no labels and no expressions: `Everything()`
    have hl : ps.matchLabels.entries = [] := List.eq_nil_of_length_eq_zero (by omega)
    have he : ps.matchExpressions = [] := List.eq_nil_of_length_eq_zero (by omega)
    have hacc : ps.Accepted := ⟨by simp [hl], by simp [he]⟩
    have hreqs : ps.requirements = [] := by simp [LabelSelector.requirements, hl, he]
    rw [hreqs, Except.ok.injEq]
    exact ⟨fun h => ⟨hacc, h.symm⟩, fun h => h.2.symm⟩
  · simp only [Go.bind_eq_ok, mapM_labels_eq_ok_iff, mapM_expressions_eq_ok_iff]
    constructor
    · rintro ⟨_, ⟨hlabels, rfl⟩, _, ⟨hexprs, rfl⟩, h⟩
      exact ⟨⟨hlabels, hexprs⟩, (Except.ok.inj h).symm⟩
    · rintro ⟨⟨hlabels, hexprs⟩, rfl⟩
      exact ⟨_, ⟨hlabels, rfl⟩, _, ⟨hexprs, rfl⟩, rfl⟩

/-- A selector that `LabelSelectorAsSelector` returns selects what the requirements of the
`LabelSelector` select. -/
theorem labelSelectorAsSelector_matches {ps : LabelSelector} {sel : Selector}
    (h : labelSelectorAsSelector (some ps) = .ok sel) (ls : Labels) :
    sel.matches ls = selectorMatches ps.requirements ls := by
  obtain ⟨-, rfl⟩ := labelSelectorAsSelector_eq_ok_iff.mp h
  exact selectorMatches_perm (Go.sliceStable_perm _ _) ls

/-! ## `ParseToLabelSelector` files the requirements -/

/-- `=` and `==`, the operators `ParseToLabelSelector` files into `MatchLabels`. -/
def Operator.isEquality : Operator → Bool
  | .equals | .doubleEquals => true
  | _ => false
attribute [grind] Operator.isEquality

/-- The operators `ParseToLabelSelector` accepts. -/
def Operator.fitsLabelSelector : Operator → Bool
  | .notEquals | .greaterThan | .lessThan => false
  | _ => true
attribute [grind] Operator.fitsLabelSelector

/-- The keys of the equalities among requirements, in order. -/
def equalityKeys (reqs : List Requirement) : List String :=
  (reqs.filter (·.operator.isEquality)).map Requirement.key
attribute [grind] equalityKeys

/-- How a `LabelSelector` holds a requirement: `==` as `=`. -/
def Requirement.held (r : Requirement) : Requirement :=
  if r.operator = .doubleEquals then { r with operator := .equals } else r
attribute [grind] Requirement.held

@[simp] theorem Requirement.held_key (r : Requirement) : r.held.key = r.key := by
  unfold Requirement.held
  split_ifs <;> rfl

@[simp] theorem Requirement.isEquality_held (r : Requirement) :
    r.held.operator.isEquality = r.operator.isEquality := by
  unfold Requirement.held
  split_ifs with h <;> simp [h, Operator.isEquality]

theorem Requirement.held_matches (r : Requirement) (ls : Labels) :
    r.held.matches ls = r.matches ls := by
  unfold Requirement.held
  split_ifs with h
  · simp [Requirement.matches, Requirement.hasValue, h]
  · rfl

/-- A map that keeps each key and whether it is an equality keeps the keys of the equalities. -/
theorem equalityKeys_map {f : Requirement → Requirement} (hkey : ∀ r, (f r).key = r.key)
    (heq : ∀ r, (f r).operator.isEquality = r.operator.isEquality) (reqs : List Requirement) :
    equalityKeys (reqs.map f) = equalityKeys reqs := by
  induction reqs with
  | nil => rfl
  | cons r reqs ih =>
      simp only [equalityKeys, List.map_cons, List.filter_cons, heq] at ih ⊢
      split_ifs <;> simp [ih, hkey]

theorem equalityKeys_perm {reqs reqs' : List Requirement} (h : reqs.Perm reqs') :
    (equalityKeys reqs).Perm (equalityKeys reqs') :=
  (h.filter _).map _

/-- The operators of the expressions are no equalities. -/
theorem isEquality_of_selection? {o : LabelSelectorOperator} {op : Operator}
    (h : o.selection? = some op) : op.isEquality = false := by
  cases o <;> simp only [LabelSelectorOperator.selection?, Option.some.injEq, reduceCtorEq] at h <;>
    subst h <;> rfl

/-- The equalities a `LabelSelector` stands for are its labels. -/
theorem equalityKeys_requirements (ps : LabelSelector) :
    equalityKeys ps.requirements = ps.matchLabels.keys := by
  have hexprs : (ps.matchExpressions.filterMap fun expr =>
      expr.operator.selection?.map fun op => (⟨expr.key, op, expr.values⟩ : Requirement)).filter
        (·.operator.isEquality) = [] := by
    refine List.filter_eq_nil_iff.mpr fun r hr => ?_
    obtain ⟨expr, -, op, hop, rfl⟩ := by simpa using hr
    simp [isEquality_of_selection? hop]
  rw [equalityKeys, LabelSelector.requirements, List.filter_append, hexprs, List.append_nil,
    List.filter_eq_self.mpr fun r hr => by obtain ⟨e, -, rfl⟩ := List.mem_map.mp hr; rfl,
    List.map_map]
  rfl

theorem mem_matchLabels_iff {ps : LabelSelector} {k : String} :
    k ∈ ps.matchLabels ↔ k ∈ equalityKeys ps.requirements := by
  rw [equalityKeys_requirements, AList.mem_keys]

theorem Valid.valuesFit {r : Requirement} (hr : Valid r) : ValuesFit r.operator r.strValues :=
  operatorErrors_eq_nil.mp (newRequirement_errors_eq_nil.mp hr.1).2.1

/-- The set of the values of a valid requirement, in order, is its values. -/
theorem Valid.setList_values {r : Requirement} (hr : Valid r) : setList r.values = r.strValues :=
  setList_foldl_insert hr.2

/-- `NewRequirement` checks `=` and `==` alike. -/
theorem newRequirement_errors_of_isEquality {key : String} {op : Operator} {vals : List String}
    (hop : op.isEquality = true) :
    (newRequirement key op vals).2 = (newRequirement key .equals vals).2 := by
  cases op <;> first | rfl | simp [Operator.isEquality] at hop

/-- A round of `ParseToLabelSelector` keeps the selector accepted. -/
theorem addRequirement_accepted {ps ps' : LabelSelector} {r : Requirement} (hps : ps.Accepted)
    (hr : Valid r) (h : addRequirement ps r = .ok ps') : ps'.Accepted := by
  obtain ⟨key, op, vals⟩ := r
  have hfit := hr.valuesFit
  cases op
  case equals | doubleEquals =>
    obtain ⟨v, rfl⟩ := hfit
    simp only [addRequirement, Requirement.values, List.foldl_cons, List.foldl_nil,
      List.insert_nil, Except.ok.injEq] at h
    subst h
    refine ⟨fun e he => ?_, hps.expressions⟩
    rw [AList.entries_insert, List.mem_cons] at he
    rcases he with rfl | he
    · -- the label just filed: `NewRequirement` checks it as it checked the equality
      exact (newRequirement_errors_of_isEquality (by rfl)).symm.trans hr.1
    · exact hps.labels e (List.kerase_sublist _ _ |>.subset he)
  case «in» | notIn | «exists» | doesNotExist =>
    simp only [addRequirement, Except.ok.injEq] at h
    subst h
    refine ⟨hps.labels, fun expr hexpr => ?_⟩
    rcases List.mem_append.mp hexpr with hexpr | hexpr
    · exact hps.expressions expr hexpr
    · rw [List.mem_singleton.mp hexpr]
      exact ⟨_, rfl, by rw [hr.setList_values]; exact hr.1⟩
  case notEquals | greaterThan | lessThan => simp [addRequirement] at h

/-- A round of `ParseToLabelSelector` files a valid requirement as one more requirement of the
selector, an equality under a key the map does not have yet. -/
theorem addRequirement_requirements {ps ps' : LabelSelector} {r : Requirement} (hr : Valid r)
    (hfresh : r.operator.isEquality = true → r.key ∉ ps.matchLabels)
    (h : addRequirement ps r = .ok ps') : ps'.requirements.Perm (r.held :: ps.requirements) := by
  obtain ⟨key, op, vals⟩ := r
  have hfit := hr.valuesFit
  cases op
  case equals | doubleEquals =>
    obtain ⟨v, rfl⟩ := hfit
    simp only [addRequirement, Requirement.values, List.foldl_cons, List.foldl_nil,
      List.insert_nil, Except.ok.injEq] at h
    subst h
    -- the key is new, so the map gets one more entry in front
    simp only [LabelSelector.requirements]
    rw [AList.entries_insert_of_notMem (hfresh rfl)]
    simp [Requirement.held]
  case «in» | notIn | «exists» | doesNotExist =>
    simp only [addRequirement, Except.ok.injEq] at h
    subst h
    have hset := hr.setList_values
    simp only at hset
    simp only [LabelSelector.requirements, List.filterMap_append, List.filterMap_cons,
      List.filterMap_nil, LabelSelectorOperator.selection?, Option.map_some, hset,
      Requirement.held, reduceCtorEq, if_false, ← List.append_assoc]
    exact List.perm_append_singleton _ _
  case notEquals | greaterThan | lessThan => simp [addRequirement] at h

/-- A round of `ParseToLabelSelector` on a valid requirement with one of its operators returns. -/
theorem addRequirement_isOk {ps : LabelSelector} {r : Requirement} (hr : Valid r)
    (hop : r.operator.fitsLabelSelector = true) : ∃ ps', addRequirement ps r = .ok ps' := by
  obtain ⟨key, op, vals⟩ := r
  cases op
  case equals | doubleEquals =>
    obtain ⟨v, rfl⟩ := hr.valuesFit
    exact ⟨_, rfl⟩
  case «in» | notIn | «exists» | doesNotExist => exact ⟨_, rfl⟩
  case notEquals | greaterThan | lessThan => simp [Operator.fitsLabelSelector] at hop

theorem accepted_empty : (⟨∅, []⟩ : LabelSelector).Accepted :=
  ⟨by simp, by simp⟩

/-- `ParseToLabelSelector` files valid requirements into an accepted selector. -/
theorem foldlM_addRequirement_accepted {reqs : List Requirement} {ps ps' : LabelSelector}
    (hvalid : ∀ r ∈ reqs, Valid r) (hps : ps.Accepted)
    (h : reqs.foldlM addRequirement ps = .ok ps') : ps'.Accepted :=
  Go.foldlM_invariant (fun _ ps => ps.Accepted)
    (fun _ x _ _ _ hxs hinv hx => addRequirement_accepted hinv (hvalid x (by simp [← hxs])) hx)
    hps h

/-- `ParseToLabelSelector` returns on valid requirements with its operators. -/
theorem foldlM_addRequirement_isOk {reqs : List Requirement} {ps : LabelSelector}
    (hvalid : ∀ r ∈ reqs, Valid r ∧ r.operator.fitsLabelSelector = true) (hps : ps.Accepted) :
    ∃ ps', reqs.foldlM addRequirement ps = .ok ps' ∧ ps'.Accepted :=
  Go.foldlM_isOk LabelSelector.Accepted (fun r ps hr hps =>
    have ⟨ps', h⟩ := @addRequirement_isOk ps r (hvalid r hr).1 (hvalid r hr).2
    ⟨ps', h, addRequirement_accepted hps (hvalid r hr).1 h⟩) hps

/-- Without two equalities on one key, `ParseToLabelSelector` files each valid requirement once. -/
theorem foldlM_addRequirement_perm {reqs : List Requirement} {ps : LabelSelector}
    (hvalid : ∀ r ∈ reqs, Valid r) (hnodup : (equalityKeys reqs).Nodup)
    (h : reqs.foldlM addRequirement ⟨∅, []⟩ = .ok ps) :
    ps.requirements.Perm (reqs.map Requirement.held) := by
  refine Go.foldlM_invariant (fun pre ps => ps.requirements.Perm (pre.map Requirement.held))
    (fun pre x post ps ps' hxs hperm hx => ?_) (by simp [LabelSelector.requirements]) h
  -- an equality's key is not in the map yet: the map holds the keys of earlier equalities
  have hfresh : x.operator.isEquality = true → x.key ∉ ps.matchLabels := by
    intro hx hmem
    have hpre : x.key ∈ equalityKeys pre := by
      rw [mem_matchLabels_iff] at hmem
      rw [← equalityKeys_map Requirement.held_key Requirement.isEquality_held pre]
      exact (equalityKeys_perm hperm).subset hmem
    rw [← hxs] at hnodup
    simp only [equalityKeys, List.filter_append, List.filter_cons, hx, if_true, List.map_append,
      List.map_cons] at hnodup hpre
    exact (List.nodup_append.mp hnodup).2.2 _ hpre _ List.mem_cons_self rfl
  calc List.Perm ps'.requirements (x.held :: ps.requirements) :=
        addRequirement_requirements (hvalid x (by simp [← hxs])) hfresh hx
    List.Perm _ (x.held :: pre.map Requirement.held) := hperm.cons _
    List.Perm _ ((pre ++ [x]).map Requirement.held) := by
        rw [List.map_append, List.map_singleton]
        exact (List.perm_append_singleton _ _).symm

theorem selectorMatches_map {f : Requirement → Requirement}
    (hf : ∀ r ls, (f r).matches ls = r.matches ls) (reqs : List Requirement) (ls : Labels) :
    selectorMatches (reqs.map f) ls = selectorMatches reqs ls := by
  simp [selectorMatches, Function.comp_def, hf]

/-- The `LabelSelector` of a string is accepted by `LabelSelectorAsSelector`, and, without two
equalities on one key, selects what the string selects. -/
theorem parseToLabelSelector_matches {s : String} {ps : LabelSelector}
    (h : parseToLabelSelector s = .ok ps) :
    ∃ sel, labelSelectorAsSelector (some ps) = .ok sel ∧
      ∀ reqs, parse s = .ok reqs → (equalityKeys reqs).Nodup →
        ∀ ls, sel.matches ls = selectorMatches reqs ls := by
  unfold parseToLabelSelector at h
  split at h
  · simp at h
  rename_i reqs hparse
  have hvalid := valid_of_parse hparse
  have hsel := labelSelectorAsSelector_eq_ok_iff.mpr
    ⟨foldlM_addRequirement_accepted hvalid accepted_empty h, rfl⟩
  refine ⟨_, hsel, fun reqs' hparse' hnodup ls => ?_⟩
  obtain rfl : reqs = reqs' := Except.ok.inj (hparse.symm.trans hparse')
  calc _ = selectorMatches ps.requirements ls := labelSelectorAsSelector_matches hsel ls
    _ = selectorMatches (reqs.map Requirement.held) ls :=
        selectorMatches_perm (foldlM_addRequirement_perm hvalid hnodup h) ls
    _ = selectorMatches reqs ls := selectorMatches_map Requirement.held_matches reqs ls

/-! ## Printing a selector and parsing it back -/

/-- A requirement with its values as a set in order, the form the parser reads it back in. -/
def Requirement.normal (r : Requirement) : Requirement :=
  { r with strValues := setList r.strValues }
attribute [grind] Requirement.normal

theorem setList_perm (l : List String) : (setList l).Perm l :=
  Go.sliceStable_perm _ _

/-- A list `sort.StringsAreSorted` accepts is in order. -/
theorem isChain_of_stringsAreSorted :
    ∀ {l : List String}, stringsAreSorted l = true → l.IsChain (fun a b => id a ≤ id b)
  | [], _ => .nil
  | [_], _ => .singleton _
  | a :: b :: rest, h => by
      simp only [stringsAreSorted, Bool.and_eq_true, Bool.not_eq_true', decide_eq_false_iff_not] at h
      exact .cons_cons (not_lt.mp h.1) (isChain_of_stringsAreSorted h.2)

/-- `safeSort` sorts, whether it copies the values or not. -/
theorem safeSort_eq_setList (l : List String) : safeSort l = setList l := by
  unfold safeSort
  split_ifs with h
  · exact (Go.sort_of_isChain_key id (isChain_of_stringsAreSorted h)).symm
  · rfl

theorem setList_setList (l : List String) : setList (setList l) = setList l :=
  Go.sort_of_isChain_key id (Go.sort_isChain_key id l)

/-- Two values or more stay two values or more in order. -/
theorem setList_cons_cons (v w : String) (rest : List String) :
    ∃ a b t, setList (v :: w :: rest) = a :: b :: t := by
  have hlen := (setList_perm (v :: w :: rest)).length_eq
  rcases h : setList (v :: w :: rest) with _ | ⟨a, _ | ⟨b, t⟩⟩
  · simp [h] at hlen
  · simp [h] at hlen
  · exact ⟨a, b, t, rfl⟩

/-- `Requirement.String` prints the values in order, so the normal form prints the same. -/
theorem string_normal (r : Requirement) : r.normal.string = r.string := by
  obtain ⟨key, op, vals⟩ := r
  rcases vals with _ | ⟨v, _ | ⟨w, rest⟩⟩
  · rfl
  · rfl
  · obtain ⟨a, b, t, ht⟩ := setList_cons_cons v w rest
    simp only [Requirement.normal, Requirement.string, ht]
    rw [← ht, safeSort_eq_setList, safeSort_eq_setList, setList_setList]

/-- A requirement reads its values as a set, and only `gt` and `lt` their number. -/
theorem matches_normal (r : Requirement) (ls : Labels) : r.normal.matches ls = r.matches ls := by
  obtain ⟨key, op, vals⟩ := r
  rcases vals with _ | ⟨v, _ | ⟨w, rest⟩⟩
  · rfl
  · rfl
  · obtain ⟨a, b, t, ht⟩ := setList_cons_cons v w rest
    have hmem : ∀ x, x ∈ a :: b :: t ↔ x ∈ v :: w :: rest := fun x => by
      rw [← ht]
      exact (setList_perm _).mem_iff
    cases op <;> simp [Requirement.normal, Requirement.matches, Requirement.hasValue, ht, hmem]

theorem ValuesFit.perm {op : Operator} {l l' : List String} (h : ValuesFit op l) (hperm : l.Perm l') :
    ValuesFit op l' := by
  cases op
  case «in» | notIn => exact fun hnil => h (List.Perm.eq_nil (hnil ▸ hperm))
  case equals | doubleEquals | notEquals =>
    obtain ⟨v, rfl⟩ := h
    exact ⟨v, List.perm_singleton.mp hperm.symm⟩
  case «exists» | doesNotExist =>
    change l = [] at h
    subst h
    exact List.Perm.nil_eq hperm |>.symm
  case greaterThan | lessThan =>
    obtain ⟨v, n, rfl, hn⟩ := h
    exact ⟨v, n, List.perm_singleton.mp hperm.symm, hn⟩

/-- A requirement `NewRequirement` accepts, its values without repeats, is valid in normal form. -/
theorem valid_normal {r : Requirement} (herrs : (newRequirement r.key r.operator r.strValues).2 = [])
    (hnodup : r.strValues.Nodup) : Valid r.normal := by
  obtain ⟨hkey, hfit, hvals⟩ := newRequirement_errors_eq_nil.mp herrs
  have hperm := setList_perm r.strValues
  refine ⟨newRequirement_errors_eq_nil.mpr ⟨hkey, ?_, fun v hv => hvals v (hperm.subset hv)⟩,
    setList_pairwise hnodup⟩
  exact operatorErrors_eq_nil.mpr ((operatorErrors_eq_nil.mp hfit).perm hperm.symm)

theorem fitsLabelSelector_of_selection? {o : LabelSelectorOperator} {op : Operator}
    (h : o.selection? = some op) : op.fitsLabelSelector = true := by
  cases o <;> simp only [LabelSelectorOperator.selection?, Option.some.injEq, reduceCtorEq] at h <;>
    subst h <;> rfl

/-- The requirements of an accepted selector pass `NewRequirement` with an operator
`ParseToLabelSelector` takes, and have no repeated values when its expressions have none. -/
theorem LabelSelector.Accepted.requirement {ps : LabelSelector} (hacc : ps.Accepted)
    (hnodup : ∀ expr ∈ ps.matchExpressions, expr.values.Nodup) {r : Requirement}
    (hr : r ∈ ps.requirements) :
    (newRequirement r.key r.operator r.strValues).2 = [] ∧ r.strValues.Nodup ∧
      r.operator.fitsLabelSelector = true := by
  simp only [LabelSelector.requirements, List.mem_append, List.mem_map, List.mem_filterMap,
    Option.map_eq_some_iff] at hr
  rcases hr with ⟨e, he, rfl⟩ | ⟨expr, hexpr, op, hop, rfl⟩
  · exact ⟨hacc.labels e he, List.nodup_singleton _, rfl⟩
  · obtain ⟨op', hop', herrs⟩ := hacc.expressions expr hexpr
    obtain rfl : op = op' := Option.some.inj (hop.symm.trans hop')
    exact ⟨herrs, hnodup expr hexpr, fitsLabelSelector_of_selection? hop⟩

/-- Printing a selector that `LabelSelectorAsSelector` returns and parsing the text with
`ParseToLabelSelector` gives a `LabelSelector` that selects the same labels, when no expression
repeats a value. -/
theorem labelSelectorAsSelector_string {ps : LabelSelector} {sel : Selector}
    (h : labelSelectorAsSelector (some ps) = .ok sel)
    (hnodup : ∀ expr ∈ ps.matchExpressions, expr.values.Nodup) :
    ∃ ps', parseToLabelSelector sel.string = .ok ps' ∧
      ∃ sel', labelSelectorAsSelector (some ps') = .ok sel' ∧
        ∀ ls, sel'.matches ls = sel.matches ls := by
  obtain ⟨hacc, rfl⟩ := labelSelectorAsSelector_eq_ok_iff.mp h
  set reqs := Go.sort ps.requirements (fun a b => decide (a.key < b.key))
  have hperm : reqs.Perm ps.requirements := Go.sliceStable_perm _ _
  -- each requirement prints as its normal form, which the parser reads back
  have hone : List.Forall₂ OneRequirement (reqs.map Requirement.string)
      (reqs.map Requirement.normal) := by
    refine List.forall₂_map_left_iff.mpr (List.forall₂_map_right_iff.mpr
      (List.forall₂_same.mpr fun r hr => ?_))
    obtain ⟨herrs, hnd, -⟩ := hacc.requirement hnodup (hperm.subset hr)
    rw [← string_normal r]
    exact oneRequirement_string (valid_normal herrs hnd)
  have hparse : parse (Selector.internal reqs).string =
      .ok (Go.sort (reqs.map Requirement.normal) (fun a b => decide (a.key < b.key))) :=
    parse_intercalate hone
  set reqs' := Go.sort (reqs.map Requirement.normal) (fun a b => decide (a.key < b.key))
  have hperm' : reqs'.Perm (reqs.map Requirement.normal) := Go.sliceStable_perm _ _
  have hvalid : ∀ r ∈ reqs', Valid r ∧ r.operator.fitsLabelSelector = true := by
    intro r hr
    obtain ⟨r₀, hr₀, rfl⟩ := List.mem_map.mp (hperm'.subset hr)
    obtain ⟨herrs, hnd, hfits⟩ := hacc.requirement hnodup (hperm.subset hr₀)
    exact ⟨valid_normal herrs hnd, hfits⟩
  -- the equalities read back are the labels, whose keys have no repeats
  have hkeys : (equalityKeys reqs').Nodup := by
    refine ((equalityKeys_perm (hperm'.trans (hperm.map _))).nodup_iff).mpr ?_
    rw [equalityKeys_map (f := Requirement.normal) (fun _ => rfl) (fun _ => rfl),
      equalityKeys_requirements]
    exact ps.matchLabels.keys_nodup
  obtain ⟨ps', hfold, hacc'⟩ := foldlM_addRequirement_isOk hvalid accepted_empty
  have hsel' := labelSelectorAsSelector_eq_ok_iff.mpr ⟨hacc', rfl⟩
  refine ⟨ps', by simp only [parseToLabelSelector, hparse, hfold], _, hsel', fun ls => ?_⟩
  calc _ = selectorMatches ps'.requirements ls := labelSelectorAsSelector_matches hsel' ls
    _ = selectorMatches (reqs'.map Requirement.held) ls :=
        selectorMatches_perm (foldlM_addRequirement_perm (fun r hr => (hvalid r hr).1) hkeys hfold) ls
    _ = selectorMatches reqs' ls := selectorMatches_map Requirement.held_matches reqs' ls
    _ = selectorMatches (reqs.map Requirement.normal) ls := selectorMatches_perm hperm' ls
    _ = selectorMatches reqs ls := selectorMatches_map matches_normal reqs ls

/-! ## The two conversions against the selector package -/

/-- The `LabelSelector` of a string is accepted by `LabelSelectorAsSelector` and, without two
equalities on one key, selects what the string selects; and the text of a selector built from a
`LabelSelector` whose expressions repeat no value reads back as a `LabelSelector` that selects
the same labels. -/
theorem labelSelector_conversions_agree :
    (∀ (s : String) (ps : LabelSelector), parseToLabelSelector s = .ok ps →
      ∃ sel, labelSelectorAsSelector (some ps) = .ok sel ∧
        ∀ reqs, parse s = .ok reqs → (equalityKeys reqs).Nodup →
          ∀ ls, sel.matches ls = selectorMatches reqs ls) ∧
    (∀ (ps : LabelSelector) (sel : Selector), labelSelectorAsSelector (some ps) = .ok sel →
      (∀ expr ∈ ps.matchExpressions, expr.values.Nodup) →
      ∃ ps', parseToLabelSelector sel.string = .ok ps' ∧
        ∃ sel', labelSelectorAsSelector (some ps') = .ok sel' ∧
          ∀ ls, sel'.matches ls = sel.matches ls) :=
  ⟨fun _ _ h => parseToLabelSelector_matches h,
    fun _ _ h hnodup => labelSelectorAsSelector_string h hnodup⟩

theorem labelSelector_conversions_agree_unsorted :
    labelSelectorAsSelector (some ⟨∅, [⟨"x", .«in», ["b", "a"]⟩]⟩) =
        .ok (.internal [⟨"x", .«in», ["b", "a"]⟩]) ∧
      ∃ ps', parseToLabelSelector (Selector.internal [⟨"x", .«in», ["b", "a"]⟩]).string = .ok ps' ∧
        ∃ sel', labelSelectorAsSelector (some ps') = .ok sel' ∧
          ∀ ls, sel'.matches ls = (Selector.internal [⟨"x", .«in», ["b", "a"]⟩]).matches ls :=
  have h : labelSelectorAsSelector (some ⟨∅, [⟨"x", .«in», ["b", "a"]⟩]⟩) =
      .ok (.internal [⟨"x", .«in», ["b", "a"]⟩]) := by decide
  ⟨h, labelSelector_conversions_agree.2 _ _ h (by decide)⟩

/-- Where the conversions part.  `x=a,x=b` selects nothing, but `ParseToLabelSelector` keeps
the later equality only and selects `x=b`.  The expression `x in ["", "", ""]` is accepted and
prints as `x in (,,)`, which the parser rejects: after `,,` it takes the `)` for a value.  A
`nil` selector selects nothing and prints as the empty text, which selects everything. -/
theorem labelSelector_conversions_disagree :
    (parseToLabelSelector "x=a,x=b" = .ok ⟨AList.insert "x" "b" ∅, []⟩ ∧
      labelSelectorAsSelector (some ⟨AList.insert "x" "b" ∅, []⟩) =
        .ok (.internal [⟨"x", .equals, ["b"]⟩]) ∧
      parse "x=a,x=b" = .ok [⟨"x", .equals, ["a"]⟩, ⟨"x", .equals, ["b"]⟩] ∧
      (Selector.internal [⟨"x", .equals, ["b"]⟩]).matches ⟨fun k => k == "x", fun _ => "b"⟩ = true ∧
      selectorMatches [⟨"x", .equals, ["a"]⟩, ⟨"x", .equals, ["b"]⟩]
        ⟨fun k => k == "x", fun _ => "b"⟩ = false) ∧
    (labelSelectorAsSelector (some ⟨∅, [⟨"x", .«in», ["", "", ""]⟩]⟩) =
        .ok (.internal [⟨"x", .«in», ["", "", ""]⟩]) ∧
      (Selector.internal [⟨"x", .«in», ["", "", ""]⟩]).string = "x in (,,)" ∧
      parseToLabelSelector "x in (,,)" = .error ("couldn't parse the selector string \"x in (,,)\": " ++
        "unable to parse requirement: found ')', expected: ',', or identifier")) ∧
    (labelSelectorAsSelector none = .ok .nothing ∧ Selector.nothing.string = "" ∧
      parseToLabelSelector "" = .ok ⟨∅, []⟩ ∧
      labelSelectorAsSelector (some ⟨∅, []⟩) = .ok (.internal []) ∧
      ∀ ls, Selector.nothing.matches ls = false ∧ (Selector.internal []).matches ls = true) :=
  ⟨⟨by rfl, by decide, by decide, by decide, by decide⟩, ⟨by decide, by decide, by rfl⟩,
    ⟨rfl, rfl, by rfl, by decide, fun _ => ⟨rfl, rfl⟩⟩⟩

end Labels
end Kubernetes
