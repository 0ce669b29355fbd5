import Kubernetes.Rbac.EvaluationHelpers

/-!
# The escalation check `Covers` and its soundness for the authorizer

`component-helpers/auth/rbac/validation/policy_comparator.go`.  `Covers(owner, servant)`
breaks every servant rule into atomic pieces (one verb, one group, one resource, at most
one name; or one verb and one non-resource URL) and keeps the pieces that no owner rule
covers.  `ConfirmNoEscalation` accepts a role exactly when that list is empty.

Coverage is decided syntactically, with wildcard rules of its own (`resourceCoversAll`,
`nonResourceURLCovers`), while the authorizer matches requests with the helpers of
`EvaluationHelpers`.  The main result, `covers_sound`, ties the two: whatever request a
servant rule allows, some owner rule allows too, as long as the requested resource and
subresource are free of `/` (a resource named `a/b` is matched by `*/b` in `Covers` but not
in `ResourceMatches`).

The proof runs through the pieces: `breakdownRule_allows_iff` says the pieces of a rule
allow exactly what the rule allows, and `ruleAllows_of_ruleCovers` that an owner rule
covering a piece allows every request the piece allows.
-/

namespace Kubernetes
namespace Rbac

open Go

/-- `has`: some element equals `ele`. -/
def has (set : List String) (ele : String) : Bool :=
  set.any fun s => s == ele

/-- `hasAll`: every element of `contains` is in `set` (the Go code builds a map of `set`). -/
def hasAll (set contains : List String) : Bool :=
  contains.all fun ele => has set ele
attribute [grind] hasAll

/-- `resourceCoversAll`: a wildcard or all exact names, else each covered resource is
listed exactly or is `resource/sub` with `*/sub` listed. -/
def resourceCoversAll (setResources coversResources : List String) : Bool :=
  if has setResources resourceAll || hasAll setResources coversResources then
    true
  else
    coversResources.all fun path =>
      has setResources path ||
        (containsChar path '/' &&
          has setResources ("*/" ++ (stringsSplitN path '/' 2).getD 1 ""))
attribute [grind] resourceCoversAll

/-- `nonResourceURLCovers`: equal, or the owner ends in `*` and the sub-path starts with
the owner's text before its trailing stars. -/
def nonResourceURLCovers (ownerPath subPath : String) : Bool :=
  ownerPath == subPath || (hasSuffix ownerPath "*" && hasPrefix subPath (trimRight ownerPath '*'))
attribute [grind] nonResourceURLCovers

/-- `nonResourceURLsCoversAll`. -/
def nonResourceURLsCoversAll (set covers : List String) : Bool :=
  covers.all fun path => set.any fun owner => nonResourceURLCovers owner path
attribute [grind] nonResourceURLsCoversAll

/-- `ruleCovers`: whether one owner rule covers one (atomic) sub-rule. -/
def ruleCovers (ownerRule subRule : PolicyRule) : Bool :=
  let verbMatches := has ownerRule.verbs verbAll || hasAll ownerRule.verbs subRule.verbs
  let groupMatches := has ownerRule.apiGroups apiGroupAll || hasAll ownerRule.apiGroups subRule.apiGroups
  let resourceMatches := resourceCoversAll ownerRule.resources subRule.resources
  let nonResourceURLMatches :=
    nonResourceURLsCoversAll ownerRule.nonResourceURLs subRule.nonResourceURLs
  let resourceNameMatches :=
    if subRule.resourceNames.length == 0 then
      ownerRule.resourceNames.length == 0
    else
      ownerRule.resourceNames.length == 0 || hasAll ownerRule.resourceNames subRule.resourceNames
  verbMatches && groupMatches && resourceMatches && resourceNameMatches && nonResourceURLMatches
attribute [grind] ruleCovers

/-- The resource pieces of `BreakdownRule`, for one group, resource and verb. -/
def resourcePieces (rule : PolicyRule) (group resource verb : String) : List PolicyRule :=
  if rule.resourceNames.length > 0 then
    rule.resourceNames.map fun resourceName =>
      { verbs := [verb], apiGroups := [group], resources := [resource],
        resourceNames := [resourceName], nonResourceURLs := [] }
  else
    [{ verbs := [verb], apiGroups := [group], resources := [resource], resourceNames := [],
       nonResourceURLs := [] }]
attribute [grind] resourcePieces

/-- `BreakdownRule`: every group × resource × verb (× name), then every non-resource URL ×
verb. -/
def breakdownRule (rule : PolicyRule) : List PolicyRule :=
  (rule.apiGroups.flatMap fun group => rule.resources.flatMap fun resource =>
      rule.verbs.flatMap fun verb => resourcePieces rule group resource verb) ++
    rule.nonResourceURLs.flatMap fun nonResourceURL => rule.verbs.map fun verb =>
      { verbs := [verb], apiGroups := [], resources := [], resourceNames := [],
        nonResourceURLs := [nonResourceURL] }
attribute [grind] breakdownRule

/-- `Covers`: whether the owner rules cover the servant rules, and the pieces they miss. -/
def covers (ownerRules servantRules : List PolicyRule) : Bool × List PolicyRule :=
  let subrules := servantRules.flatMap breakdownRule
  let uncoveredRules := subrules.filter fun subrule =>
    !(ownerRules.any fun ownerRule => ruleCovers ownerRule subrule)
  (uncoveredRules.length == 0, uncoveredRules)
attribute [grind] covers

/-! ## Characterisations -/

@[simp] theorem has_iff {set : List String} {ele : String} : has set ele = true ↔ ele ∈ set := by
  simp [has]

@[simp] theorem hasAll_iff {set contains : List String} :
    hasAll set contains = true ↔ ∀ x ∈ contains, x ∈ set := by
  simp [hasAll]

/-- A piece of `BreakdownRule` is one of two shapes, with every field drawn from the rule. -/
theorem mem_breakdownRule {rule sub : PolicyRule} :
    sub ∈ breakdownRule rule ↔
      (∃ g ∈ rule.apiGroups, ∃ res ∈ rule.resources, ∃ v ∈ rule.verbs,
          (rule.resourceNames = [] ∧
              sub = { verbs := [v], apiGroups := [g], resources := [res], resourceNames := [],
                      nonResourceURLs := [] }) ∨
            ∃ n ∈ rule.resourceNames,
              sub = { verbs := [v], apiGroups := [g], resources := [res], resourceNames := [n],
                      nonResourceURLs := [] }) ∨
        ∃ u ∈ rule.nonResourceURLs, ∃ v ∈ rule.verbs,
          sub = { verbs := [v], apiGroups := [], resources := [], resourceNames := [],
                  nonResourceURLs := [u] } := by
  unfold breakdownRule resourcePieces
  by_cases hnames : rule.resourceNames = []
  · simp [hnames, eq_comm]
  · have hlen : 0 < rule.resourceNames.length := List.length_pos_iff.mpr hnames
    simp [hlen, hnames, eq_comm]

/-- `resourceCoversAll` against one resource. -/
theorem resourceCoversAll_single_iff {set : List String} {x : String} :
    resourceCoversAll set [x] = true ↔
      resourceAll ∈ set ∨ x ∈ set ∨
        ('/' ∈ x.toList ∧ "*/" ++ (stringsSplitN x '/' 2).getD 1 "" ∈ set) := by
  unfold resourceCoversAll
  by_cases hall : resourceAll ∈ set
  · simp [hall]
  · by_cases hx : x ∈ set
    · simp [hx]
    · simp [hall, hx, containsChar_iff]

/-! ## One piece at a time -/

/-- The shared wildcard field test: covering a one-element list preserves matching. -/
theorem wildcardMatches_of_covers {set : List String} {all x req : String}
    (hcov : (has set all || hasAll set [x]) = true)
    (hmatch : wildcardMatches [x] all req = true) : wildcardMatches set all req = true := by
  rw [wildcardMatches_iff] at hmatch ⊢
  obtain ⟨v, hv, hvx⟩ := hmatch
  rw [List.mem_singleton] at hv
  subst hv
  simp only [Bool.or_eq_true, has_iff, hasAll_iff, List.mem_singleton, forall_eq] at hcov
  rcases hcov with hall | hx
  · exact ⟨all, hall, Or.inl rfl⟩
  · exact ⟨v, hx, hvx⟩

/-- `"*/" ++ sub` cut at its first `/` leaves `sub`. -/
theorem stringsSplitN_starSlash (sub : String) :
    (stringsSplitN ("*/" ++ sub) '/' 2).getD 1 "" = sub := by
  have h : ("*/" : String) ++ sub = "*" ++ String.singleton '/' ++ sub := by
    rw [← String.toList_inj]
    simp [String.toList_append]
  rw [h, stringsSplitN_two_of_not_mem (by decide)]
  rfl

/-- `resource/sub` cut at its first `/` leaves `sub` when the resource has no `/`. -/
theorem stringsSplitN_combined {res sub : String} (hres : '/' ∉ res.toList) :
    (stringsSplitN (res ++ "/" ++ sub) '/' 2).getD 1 "" = sub := by
  have h : res ++ "/" ++ sub = res ++ String.singleton '/' ++ sub := by
    rw [← String.toList_inj]
    simp [String.toList_append]
  rw [h, stringsSplitN_two_of_not_mem hres]
  rfl

/-- An entry matched through its `*/sub` form by the owner: what the second branch of
`resourceCoversAll` finds is exactly what `ResourceMatches` accepts. -/
theorem resourceEntryMatches_starSlash {r : Attributes} {x : String}
    (hres : '/' ∉ r.resource.toList) (hslash : '/' ∈ x.toList)
    (hx : ResourceEntryMatches x (combinedResource r) r.subresource) :
    ResourceEntryMatches ("*/" ++ (stringsSplitN x '/' 2).getD 1 "") (combinedResource r)
      r.subresource := by
  by_cases hsub : r.subresource = ""
  · -- without a subresource the piece names the bare resource or `*`, neither has a `/`
    rw [combinedResource_of_empty hsub] at hx
    rcases hx with rfl | rfl | ⟨hne, -⟩
    · exact absurd hslash (by decide)
    · exact absurd hslash hres
    · exact absurd hsub hne
  · refine Or.inr (Or.inr ⟨hsub, ?_⟩)
    rw [combinedResource_of_ne_empty hsub] at hx
    rcases hx with rfl | rfl | ⟨-, rfl⟩
    · exact absurd hslash (by decide)
    · rw [stringsSplitN_combined hres]
    · rw [stringsSplitN_starSlash]

/-- The resource field: an owner covering the piece's resource matches every request the
piece's resource matches. -/
theorem resourceMatches_of_resourceCoversAll {owner : List String} {x : String} {r : Attributes}
    (hres : '/' ∉ r.resource.toList) (hcov : resourceCoversAll owner [x] = true)
    (hx : ResourceEntryMatches x (combinedResource r) r.subresource) :
    ∃ rr ∈ owner, ResourceEntryMatches rr (combinedResource r) r.subresource := by
  rcases resourceCoversAll_single_iff.mp hcov with hall | hmem | ⟨hslash, hstar⟩
  · exact ⟨resourceAll, hall, Or.inl rfl⟩
  · exact ⟨x, hmem, hx⟩
  · exact ⟨_, hstar, resourceEntryMatches_starSlash hres hslash hx⟩

/-- Trailing-`*` URL patterns compose: an owner pattern covering the piece's URL matches
every path the piece's URL matches. -/
theorem urlEntryMatches_of_covers {owner u path : String}
    (hcov : nonResourceURLCovers owner u = true) (hu : URLEntryMatches u path) :
    URLEntryMatches owner path := by
  simp only [nonResourceURLCovers, Bool.or_eq_true, beq_iff_eq, Bool.and_eq_true,
    hasPrefix_iff] at hcov
  rcases hcov with rfl | ⟨hstar, hpre⟩
  · exact hu
  refine Or.inr (Or.inr ⟨hstar, ?_⟩)
  -- every matching form of `u` is a base that prefixes the path followed by a run of `*`
  obtain ⟨base, run, hu_eq, hbase, hrun⟩ :
      ∃ base run : List Char, u.toList = base ++ run ∧ base <+: path.toList ∧ ∀ c ∈ run, c = '*' := by
    rcases hu with rfl | rfl | ⟨-, hprefix⟩
    · exact ⟨[], ['*'], rfl, List.nil_prefix, by simp⟩
    · exact ⟨u.toList, [], by simp, List.prefix_refl _, by simp⟩
    · obtain ⟨run, hrun_eq, hrun⟩ := toList_eq_trimRight_append u '*'
      exact ⟨_, run, hrun_eq, hprefix, hrun⟩
  rw [hu_eq] at hpre
  exact (trimRight_prefix_of_prefix_append hpre hrun).trans hbase

/-- The URL field. -/
theorem nonResourceURLMatches_of_covers {owner : List String} {u path : String}
    (hcov : nonResourceURLsCoversAll owner [u] = true) (hu : URLEntryMatches u path) :
    ∃ o ∈ owner, URLEntryMatches o path := by
  simp only [nonResourceURLsCoversAll, List.all_cons, List.all_nil, Bool.and_true,
    List.any_eq_true] at hcov
  obtain ⟨o, ho, hcov⟩ := hcov
  exact ⟨o, ho, urlEntryMatches_of_covers hcov hu⟩

/-- The name field. -/
theorem resourceNameMatches_of_covers {ownerRule subRule : PolicyRule} {name : String}
    (hshape : subRule.resourceNames = [] ∨ ∃ n, subRule.resourceNames = [n])
    (hcov : (if subRule.resourceNames.length == 0 then ownerRule.resourceNames.length == 0
        else ownerRule.resourceNames.length == 0 ||
          hasAll ownerRule.resourceNames subRule.resourceNames) = true)
    (hmatch : resourceNameMatches subRule name = true) :
    resourceNameMatches ownerRule name = true := by
  rw [resourceNameMatches_iff] at hmatch ⊢
  rcases hshape with hnil | ⟨n, hn⟩
  · simp [hnil] at hcov
    exact Or.inl hcov
  · rw [hn] at hcov hmatch
    simp only [List.mem_singleton, List.cons_ne_nil, false_or] at hmatch
    subst hmatch
    simp [List.length_eq_zero_iff] at hcov
    exact hcov

/-- `ruleCovers` read field by field. -/
theorem ruleCovers_iff {ownerRule subRule : PolicyRule} :
    ruleCovers ownerRule subRule = true ↔
      (has ownerRule.verbs verbAll || hasAll ownerRule.verbs subRule.verbs) = true ∧
      (has ownerRule.apiGroups apiGroupAll || hasAll ownerRule.apiGroups subRule.apiGroups) = true ∧
      resourceCoversAll ownerRule.resources subRule.resources = true ∧
      (if subRule.resourceNames.length == 0 then ownerRule.resourceNames.length == 0
        else ownerRule.resourceNames.length == 0 ||
          hasAll ownerRule.resourceNames subRule.resourceNames) = true ∧
      nonResourceURLsCoversAll ownerRule.nonResourceURLs subRule.nonResourceURLs = true := by
  simp only [ruleCovers, Bool.and_eq_true, and_assoc]

/-- An owner rule that covers a piece of `BreakdownRule` allows every request the piece
allows, provided the requested resource and subresource hold no `/`. -/
theorem ruleAllows_of_ruleCovers {servant ownerRule sub : PolicyRule} {r : Attributes}
    (hres : '/' ∉ r.resource.toList) (hsub : sub ∈ breakdownRule servant)
    (hcov : ruleCovers ownerRule sub = true) (hallow : ruleAllows r sub = true) :
    ruleAllows r ownerRule = true := by
  obtain ⟨hverb, hgroup, hresource, hname, hurl⟩ := ruleCovers_iff.mp hcov
  cases hreq : r.isResourceRequest with
  | true =>
      obtain ⟨hv, hg, hrm, hn⟩ := (ruleAllows_resource hreq).mp hallow
      rw [ruleAllows_resource hreq]
      rcases mem_breakdownRule.mp hsub with
        ⟨g, -, res, -, v, -, hpiece⟩ | ⟨u, -, v, -, rfl⟩
      · -- a resource piece: one verb, one group, one resource, at most one name
        have hshape : sub.resourceNames = [] ∨ ∃ n, sub.resourceNames = [n] := by
          rcases hpiece with ⟨-, rfl⟩ | ⟨n, -, rfl⟩
          · exact Or.inl rfl
          · exact Or.inr ⟨n, rfl⟩
        have hfields : sub.verbs = [v] ∧ sub.apiGroups = [g] ∧ sub.resources = [res] := by
          rcases hpiece with ⟨-, rfl⟩ | ⟨n, -, rfl⟩ <;> exact ⟨rfl, rfl, rfl⟩
        obtain ⟨hvs, hgs, hrs⟩ := hfields
        rw [verbMatches, hvs] at hv
        rw [apiGroupMatches, hgs] at hg
        rw [hvs] at hverb
        rw [hgs] at hgroup
        rw [hrs] at hresource
        refine ⟨wildcardMatches_of_covers hverb hv, wildcardMatches_of_covers hgroup hg, ?_,
          resourceNameMatches_of_covers hshape hname hn⟩
        obtain ⟨x, hx, hxm⟩ := resourceMatches_iff.mp hrm
        rw [hrs, List.mem_singleton] at hx
        subst hx
        exact resourceMatches_iff.mpr (resourceMatches_of_resourceCoversAll hres hresource hxm)
      · -- a URL piece has no resources, so it allows no resource request
        simp [resourceMatches] at hrm
  | false =>
      obtain ⟨hv, hu⟩ := (ruleAllows_nonResource hreq).mp hallow
      rw [ruleAllows_nonResource hreq]
      rcases mem_breakdownRule.mp hsub with
        ⟨g, -, res, -, v, -, hpiece⟩ | ⟨u, -, v, -, rfl⟩
      · -- a resource piece has no URLs, so it allows no non-resource request
        have hurls : sub.nonResourceURLs = [] := by
          rcases hpiece with ⟨-, rfl⟩ | ⟨n, -, rfl⟩ <;> rfl
        simp [nonResourceURLMatches, hurls] at hu
      · refine ⟨wildcardMatches_of_covers hverb hv, ?_⟩
        obtain ⟨u', hu', hum⟩ := nonResourceURLMatches_iff.mp hu
        rw [List.mem_singleton] at hu'
        subst hu'
        exact nonResourceURLMatches_iff.mpr (nonResourceURLMatches_of_covers hurl hum)

/-! ## Whole rules -/

/-- Every request a rule allows is allowed by one of its pieces. -/
theorem exists_breakdownRule_allows {rule : PolicyRule} {r : Attributes}
    (h : ruleAllows r rule = true) : ∃ sub ∈ breakdownRule rule, ruleAllows r sub = true := by
  cases hreq : r.isResourceRequest with
  | true =>
      obtain ⟨hv, hg, hrm, hn⟩ := (ruleAllows_resource hreq).mp h
      obtain ⟨v, hv, hvm⟩ := wildcardMatches_iff.mp hv
      obtain ⟨g, hg, hgm⟩ := wildcardMatches_iff.mp hg
      obtain ⟨res, hres, hresm⟩ := resourceMatches_iff.mp hrm
      have hpiece : ∀ names : List String, (names = [] ∨ r.name ∈ names) →
          ruleAllows r
            { verbs := [v], apiGroups := [g], resources := [res], resourceNames := names,
              nonResourceURLs := [] } = true := by
        intro names hnames
        rw [ruleAllows_resource hreq]
        refine ⟨wildcardMatches_iff.mpr ⟨v, by simp, hvm⟩, wildcardMatches_iff.mpr ⟨g, by simp, hgm⟩,
          resourceMatches_iff.mpr ⟨res, by simp, hresm⟩, resourceNameMatches_iff.mpr hnames⟩
      -- a rule with names is broken down by name: take the requested one
      rcases resourceNameMatches_iff.mp hn with hnil | hname
      · exact ⟨_, mem_breakdownRule.mpr (Or.inl ⟨g, hg, res, hres, v, hv, Or.inl ⟨hnil, rfl⟩⟩),
          hpiece [] (Or.inl rfl)⟩
      · exact ⟨_, mem_breakdownRule.mpr (Or.inl ⟨g, hg, res, hres, v, hv, Or.inr ⟨r.name, hname, rfl⟩⟩),
          hpiece [r.name] (Or.inr (by simp))⟩
  | false =>
      obtain ⟨hv, hu⟩ := (ruleAllows_nonResource hreq).mp h
      obtain ⟨v, hv, hvm⟩ := wildcardMatches_iff.mp hv
      obtain ⟨u, hu, hum⟩ := nonResourceURLMatches_iff.mp hu
      refine ⟨_, mem_breakdownRule.mpr (Or.inr ⟨u, hu, v, hv, rfl⟩), ?_⟩
      rw [ruleAllows_nonResource hreq]
      exact ⟨wildcardMatches_iff.mpr ⟨v, by simp, hvm⟩,
        nonResourceURLMatches_iff.mpr ⟨u, by simp, hum⟩⟩

/-- Every request a piece allows is allowed by the rule it came from. -/
theorem ruleAllows_of_mem_breakdownRule {rule sub : PolicyRule} {r : Attributes}
    (hsub : sub ∈ breakdownRule rule) (h : ruleAllows r sub = true) : ruleAllows r rule = true := by
  cases hreq : r.isResourceRequest with
  | true =>
      rw [ruleAllows_resource hreq] at h ⊢
      obtain ⟨hv, hg, hrm, hn⟩ := h
      rcases mem_breakdownRule.mp hsub with
        ⟨g, hg', res, hres', v, hv', hpiece⟩ | ⟨u, -, v, -, rfl⟩
      · have hfields : sub.verbs = [v] ∧ sub.apiGroups = [g] ∧ sub.resources = [res] := by
          rcases hpiece with ⟨-, rfl⟩ | ⟨n, -, rfl⟩ <;> exact ⟨rfl, rfl, rfl⟩
        obtain ⟨hvs, hgs, hrs⟩ := hfields
        obtain ⟨_, hx, hvm⟩ := wildcardMatches_iff.mp hv
        obtain ⟨_, hy, hgm⟩ := wildcardMatches_iff.mp hg
        obtain ⟨_, hz, hrsm⟩ := resourceMatches_iff.mp hrm
        rw [hvs, List.mem_singleton] at hx
        rw [hgs, List.mem_singleton] at hy
        rw [hrs, List.mem_singleton] at hz
        subst hx hy hz
        refine ⟨wildcardMatches_iff.mpr ⟨_, hv', hvm⟩, wildcardMatches_iff.mpr ⟨_, hg', hgm⟩,
          resourceMatches_iff.mpr ⟨_, hres', hrsm⟩, ?_⟩
        rw [resourceNameMatches_iff] at hn ⊢
        rcases hpiece with ⟨hnil, rfl⟩ | ⟨n, hn', rfl⟩
        · exact Or.inl hnil
        · simp only [List.cons_ne_nil, List.mem_singleton, false_or] at hn
          exact Or.inr (hn ▸ hn')
      · simp [resourceMatches] at hrm
  | false =>
      rw [ruleAllows_nonResource hreq] at h ⊢
      obtain ⟨hv, hu⟩ := h
      rcases mem_breakdownRule.mp hsub with
        ⟨g, -, res, -, v, -, hpiece⟩ | ⟨u, hu', v, hv', rfl⟩
      · have hurls : sub.nonResourceURLs = [] := by
          rcases hpiece with ⟨-, rfl⟩ | ⟨n, -, rfl⟩ <;> rfl
        simp [nonResourceURLMatches, hurls] at hu
      · obtain ⟨_, hx, hvm⟩ := wildcardMatches_iff.mp hv
        obtain ⟨_, hy, hum⟩ := nonResourceURLMatches_iff.mp hu
        simp only [List.mem_singleton] at hx hy
        subst hx hy
        exact ⟨wildcardMatches_iff.mpr ⟨_, hv', hvm⟩, nonResourceURLMatches_iff.mpr ⟨_, hu', hum⟩⟩

/-- `BreakdownRule` "builds an equivalent list of rules": its pieces allow exactly the
requests the rule allows. -/
theorem breakdownRule_allows_iff {rule : PolicyRule} {r : Attributes} :
    (∃ sub ∈ breakdownRule rule, ruleAllows r sub = true) ↔ ruleAllows r rule = true :=
  ⟨fun ⟨_, hsub, h⟩ => ruleAllows_of_mem_breakdownRule hsub h, exists_breakdownRule_allows⟩

/-- The uncovered rules are the pieces of servant rules that no owner rule covers. -/
theorem mem_covers_snd {ownerRules servantRules : List PolicyRule} {u : PolicyRule} :
    u ∈ (covers ownerRules servantRules).2 ↔
      (∃ s ∈ servantRules, u ∈ breakdownRule s) ∧ ∀ o ∈ ownerRules, ruleCovers o u = false := by
  simp [covers]

theorem covers_fst_iff {ownerRules servantRules : List PolicyRule} :
    (covers ownerRules servantRules).1 = true ↔ (covers ownerRules servantRules).2 = [] := by
  simp [covers]

/-- `Covers` is sound for the authorizer: when it reports the servant rules covered, every
request a servant rule allows is allowed by some owner rule, for resource and non-resource
requests alike, provided the requested resource has no `/` (the subresource may have one).
Moreover `Covers` reports `false` exactly when it returns uncovered rules, and each of
those is a `BreakdownRule` piece of some servant rule. -/
theorem covers_sound (ownerRules servantRules : List PolicyRule) :
    ((covers ownerRules servantRules).1 = true →
        ∀ r : Attributes, '/' ∉ r.resource.toList →
          ∀ s ∈ servantRules, ruleAllows r s = true → ∃ o ∈ ownerRules, ruleAllows r o = true) ∧
      ((covers ownerRules servantRules).1 = false ↔ (covers ownerRules servantRules).2 ≠ []) ∧
      ∀ u ∈ (covers ownerRules servantRules).2, ∃ s ∈ servantRules, u ∈ breakdownRule s := by
  refine ⟨?_, ?_, fun u hu => (mem_covers_snd.mp hu).1⟩
  · intro hcov r hres s hs hallow
    obtain ⟨sub, hsub, hsuballow⟩ := exists_breakdownRule_allows hallow
    -- the piece is not among the uncovered rules, so some owner rule covers it
    have hnot : sub ∉ (covers ownerRules servantRules).2 := by
      rw [covers_fst_iff.mp hcov]
      exact List.not_mem_nil
    have hcovered : ∃ o ∈ ownerRules, ruleCovers o sub = true := by
      by_contra hnone
      exact hnot (mem_covers_snd.mpr ⟨⟨s, hs, hsub⟩,
        fun o ho => Bool.eq_false_iff.mpr fun h => hnone ⟨o, ho, h⟩⟩)
    obtain ⟨o, ho, hocov⟩ := hcovered
    exact ⟨o, ho, ruleAllows_of_ruleCovers hres hsub hocov hsuballow⟩
  · rw [← Bool.not_eq_true, covers_fst_iff]

/-- A role that may read pod logs through `*/log` covers one that reads `pods/log`, and the
authorizer lets it read the logs of pod `web`. -/
theorem covers_sound_podLogs :
    let owner : PolicyRule :=
      { verbs := ["get"], apiGroups := [""], resources := ["*/log"], resourceNames := [],
        nonResourceURLs := [] }
    let servant : PolicyRule :=
      { verbs := ["get"], apiGroups := [""], resources := ["pods/log"], resourceNames := ["web"],
        nonResourceURLs := [] }
    let r : Attributes :=
      { verb := "get", isResourceRequest := true, apiGroup := "", resource := "pods",
        subresource := "log", name := "web", path := "" }
    (covers [owner] [servant]).1 = true ∧ ruleAllows r servant = true ∧
      ∃ o ∈ [owner], ruleAllows r o = true := by
  intro owner servant r
  have hcov : (covers [owner] [servant]).1 = true := by decide
  have hallow : ruleAllows r servant = true := by decide
  exact ⟨hcov, hallow,
    (covers_sound [owner] [servant]).1 hcov r (by decide) servant
      (List.mem_singleton_self servant) hallow⟩

end Rbac
end Kubernetes
