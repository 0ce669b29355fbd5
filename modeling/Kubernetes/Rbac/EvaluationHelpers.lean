import Kubernetes.Go.Strings

/-!
# RBAC policy rules and the authorizer's matchers

`rbacv1.PolicyRule` and the helpers of `pkg/apis/rbac/v1/evaluation_helpers.go` that the
RBAC authorizer uses to decide whether one rule allows one request (`RuleAllows` in
`plugin/pkg/auth/authorizer/rbac/rbac.go`).

Each matcher is a loop over one field of the rule that returns at the first entry that
matches; it is modelled by `List.any` over that field.  `VerbMatches` and
`APIGroupMatches` are the same loop over different fields and are one definition,
`wildcardMatches`, applied to each.  Every matcher has an `_iff` lemma stating it as an
existential over the field; the proofs in `PolicyComparator` use only those.
-/

namespace Kubernetes
namespace Rbac

open Go

/-- `rbacv1.APIGroupAll`, `ResourceAll`, `VerbAll` and `NonResourceAll` are all `"*"`. -/
def apiGroupAll : String := "*"
attribute [grind] apiGroupAll
def resourceAll : String := "*"
attribute [grind] resourceAll
def verbAll : String := "*"
attribute [grind] verbAll
def nonResourceAll : String := "*"
attribute [grind] nonResourceAll

/-- `rbacv1.PolicyRule`: the fields the authorizer and the escalation check read. -/
structure PolicyRule where
  verbs : List String
  apiGroups : List String
  resources : List String
  resourceNames : List String
  nonResourceURLs : List String
  deriving DecidableEq, Repr

/-- The request attributes `RuleAllows` reads from an `authorizer.Attributes`. -/
structure Attributes where
  verb : String
  isResourceRequest : Bool
  apiGroup : String
  resource : String
  subresource : String
  name : String
  path : String
  deriving DecidableEq, Repr

/-- The loop shared by `VerbMatches` and `APIGroupMatches`: some entry is the wildcard or
the requested value. -/
def wildcardMatches (ruleValues : List String) (all requested : String) : Bool :=
  ruleValues.any fun ruleValue => ruleValue == all || ruleValue == requested
attribute [grind] wildcardMatches

/-- `VerbMatches`. -/
def verbMatches (rule : PolicyRule) (requestedVerb : String) : Bool :=
  wildcardMatches rule.verbs verbAll requestedVerb
attribute [grind] verbMatches

/-- `APIGroupMatches`. -/
def apiGroupMatches (rule : PolicyRule) (requestedGroup : String) : Bool :=
  wildcardMatches rule.apiGroups apiGroupAll requestedGroup
attribute [grind] apiGroupMatches

/-- `ResourceMatches`: the wildcard, the combined `resource/subresource`, or, when a
subresource is requested, an entry of the form `*/subresource` (recognised by its length,
prefix and suffix). -/
def resourceMatches (rule : PolicyRule) (combinedRequestedResource requestedSubresource : String) :
    Bool :=
  rule.resources.any fun ruleResource =>
    ruleResource == resourceAll || ruleResource == combinedRequestedResource ||
      (0 < requestedSubresource.utf8ByteSize &&
        ruleResource.utf8ByteSize == requestedSubresource.utf8ByteSize + 2 &&
        hasPrefix ruleResource "*/" && hasSuffix ruleResource requestedSubresource)
attribute [grind] resourceMatches

/-- `ResourceNameMatches`: a rule without names matches every name. -/
def resourceNameMatches (rule : PolicyRule) (requestedName : String) : Bool :=
  rule.resourceNames.length == 0 || rule.resourceNames.any fun ruleName => ruleName == requestedName
attribute [grind] resourceNameMatches

/-- `NonResourceURLMatches`: the wildcard, the exact path, or a pattern ending in `*` whose
text before the trailing stars is a prefix of the path. -/
def nonResourceURLMatches (rule : PolicyRule) (requestedURL : String) : Bool :=
  rule.nonResourceURLs.any fun ruleURL =>
    ruleURL == nonResourceAll || ruleURL == requestedURL ||
      (hasSuffix ruleURL "*" && hasPrefix requestedURL (trimRight ruleURL '*'))
attribute [grind] nonResourceURLMatches

/-- The resource string `RuleAllows` matches against: `resource/subresource` when a
subresource is requested. -/
def combinedResource (requestAttributes : Attributes) : String :=
  if 0 < requestAttributes.subresource.utf8ByteSize then
    requestAttributes.resource ++ "/" ++ requestAttributes.subresource
  else
    requestAttributes.resource
attribute [grind] combinedResource

/-- `RuleAllows` (`plugin/pkg/auth/authorizer/rbac/rbac.go`). -/
def ruleAllows (requestAttributes : Attributes) (rule : PolicyRule) : Bool :=
  if requestAttributes.isResourceRequest then
    verbMatches rule requestAttributes.verb &&
      apiGroupMatches rule requestAttributes.apiGroup &&
      resourceMatches rule (combinedResource requestAttributes) requestAttributes.subresource &&
      resourceNameMatches rule requestAttributes.name
  else
    verbMatches rule requestAttributes.verb &&
      nonResourceURLMatches rule requestAttributes.path
attribute [grind] ruleAllows

/-! ## Characterisations -/

theorem wildcardMatches_iff {ruleValues : List String} {all requested : String} :
    wildcardMatches ruleValues all requested = true ↔
      ∃ v ∈ ruleValues, v = all ∨ v = requested := by
  simp [wildcardMatches]

/-- The `*/subresource` test of `ResourceMatches` accepts exactly the entry `*/` followed by
a non-empty requested subresource: the length check rules out any other text between the
prefix and the suffix. -/
theorem starSlash_test_iff {ruleResource sub : String} :
    (0 < sub.utf8ByteSize && ruleResource.utf8ByteSize == sub.utf8ByteSize + 2 &&
        hasPrefix ruleResource "*/" && hasSuffix ruleResource sub) = true ↔
      sub ≠ "" ∧ ruleResource = "*/" ++ sub := by
  have hslash : ("*/" : String).utf8ByteSize = 2 := by decide
  simp only [Bool.and_eq_true, decide_eq_true_eq, beq_iff_eq]
  constructor
  · rintro ⟨⟨⟨hpos, hsize⟩, hpre⟩, hsuf⟩
    obtain ⟨t, ht⟩ := hasPrefix_iff.mp hpre
    have hrr : ruleResource = "*/" ++ String.ofList t := by
      rw [← String.toList_inj, ← ht]
      simp [String.toList_append]
    have hsizeR : (String.ofList t).utf8ByteSize = sub.utf8ByteSize := by
      rw [hrr, String.utf8ByteSize_append] at hsize
      omega
    -- the requested subresource is a suffix of `*/ ++ t` of the same size as `t`
    have hsufR : sub.toList <:+ (String.ofList t).toList :=
      suffix_of_suffix_append (hrr ▸ hasSuffix_iff.mp hsuf) hsizeR.ge
    refine ⟨fun h => by simp [h] at hpos, ?_⟩
    rw [hrr, eq_of_suffix_of_utf8ByteSize_le hsufR hsizeR.le]
  · rintro ⟨hne, rfl⟩
    have hpos : 0 < sub.utf8ByteSize :=
      Nat.pos_of_ne_zero (fun h => hne (String.utf8ByteSize_eq_zero_iff.mp h))
    refine ⟨⟨⟨hpos, ?_⟩, ?_⟩, ?_⟩
    · rw [String.utf8ByteSize_append]
      omega
    · exact hasPrefix_iff.mpr ⟨sub.toList, by simp [String.toList_append]⟩
    · exact hasSuffix_iff.mpr ⟨"*/".toList, by simp [String.toList_append]⟩

/-- What one entry of `rule.resources` must be to match: the loop body of `ResourceMatches`
read as a proposition. -/
def ResourceEntryMatches (ruleResource combined sub : String) : Prop :=
  ruleResource = resourceAll ∨ ruleResource = combined ∨ (sub ≠ "" ∧ ruleResource = "*/" ++ sub)
attribute [grind] ResourceEntryMatches

theorem resourceMatches_iff {rule : PolicyRule} {combined sub : String} :
    resourceMatches rule combined sub = true ↔
      ∃ rr ∈ rule.resources, ResourceEntryMatches rr combined sub := by
  simp only [resourceMatches, List.any_eq_true, Bool.or_eq_true, beq_iff_eq, starSlash_test_iff,
    or_assoc, ResourceEntryMatches]

theorem resourceNameMatches_iff {rule : PolicyRule} {requestedName : String} :
    resourceNameMatches rule requestedName = true ↔
      rule.resourceNames = [] ∨ requestedName ∈ rule.resourceNames := by
  simp [resourceNameMatches]

/-- What one entry of `rule.nonResourceURLs` must be to match the requested URL. -/
def URLEntryMatches (ruleURL requestedURL : String) : Prop :=
  ruleURL = nonResourceAll ∨ ruleURL = requestedURL ∨
    (hasSuffix ruleURL "*" = true ∧ (trimRight ruleURL '*').toList <+: requestedURL.toList)
attribute [grind] URLEntryMatches

theorem nonResourceURLMatches_iff {rule : PolicyRule} {requestedURL : String} :
    nonResourceURLMatches rule requestedURL = true ↔
      ∃ u ∈ rule.nonResourceURLs, URLEntryMatches u requestedURL := by
  simp [nonResourceURLMatches, hasPrefix_iff, or_assoc, URLEntryMatches]

theorem combinedResource_of_empty {r : Attributes} (h : r.subresource = "") :
    combinedResource r = r.resource := by
  simp [combinedResource, h]

theorem combinedResource_of_ne_empty {r : Attributes} (h : r.subresource ≠ "") :
    combinedResource r = r.resource ++ "/" ++ r.subresource := by
  have hpos : 0 < r.subresource.utf8ByteSize :=
    Nat.pos_of_ne_zero (fun h0 => h (String.utf8ByteSize_eq_zero_iff.mp h0))
  simp [combinedResource, hpos]

/-- For a resource request, `RuleAllows` is the conjunction of the four resource matchers. -/
theorem ruleAllows_resource {r : Attributes} (hr : r.isResourceRequest = true) {rule : PolicyRule} :
    ruleAllows r rule = true ↔
      verbMatches rule r.verb = true ∧ apiGroupMatches rule r.apiGroup = true ∧
        resourceMatches rule (combinedResource r) r.subresource = true ∧
          resourceNameMatches rule r.name = true := by
  simp [ruleAllows, hr, and_assoc]

/-- For a non-resource request, `RuleAllows` checks the verb and the URL only. -/
theorem ruleAllows_nonResource {r : Attributes} (hr : r.isResourceRequest = false)
    {rule : PolicyRule} :
    ruleAllows r rule = true ↔
      verbMatches rule r.verb = true ∧ nonResourceURLMatches rule r.path = true := by
  simp [ruleAllows, hr]

end Rbac
end Kubernetes
