import Mathlib
import Kubernetes.Go.ParseIP
import Kubernetes.Service.Alloc

/-!
# `initIPFamilyFields`: the IP families of a new service

Before a service's cluster IPs are allocated, `Allocators.initIPFamilyFields` settles its
`ipFamilyPolicy` and `ipFamilies` (`pkg/registry/core/service/storage/alloc.go`).  A missing
policy becomes `RequireDualStack` for a headless service without selector and `SingleStack`
otherwise.  The cluster-IP fields must pass `ValidateServiceClusterIPsRelatedFields`
(`pkg/apis/core/validation/validation.go`); families missing from `ipFamilies` are then read off
the cluster IPs, each must be configured on the cluster, and the list is completed from the
cluster's default family and, for a dual-stack policy, the other family.

This is the call `allocateCreate` makes, with `Before{nil}`: the branches for an update
(`isMatchingPreferDualStackClusterIPFields`, which is false without an old service, and the
update-only preparation) are not taken.  The policy and whether the selector is empty are
passed beside the `Service`, which holds what allocation reads.  Policies and families are
enumerations, so the `NotSupported` checks of validation cannot fail.

`initIPFamilyFields_ipFamilies` says what a successful call leaves: one or two distinct families,
each with an allocator, as many as the cluster has unless the policy is `SingleStack`, and the
rest of the service as it was.
-/

set_option linter.dupNamespace false

namespace Kubernetes
namespace Service

/-- `api.IPFamilyPolicy`. -/
inductive IPFamilyPolicy
  | singleStack
  | preferDualStack
  | requireDualStack
  deriving DecidableEq, Repr

/-- The text of a family: `api.IPv4Protocol` is `"IPv4"`, `api.IPv6Protocol` is `"IPv6"`. -/
def IPFamily.text : IPFamily → String
  | .ipv4 => "IPv4"
  | .ipv6 => "IPv6"
attribute [grind] IPFamily.text

/-- The family a dual-stack service adds to the one it has. -/
def IPFamily.other : IPFamily → IPFamily
  | .ipv4 => .ipv6
  | .ipv6 => .ipv4
attribute [grind] IPFamily.other

/-- `familyOf`: the family of an address text; none stands for Go's `"unknown"`. -/
def familyOf (ip : String) : Option IPFamily :=
  if Go.isIPv4String ip then some .ipv4
  else if Go.isIPv6String ip then some .ipv6
  else none
attribute [grind] familyOf

/-- The text of what `familyOf` returns. -/
def familyText : Option IPFamily → String
  | some family => family.text
  | none => "unknown"
attribute [grind] familyText

/-- The families the cluster has an allocator for; `len(al.serviceIPAllocatorsByFamily)` is
their number. -/
def Allocators.configured (al : Allocators) : List IPFamily :=
  [IPFamily.ipv4, IPFamily.ipv6].filter fun family => (al.serviceIPAllocatorsByFamily family).isSome
attribute [grind] Allocators.configured

/-- `field.NewPath("spec", name).Index(i)`. -/
def indexPath (name : String) (i : Nat) : String :=
  "spec." ++ name ++ "[" ++ toString i ++ "]"
attribute [grind] indexPath

/-! ## `ValidateServiceClusterIPsRelatedFields` -/

/-- The first check: `clusterIP` set means `clusterIPs` starts with it, unset means
`clusterIPs` is empty. -/
def clusterIPErrors (service : Service) : List FieldError :=
  if service.clusterIP ≠ "" then
    match service.clusterIPs with
    | [] => [⟨.required, "spec.clusterIPs", ""⟩]
    | ip :: _ =>
        if ip ≠ service.clusterIP then
          [fieldInvalid "spec.clusterIPs" "first value must match `clusterIP`"]
        else []
  else if service.clusterIPs ≠ [] then
    [fieldInvalid "spec.clusterIPs" "must be empty when `clusterIP` is not specified"]
  else []
attribute [grind] clusterIPErrors

/-- The loop over `ipFamilies` from position `i`, `seen` the families before it: a family seen
before is a duplicate. -/
def duplicateFamiliesLoop : List IPFamily → List IPFamily → Nat → List FieldError
  | [], _, _ => []
  | family :: families, seen, i =>
      (if family ∈ seen then [⟨.duplicate, indexPath "ipFamilies" i, ""⟩] else []) ++
        duplicateFamiliesLoop families (family :: seen) (i + 1)
attribute [grind] duplicateFamiliesLoop

/-- `validation.IsValidIP`. -/
def isValidIP (value : String) : List String :=
  if Go.parseIPSloppy value = .nil then
    ["must be a valid IP address, (e.g. 10.9.8.7 or 2001:db8::ffff)"]
  else []
attribute [grind] isValidIP

/-- The loop over `clusterIPs` from position `i`, `n` being their number: `None` is allowed
first and alone, every other value must be an address.  Returns the errors and
`hasInvalidIPs`. -/
def clusterIPsLoop (n : Nat) : List String → Nat → List FieldError × Bool
  | [], _ => ([], false)
  | clusterIP :: clusterIPs, i =>
      let rest := clusterIPsLoop n clusterIPs (i + 1)
      if i = 0 ∧ clusterIP = clusterIPNone then
        if n > 1 then
          (fieldInvalid "spec.clusterIPs" "'None' must be the first and only value" :: rest.1, true)
        else rest
      else
        let errorMessages := isValidIP clusterIP
        (errorMessages.map (fieldInvalid (indexPath "clusterIPs" i)) ++ rest.1,
          errorMessages ≠ [] || rest.2)
attribute [grind] clusterIPsLoop

/-- At most one cluster IP of each family; an address that does not parse is reported as an
internal error, which the loop above has already ruled out. -/
def dualStackErrors (clusterIPs : List String) : List FieldError :=
  if clusterIPs.length > 1 then
    let notDualStack := fieldInvalid "spec.clusterIPs" "may specify no more than one IP for each IP family"
    match Go.isDualStackIPStrings clusterIPs with
    | .error err =>
        [⟨.internal, "spec.clusterIPs", "failed to check for dual stack with error:" ++ err⟩,
          notDualStack]
    | .ok true => []
    | .ok false => [notDualStack]
  else []
attribute [grind] dualStackErrors

/-- The check of one cluster IP against the family at its position. -/
def familyMismatch (ip : String) (family : IPFamily) (i : Nat) : List FieldError :=
  match family with
  | .ipv4 =>
      if Go.isIPv6String ip then
        [fieldInvalid (indexPath "clusterIPs" i)
          ("expected an IPv4 value as indicated by `ipFamilies[" ++ toString i ++ "]`")]
      else []
  | .ipv6 =>
      if !Go.isIPv6String ip then
        [fieldInvalid (indexPath "clusterIPs" i)
          ("expected an IPv6 value as indicated by `ipFamilies[" ++ toString i ++ "]`")]
      else []
attribute [grind] familyMismatch

/-- `isHeadlessService`. -/
def isHeadlessService (service : Service) : Bool :=
  service.clusterIPs == [clusterIPNone]
attribute [grind] isHeadlessService

/-- The cluster IPs of a service that is not headless, matched with the families at their
positions as far as both go. -/
def familyMismatchErrors (service : Service) : List FieldError :=
  if !isHeadlessService service && service.clusterIPs ≠ [] && service.ipFamilies ≠ [] then
    ((service.clusterIPs.zip service.ipFamilies).zipIdx.map
      fun ((ip, family), i) => familyMismatch ip family i).flatten
  else []
attribute [grind] familyMismatchErrors

/-- `ValidateServiceClusterIPsRelatedFields`. -/
def validateServiceClusterIPsRelatedFields (service : Service) : List FieldError :=
  if service.type = .externalName then []
  else
    let ips := clusterIPsLoop service.clusterIPs.length service.clusterIPs 0
    let allErrs := clusterIPErrors service ++ duplicateFamiliesLoop service.ipFamilies [] 0 ++
      ips.1 ++
      (if service.clusterIPs.length > 2 then
        [fieldInvalid "spec.clusterIPs" "may only hold up to 2 values"] else [])
    if ips.2 then allErrs
    else allErrs ++ dualStackErrors service.clusterIPs ++ familyMismatchErrors service
attribute [grind] validateServiceClusterIPsRelatedFields

/-! ## What validation guarantees -/

/-- What a service that is not `ExternalName` has once it passes
`ValidateServiceClusterIPsRelatedFields`. -/
structure ClusterIPsValid (service : Service) : Prop where
  nodup : service.ipFamilies.Nodup
  head : service.clusterIP ≠ "" → service.clusterIPs.head? = some service.clusterIP
  empty : service.clusterIP = "" → service.clusterIPs = []
  length_le : service.clusterIPs.length ≤ 2
  parses : ∀ ip ∈ service.clusterIPs, ip ≠ clusterIPNone → Go.parseIPSloppy ip ≠ .nil
  none_only : clusterIPNone ∈ service.clusterIPs → service.clusterIPs = [clusterIPNone]
  dualStack : service.clusterIPs.length = 2 → Go.isDualStackIPStrings service.clusterIPs = .ok true
  families : isHeadlessService service = false → ∀ i (hi : i < service.clusterIPs.length)
    (hf : i < service.ipFamilies.length),
    familyMismatch service.clusterIPs[i] service.ipFamilies[i] i = []

theorem parseIPSloppy_clusterIPNone : Go.parseIPSloppy clusterIPNone = .nil := by decide

theorem duplicateFamiliesLoop_eq_nil :
    ∀ {families seen : List IPFamily} {i : Nat}, duplicateFamiliesLoop families seen i = [] →
      families.Nodup ∧ ∀ family ∈ families, family ∉ seen
  | [], _, _, _ => ⟨List.nodup_nil, fun _ h => absurd h List.not_mem_nil⟩
  | family :: families, seen, i, h => by
      rw [duplicateFamiliesLoop, List.append_eq_nil_iff] at h
      have hnew : family ∉ seen := by
        intro hmem
        simp [hmem] at h
      obtain ⟨hnodup, hfresh⟩ := duplicateFamiliesLoop_eq_nil h.2
      refine ⟨List.nodup_cons.mpr ⟨fun hmem => hfresh family hmem (List.mem_cons_self ..), hnodup⟩, ?_⟩
      intro f hf
      rcases List.mem_cons.mp hf with rfl | hf
      · exact hnew
      · exact fun hseen => hfresh f hf (List.mem_cons_of_mem _ hseen)

/-- One round of the loop over `clusterIPs`, by the case of the value at position `i`. -/
theorem clusterIPsLoop_cons (n : Nat) (clusterIP : String) (clusterIPs : List String) (i : Nat) :
    clusterIPsLoop n (clusterIP :: clusterIPs) i =
      if i = 0 ∧ clusterIP = clusterIPNone then
        if n > 1 then
          (fieldInvalid "spec.clusterIPs" "'None' must be the first and only value" ::
            (clusterIPsLoop n clusterIPs (i + 1)).1, true)
        else clusterIPsLoop n clusterIPs (i + 1)
      else
        ((isValidIP clusterIP).map (fieldInvalid (indexPath "clusterIPs" i)) ++
            (clusterIPsLoop n clusterIPs (i + 1)).1,
          isValidIP clusterIP ≠ [] || (clusterIPsLoop n clusterIPs (i + 1)).2) := rfl

/-- `hasInvalidIPs` is only set together with an error. -/
theorem clusterIPsLoop_errors_of_invalid (n : Nat) :
    ∀ {clusterIPs : List String} {i : Nat}, (clusterIPsLoop n clusterIPs i).2 = true →
      (clusterIPsLoop n clusterIPs i).1 ≠ []
  | [], _, h => by simp [clusterIPsLoop] at h
  | clusterIP :: clusterIPs, i, h => by
      have ih := @clusterIPsLoop_errors_of_invalid n clusterIPs (i + 1)
      rw [clusterIPsLoop_cons] at h ⊢
      by_cases hnone : i = 0 ∧ clusterIP = clusterIPNone
      · rw [if_pos hnone] at h ⊢
        by_cases hn : n > 1
        · rw [if_pos hn]
          exact List.cons_ne_nil _ _
        · rw [if_neg hn] at h ⊢
          exact ih h
      · rw [if_neg hnone] at h ⊢
        by_cases hvalid : isValidIP clusterIP = []
        · rw [hvalid, List.map_nil, List.nil_append]
          exact ih (by simpa [hvalid] using h)
        · obtain ⟨msg, msgs, hmsgs⟩ := List.exists_cons_of_ne_nil hvalid
          rw [hmsgs]
          exact List.cons_ne_nil _ _

/-- Without errors, every cluster IP is an address, but for `None` first and alone. -/
theorem clusterIPsLoop_eq_nil (n : Nat) :
    ∀ {clusterIPs : List String} {i : Nat}, (clusterIPsLoop n clusterIPs i).1 = [] →
      ∀ j (hj : j < clusterIPs.length),
        (i + j = 0 ∧ clusterIPs[j] = clusterIPNone ∧ n ≤ 1) ∨ Go.parseIPSloppy clusterIPs[j] ≠ .nil
  | [], _, _, j, hj => absurd hj (Nat.not_lt_zero j)
  | clusterIP :: clusterIPs, i, h, j, hj => by
      rw [clusterIPsLoop_cons] at h
      -- one round: the first value is `None` at position 0 of a single value, or an address,
      -- and the rest of the loop reports no error
      have hround : ((i = 0 ∧ clusterIP = clusterIPNone ∧ n ≤ 1) ∨
          Go.parseIPSloppy clusterIP ≠ .nil) ∧ (clusterIPsLoop n clusterIPs (i + 1)).1 = [] := by
        by_cases hnone : i = 0 ∧ clusterIP = clusterIPNone
        · rw [if_pos hnone] at h
          by_cases hn : n > 1
          · rw [if_pos hn] at h
            exact absurd h (List.cons_ne_nil _ _)
          · rw [if_neg hn] at h
            exact ⟨Or.inl ⟨hnone.1, hnone.2, by omega⟩, h⟩
        · rw [if_neg hnone] at h
          obtain ⟨hvalid, hrest⟩ := List.append_eq_nil_iff.mp h
          have hvalid : isValidIP clusterIP = [] := List.map_eq_nil_iff.mp hvalid
          unfold isValidIP at hvalid
          split_ifs at hvalid with hparse
          exact ⟨Or.inr hparse, hrest⟩
      cases j with
      | zero => simpa using hround.1
      | succ j =>
          rcases clusterIPsLoop_eq_nil n hround.2 j (by simpa using hj) with h' | h'
          · exact absurd h'.1 (by omega)
          · exact Or.inr h'

theorem clusterIPErrors_eq_nil {service : Service} (h : clusterIPErrors service = []) :
    (service.clusterIP ≠ "" → service.clusterIPs.head? = some service.clusterIP) ∧
      (service.clusterIP = "" → service.clusterIPs = []) := by
  unfold clusterIPErrors at h
  by_cases hset : service.clusterIP ≠ ""
  · rw [if_pos hset] at h
    refine ⟨fun _ => ?_, fun h' => absurd h' hset⟩
    cases hips : service.clusterIPs with
    | nil => rw [hips] at h; exact absurd h (List.cons_ne_nil _ _)
    | cons ip ips =>
        rw [hips] at h
        dsimp only at h
        by_cases hne : ip ≠ service.clusterIP
        · rw [if_pos hne] at h
          exact absurd h (List.cons_ne_nil _ _)
        · rw [List.head?_cons, not_not.mp hne]
  · rw [if_neg hset] at h
    refine ⟨fun h' => absurd h' hset, fun _ => ?_⟩
    by_contra hips
    rw [if_pos hips] at h
    exact List.cons_ne_nil _ _ h

theorem dualStackErrors_eq_nil {clusterIPs : List String} (h : dualStackErrors clusterIPs = [])
    (hlen : clusterIPs.length = 2) : Go.isDualStackIPStrings clusterIPs = .ok true := by
  unfold dualStackErrors at h
  rw [if_pos (by omega)] at h
  split at h
  · simp at h
  · assumption
  · simp at h

theorem familyMismatchErrors_eq_nil {service : Service} (h : familyMismatchErrors service = [])
    (hheadless : isHeadlessService service = false) :
    ∀ i (hi : i < service.clusterIPs.length) (hf : i < service.ipFamilies.length),
      familyMismatch service.clusterIPs[i] service.ipFamilies[i] i = [] := by
  intro i hi hf
  have hips : service.clusterIPs ≠ [] := List.ne_nil_of_length_pos (by omega)
  have hfams : service.ipFamilies ≠ [] := List.ne_nil_of_length_pos (by omega)
  unfold familyMismatchErrors at h
  rw [if_pos (by simp [hheadless, hips, hfams])] at h
  -- the pair at position `i` is one of those the loop checks
  have hmem : ((service.clusterIPs[i], service.ipFamilies[i]), i) ∈
      (service.clusterIPs.zip service.ipFamilies).zipIdx := by
    rw [List.mem_zipIdx_iff_getElem?, List.getElem?_zip_eq_some]
    exact ⟨List.getElem?_eq_getElem hi, List.getElem?_eq_getElem hf⟩
  exact List.flatten_eq_nil_iff.mp h _ (List.mem_map_of_mem hmem)

/-- Passing validation gives `ClusterIPsValid`. -/
theorem clusterIPsValid_of_validate {service : Service} (htype : service.type ≠ .externalName)
    (h : validateServiceClusterIPsRelatedFields service = []) : ClusterIPsValid service := by
  unfold validateServiceClusterIPsRelatedFields at h
  rw [if_neg htype] at h
  dsimp only at h
  -- an invalid address comes with an error, so validation went on to the last two checks
  have hvalid : (clusterIPsLoop service.clusterIPs.length service.clusterIPs 0).2 = false := by
    cases hb : (clusterIPsLoop service.clusterIPs.length service.clusterIPs 0).2
    · rfl
    · rw [if_pos hb] at h
      simp only [List.append_eq_nil_iff] at h
      exact absurd h.1.2 (clusterIPsLoop_errors_of_invalid _ hb)
  rw [if_neg (by simp [hvalid])] at h
  simp only [List.append_eq_nil_iff] at h
  obtain ⟨⟨⟨⟨⟨hsync, hdup⟩, hloop⟩, hmax⟩, hdual⟩, hmismatch⟩ := h
  have hips := clusterIPsLoop_eq_nil _ hloop
  have hlen : service.clusterIPs.length ≤ 2 := by
    by_contra hgt
    rw [if_pos (by omega)] at hmax
    simp at hmax
  refine ⟨(duplicateFamiliesLoop_eq_nil hdup).1, (clusterIPErrors_eq_nil hsync).1,
    (clusterIPErrors_eq_nil hsync).2, hlen, ?_, ?_, dualStackErrors_eq_nil hdual,
    familyMismatchErrors_eq_nil hmismatch⟩
  · intro ip hip hne
    obtain ⟨j, hj, rfl⟩ := List.getElem_of_mem hip
    rcases hips j hj with h' | h'
    · exact absurd h'.2.1 hne
    · exact h'
  · intro hmem
    obtain ⟨j, hj, hjth⟩ := List.getElem_of_mem hmem
    rcases hips j hj with ⟨hj0, -, hone⟩ | h'
    · -- `None` is the only value
      match hc : service.clusterIPs, hj, hjth, hone with
      | [ip], _, hjth, _ =>
          simp only [List.getElem_singleton] at hjth
          rw [hjth]
      | [], hj, _, _ => exact absurd hj (Nat.not_lt_zero j)
      | _ :: _ :: _, _, _, hone => simp at hone
    · exact absurd (hjth ▸ parseIPSloppy_clusterIPNone) h'

/-! ## Families of addresses -/

/-- An address is of one family, which `IsIPv6String` tells. -/
theorem familyOf_of_parse {ip : String} (h : Go.parseIPSloppy ip ≠ .nil) :
    familyOf ip = some (if Go.isIPv6String ip then .ipv6 else .ipv4) := by
  unfold familyOf Go.isIPv4String Go.isIPv6String Go.isIPv6
  by_cases hto4 : (Go.parseIPSloppy ip).to4 = .nil
  · simp [h, hto4]
  · simp [h, hto4]

/-- An address that passes the check against a family is of that family. -/
theorem familyOf_of_familyMismatch {ip : String} {family : IPFamily} {i : Nat}
    (hparse : Go.parseIPSloppy ip ≠ .nil) (h : familyMismatch ip family i = []) :
    familyOf ip = some family := by
  rw [familyOf_of_parse hparse]
  cases family with
  | ipv4 =>
      dsimp only [familyMismatch] at h
      by_cases h6 : Go.isIPv6String ip = true
      · rw [if_pos h6] at h
        exact absurd h (List.cons_ne_nil _ _)
      · rw [if_neg h6]
  | ipv6 =>
      dsimp only [familyMismatch] at h
      by_cases h6 : Go.isIPv6String ip = true
      · rw [if_pos h6]
      · rw [if_pos (by simpa using h6)] at h
        exact absurd h (List.cons_ne_nil _ _)

/-- Two addresses that `IsDualStackIPStrings` accepts are of two families. -/
theorem familyOf_ne_of_isDualStackIPStrings {a b : String}
    (h : Go.isDualStackIPStrings [a, b] = .ok true) :
    Go.parseIPSloppy a ≠ .nil ∧ Go.parseIPSloppy b ≠ .nil ∧ familyOf a ≠ familyOf b := by
  unfold Go.isDualStackIPStrings at h
  simp only [List.map_cons, List.map_nil, Go.isDualStackIPsLoop] at h
  by_cases ha : Go.parseIPSloppy a = .nil
  · simp [ha] at h
  by_cases hb : Go.parseIPSloppy b = .nil
  · by_cases h6 : Go.isIPv6 (Go.parseIPSloppy a) = true
    · simp [ha, hb, h6] at h
    · simp [ha, hb, h6] at h
  refine ⟨ha, hb, ?_⟩
  rw [familyOf_of_parse ha, familyOf_of_parse hb]
  unfold Go.isIPv6String
  -- accepted means one address of each family
  by_cases h6a : Go.isIPv6 (Go.parseIPSloppy a) = true <;>
    by_cases h6b : Go.isIPv6 (Go.parseIPSloppy b) = true <;> simp_all

/-! ## `initIPFamilyFields` -/

/-- The policy of a service created without one. -/
def defaultIPFamilyPolicy (service : Service) (selectorEmpty : Bool) : IPFamilyPolicy :=
  if service.clusterIP = clusterIPNone ∧ selectorEmpty then .requireDualStack else .singleStack
attribute [grind] defaultIPFamilyPolicy

/-- A single-stack policy allows one cluster IP and one family. -/
def singleStackErrors (policy : IPFamilyPolicy) (service : Service) : List FieldError :=
  if policy = .singleStack then
    (if service.clusterIPs.length = 2 then
      [fieldInvalid "spec.ipFamilyPolicy"
        "must be 'RequireDualStack' or 'PreferDualStack' when multiple cluster IPs are specified"]
    else []) ++
    (if service.ipFamilies.length = 2 then
      [fieldInvalid "spec.ipFamilyPolicy"
        "must be 'RequireDualStack' or 'PreferDualStack' when multiple IP families are specified"]
    else [])
  else []
attribute [grind] singleStackErrors

/-- The loop that reads missing families off the cluster IPs, from position `i`: it stops at
`None`, and past the families given it adds the family of each address, or reports it when the
cluster has no allocator for it. -/
def inferIPFamilies (al : Allocators) :
    List String → Nat → List IPFamily → List FieldError → List IPFamily × List FieldError
  | [], _, families, el => (families, el)
  | ip :: ips, i, families, el =>
      if ip = clusterIPNone then (families, el)
      else if i ≥ families.length then
        match familyOf ip with
        | some family =>
            if (al.serviceIPAllocatorsByFamily family).isSome then
              inferIPFamilies al ips (i + 1) (families ++ [family]) el
            else
              inferIPFamilies al ips (i + 1) families
                (el ++ [fieldInvalid (indexPath "clusterIPs" i)
                  (family.text ++ " is not configured on this cluster")])
        | none =>
            inferIPFamilies al ips (i + 1) families
              (el ++ [fieldInvalid (indexPath "clusterIPs" i)
                (familyText none ++ " is not configured on this cluster")])
      else inferIPFamilies al ips (i + 1) families el
attribute [grind] inferIPFamilies

/-- A headless service without selector gets the default family if it has none, and a second
family unless it is single-stack, whether the cluster has it or not. -/
def headlessIPFamilies (al : Allocators) (policy : IPFamilyPolicy) (families : List IPFamily) :
    List IPFamily :=
  let families := if families = [] then [al.defaultServiceIPFamily] else families
  if families.length < 2 ∧ policy ≠ .singleStack then
    match families with
    | family :: _ => families ++ [family.other]
    | [] => families
  else families
attribute [grind] headlessIPFamilies

/-- A dual-stack requirement needs both families on the cluster, and every family asked for
must be configured. -/
def configuredErrors (al : Allocators) (policy : IPFamilyPolicy) (families : List IPFamily) :
    List FieldError :=
  (if policy = .requireDualStack ∧ al.configured.length < 2 then
    [fieldInvalid "spec.ipFamilyPolicy" "this cluster is not configured for dual-stack services"]
  else []) ++
  (families.zipIdx.map fun (family, i) =>
    if (al.serviceIPAllocatorsByFamily family).isSome then []
    else [fieldInvalid (indexPath "ipFamilies" i) "not configured on this cluster"]).flatten
attribute [grind] configuredErrors

/-- No family gets the cluster's default; one family of a dual-stack service on a dual-stack
cluster gets the other. -/
def defaultIPFamilies (al : Allocators) (policy : IPFamilyPolicy) (families : List IPFamily) :
    List IPFamily :=
  let families := if families = [] then [al.defaultServiceIPFamily] else families
  match families with
  | [family] =>
      if policy ≠ .singleStack ∧ al.configured.length = 2 then [family, family.other]
      else families
  | _ => families
attribute [grind] defaultIPFamilies

/-- `Allocators.initIPFamilyFields(After{service}, Before{nil})`: the service with its families
settled, and its policy. -/
def Allocators.initIPFamilyFields (al : Allocators) (ipFamilyPolicy : Option IPFamilyPolicy)
    (selectorEmpty : Bool) (service : Service) :
    Except StatusError (Service × Option IPFamilyPolicy) :=
  if service.type = .externalName then .ok (service, ipFamilyPolicy)
  else
    let policy := ipFamilyPolicy.getD (defaultIPFamilyPolicy service selectorEmpty)
    let el := validateServiceClusterIPsRelatedFields service
    if el ≠ [] then .error (.invalid service.name el)
    else
      let inferred :=
        inferIPFamilies al service.clusterIPs 0 service.ipFamilies (singleStackErrors policy service)
      if inferred.2 ≠ [] then .error (.invalid service.name inferred.2)
      else if service.clusterIP = clusterIPNone ∧ selectorEmpty then
        .ok ({ service with ipFamilies := headlessIPFamilies al policy inferred.1 }, some policy)
      else
        let el := configuredErrors al policy inferred.1
        if el ≠ [] then .error (.invalid service.name el)
        else .ok ({ service with ipFamilies := defaultIPFamilies al policy inferred.1 }, some policy)
attribute [grind] Allocators.initIPFamilyFields

-- A cluster with both families, IPv4 first.
example :
    let v4 : IPRange := ⟨"10.0.0.0/30", "10.0.0.0", ⟨["10.0.0.1", "10.0.0.2"], fun _ => false⟩⟩
    let v6 : IPRange := ⟨"fd00::/126", "fd00::", ⟨["fd00::1", "fd00::2"], fun _ => false⟩⟩
    let al : Allocators := ⟨fun family => if family = .ipv4 then some v4 else some v6, .ipv4,
      ⟨"30000-30001", ⟨[30000, 30001], fun _ => false⟩⟩⟩
    let service : Service := ⟨"svc", .clusterIP, "fd00::2", ["fd00::2"], [], [], 0, false, none⟩
    -- no policy: single-stack, in the family of the cluster IP given
    al.initIPFamilyFields none false service =
        .ok ({ service with ipFamilies := [.ipv6] }, some .singleStack) ∧
      -- a dual-stack policy adds the other family
      al.initIPFamilyFields (some .preferDualStack) false service =
        .ok ({ service with ipFamilies := [.ipv6, .ipv4] }, some .preferDualStack) ∧
      -- a family that contradicts the cluster IP is refused
      al.initIPFamilyFields none false { service with ipFamilies := [.ipv4] } =
        .error (.invalid "svc" [fieldInvalid "spec.clusterIPs[0]"
          "expected an IPv4 value as indicated by `ipFamilies[0]`"]) := by
  decide

/-! ## The loop that reads families off the cluster IPs -/

section Infer

variable (al : Allocators)

/-- The loop only ever adds errors. -/
theorem inferIPFamilies_errors_prefix :
    ∀ (ips : List String) (i : Nat) (families : List IPFamily) (el : List FieldError),
      el <+: (inferIPFamilies al ips i families el).2
  | [], _, _, _ => List.prefix_refl _
  | ip :: ips, i, families, el => by
      have ih := inferIPFamilies_errors_prefix ips (i + 1)
      unfold inferIPFamilies
      split_ifs with hnone hpast
      · exact List.prefix_refl _
      · split
        · split_ifs
          · exact ih _ _
          · exact (List.prefix_append _ _).trans (ih _ _)
        · exact (List.prefix_append _ _).trans (ih _ _)
      · exact ih _ _

theorem eq_nil_of_inferIPFamilies {ips : List String} {i : Nat} {families : List IPFamily}
    {el : List FieldError} (h : (inferIPFamilies al ips i families el).2 = []) : el = [] :=
  List.prefix_nil.mp (h ▸ inferIPFamilies_errors_prefix al ips i families el)

/-- Without errors, on cluster IPs that are all addresses, the loop adds the families of those
past the families given, each of them configured.  The position `i` never passes the number of
families, which grows with every family added. -/
theorem inferIPFamilies_eq :
    ∀ {ips : List String} {i : Nat} {families : List IPFamily} {el : List FieldError},
      (∀ ip ∈ ips, ip ≠ clusterIPNone ∧ Go.parseIPSloppy ip ≠ .nil) → i ≤ families.length →
      (inferIPFamilies al ips i families el).2 = [] →
      (inferIPFamilies al ips i families el).1 =
          families ++ (ips.drop (families.length - i)).filterMap familyOf ∧
        ∀ family ∈ (ips.drop (families.length - i)).filterMap familyOf,
          (al.serviceIPAllocatorsByFamily family).isSome
  | [], _, families, _, _, _, _ => by simp [inferIPFamilies]
  | ip :: ips, i, families, el, hvalid, hi, h => by
      obtain ⟨hnone, hparse⟩ := hvalid ip (List.mem_cons_self ..)
      have hrest : ∀ ip ∈ ips, ip ≠ clusterIPNone ∧ Go.parseIPSloppy ip ≠ .nil :=
        fun ip' hip' => hvalid ip' (List.mem_cons_of_mem _ hip')
      obtain ⟨family, hfamily⟩ := Option.isSome_iff_exists.mp
        (by rw [familyOf_of_parse hparse]; rfl : (familyOf ip).isSome)
      unfold inferIPFamilies at h ⊢
      rw [if_neg hnone] at h ⊢
      by_cases hpast : i ≥ families.length
      · -- at the end of the families given: the family of `ip` is added
        have hieq : families.length - i = 0 := by omega
        rw [if_pos hpast, hfamily] at h ⊢
        dsimp only at h ⊢
        by_cases hconf : (al.serviceIPAllocatorsByFamily family).isSome = true
        · rw [if_pos hconf] at h ⊢
          obtain ⟨heq, hconfs⟩ := inferIPFamilies_eq hrest (by simp; omega) h
          have hdrop : (families ++ [family]).length - (i + 1) = 0 := by simp; omega
          rw [hdrop, List.drop_zero] at heq hconfs
          rw [hieq, List.drop_zero, List.filterMap_cons, hfamily, heq, List.append_assoc,
            List.singleton_append]
          refine ⟨rfl, fun f hf => ?_⟩
          rcases List.mem_cons.mp hf with rfl | hf
          · exact hconf
          · exact hconfs f hf
        · rw [if_neg hconf] at h
          exact absurd (eq_nil_of_inferIPFamilies al h) (by simp)
      · -- inside the families given: nothing is added
        rw [if_neg hpast] at h ⊢
        have hdrop : ((ip :: ips).drop (families.length - i)) = ips.drop (families.length - (i + 1)) := by
          rw [show families.length - i = (families.length - (i + 1)) + 1 by omega, List.drop_succ_cons]
        rw [hdrop]
        exact inferIPFamilies_eq hrest (by omega) h

/-- A first cluster IP `None` ends the loop at once. -/
theorem inferIPFamilies_none (i : Nat) (families : List IPFamily) (el : List FieldError) :
    inferIPFamilies al [clusterIPNone] i families el = (families, el) := by
  simp [inferIPFamilies]

end Infer

/-! ## What a successful call leaves -/

theorem length_le_two_of_nodup {families : List IPFamily} (h : families.Nodup) :
    families.length ≤ 2 := by
  have hsub : families ⊆ [.ipv4, .ipv6] := fun family _ => by cases family <;> simp
  exact h.length_le_of_subset hsub

theorem mem_configured {al : Allocators} {family : IPFamily} :
    family ∈ al.configured ↔ (al.serviceIPAllocatorsByFamily family).isSome := by
  cases family <;> simp [Allocators.configured]

/-- A cluster with two families configured has an allocator for each. -/
theorem isSome_of_configured_length {al : Allocators} (h : al.configured.length = 2)
    (family : IPFamily) : (al.serviceIPAllocatorsByFamily family).isSome := by
  unfold Allocators.configured at h
  cases h4 : (al.serviceIPAllocatorsByFamily .ipv4).isSome <;>
    cases h6 : (al.serviceIPAllocatorsByFamily .ipv6).isSome <;>
      simp [List.filter, h4, h6] at h
  cases family
  · exact h4
  · exact h6

/-- Families on a cluster, without repeats, are no more than the cluster has. -/
theorem length_le_configured {al : Allocators} {families : List IPFamily} (hnodup : families.Nodup)
    (hconf : ∀ family ∈ families, (al.serviceIPAllocatorsByFamily family).isSome) :
    families.length ≤ al.configured.length :=
  hnodup.length_le_of_subset fun family hf => mem_configured.mpr (hconf family hf)

theorem singleStackErrors_eq_nil {service : Service} (h : singleStackErrors .singleStack service = []) :
    service.clusterIPs.length ≠ 2 ∧ service.ipFamilies.length ≠ 2 := by
  unfold singleStackErrors at h
  rw [if_pos rfl, List.append_eq_nil_iff] at h
  constructor
  · intro h2
    rw [if_pos h2] at h
    exact List.cons_ne_nil _ _ h.1
  · intro h2
    rw [if_pos h2] at h
    exact List.cons_ne_nil _ _ h.2

theorem configuredErrors_eq_nil {al : Allocators} {policy : IPFamilyPolicy}
    {families : List IPFamily} (h : configuredErrors al policy families = []) :
    (policy = .requireDualStack → 2 ≤ al.configured.length) ∧
      ∀ family ∈ families, (al.serviceIPAllocatorsByFamily family).isSome := by
  unfold configuredErrors at h
  rw [List.append_eq_nil_iff] at h
  constructor
  · intro hreq
    by_contra hlt
    rw [if_pos ⟨hreq, by omega⟩] at h
    exact List.cons_ne_nil _ _ h.1
  · intro family hf
    obtain ⟨i, hi, rfl⟩ := List.getElem_of_mem hf
    have hmem : (families[i], i) ∈ families.zipIdx := by
      rw [List.mem_zipIdx_iff_getElem?]
      exact List.getElem?_eq_getElem hi
    have hnil := List.flatten_eq_nil_iff.mp h.2 _ (List.mem_map_of_mem hmem)
    dsimp only at hnil
    by_contra hnone
    rw [if_neg hnone] at hnil
    exact List.cons_ne_nil _ _ hnil

/-- The families the loop leaves on a service that passed validation: the given ones and those
of the cluster IPs past them, without repeats. -/
theorem nodup_families_append {families : List IPFamily} {ips : List String}
    (hnodup : families.Nodup) (hlen : ips.length ≤ 2)
    (hdual : ips.length = 2 → Go.isDualStackIPStrings ips = .ok true)
    (hmatch : ∀ i (hi : i < ips.length) (hf : i < families.length),
      familyOf ips[i] = some families[i]) :
    (families ++ (ips.drop families.length).filterMap familyOf).Nodup := by
  rcases ips with _ | ⟨a, _ | ⟨b, _ | ⟨c, rest⟩⟩⟩
  · simpa using hnodup
  · rcases families with _ | ⟨f, families⟩
    · cases ha : familyOf a <;> simp [ha]
    · simpa using hnodup
  · obtain ⟨-, -, hne⟩ := familyOf_ne_of_isDualStackIPStrings (hdual rfl)
    rcases families with _ | ⟨f, _ | ⟨g, families⟩⟩
    · -- no family given: the two cluster IPs give two families
      cases ha : familyOf a <;> cases hb : familyOf b <;> simp_all
    · -- one family given, which is the first cluster IP's
      have hfa : familyOf a = some f := hmatch 0 (by simp) (by simp)
      cases hb : familyOf b with
      | none => simp [hb]
      | some fb =>
          have hfb : f ≠ fb := fun hf => hne (by rw [hfa, hb, hf])
          simp [hb, hfb]
    · simpa using hnodup
  · simp at hlen

theorem length_families_append_le (families : List IPFamily) (ips : List String) :
    (families ++ (ips.drop families.length).filterMap familyOf).length ≤
      max families.length ips.length := by
  have hle := List.length_filterMap_le familyOf (ips.drop families.length)
  rw [List.length_drop] at hle
  rw [List.length_append]
  omega

/-- The loop on a service that passed validation leaves the given families and those of the
cluster IPs past them, without repeats, and no more than the longer list of the two. -/
theorem inferIPFamilies_of_valid {al : Allocators} {service : Service}
    (hv : ClusterIPsValid service) {el : List FieldError}
    (h : (inferIPFamilies al service.clusterIPs 0 service.ipFamilies el).2 = []) :
    (inferIPFamilies al service.clusterIPs 0 service.ipFamilies el).1.Nodup ∧
      (inferIPFamilies al service.clusterIPs 0 service.ipFamilies el).1.length ≤
        max service.ipFamilies.length service.clusterIPs.length := by
  by_cases hnone : clusterIPNone ∈ service.clusterIPs
  · -- a headless service: the loop stops at once
    have hips := hv.none_only hnone
    rw [hips, inferIPFamilies_none]
    exact ⟨hv.nodup, le_max_left _ _⟩
  · have hvalid : ∀ ip ∈ service.clusterIPs, ip ≠ clusterIPNone ∧ Go.parseIPSloppy ip ≠ .nil :=
      fun ip hip => ⟨fun he => hnone (he ▸ hip), hv.parses ip hip fun he => hnone (he ▸ hip)⟩
    have hheadless : isHeadlessService service = false := by
      unfold isHeadlessService
      by_contra hh
      simp only [Bool.not_eq_false, beq_iff_eq] at hh
      exact hnone (by rw [hh]; exact List.mem_singleton_self _)
    rw [(inferIPFamilies_eq al hvalid (Nat.zero_le _) h).1, Nat.sub_zero]
    refine ⟨nodup_families_append hv.nodup hv.length_le hv.dualStack ?_,
      length_families_append_le _ _⟩
    intro i hi hf
    exact familyOf_of_familyMismatch (hvalid _ (List.getElem_mem hi)).2 (hv.families hheadless i hi hf)

/-- Completing the families keeps them distinct and configured: one family under `SingleStack`,
as many as the cluster has otherwise. -/
theorem defaultIPFamilies_spec {al : Allocators} {policy : IPFamilyPolicy}
    {families : List IPFamily}
    (hdef : (al.serviceIPAllocatorsByFamily al.defaultServiceIPFamily).isSome)
    (hnodup : families.Nodup)
    (hconf : ∀ family ∈ families, (al.serviceIPAllocatorsByFamily family).isSome) :
    (defaultIPFamilies al policy families).Nodup ∧
      (∀ family ∈ defaultIPFamilies al policy families,
        (al.serviceIPAllocatorsByFamily family).isSome) ∧
      (policy = .singleStack → families.length ≤ 1 →
        (defaultIPFamilies al policy families).length = 1) ∧
      (policy ≠ .singleStack → (defaultIPFamilies al policy families).length = al.configured.length) := by
  have hle2 : al.configured.length ≤ 2 := length_le_two_of_nodup (List.Nodup.filter _ (by decide))
  -- a one-family list, completed or not
  have hone : ∀ family, (al.serviceIPAllocatorsByFamily family).isSome →
      (defaultIPFamilies al policy [family]).Nodup ∧
        (∀ f ∈ defaultIPFamilies al policy [family], (al.serviceIPAllocatorsByFamily f).isSome) ∧
        (policy = .singleStack → (defaultIPFamilies al policy [family]).length = 1) ∧
        (policy ≠ .singleStack →
          (defaultIPFamilies al policy [family]).length = al.configured.length) := by
    intro family hfam
    have hpos : 1 ≤ al.configured.length :=
      List.length_pos_of_mem (mem_configured.mpr hfam)
    unfold defaultIPFamilies
    simp only [List.cons_ne_nil, if_false]
    by_cases hboth : policy ≠ .singleStack ∧ al.configured.length = 2
    · rw [if_pos hboth]
      refine ⟨by cases family <;> simp [IPFamily.other], fun f _ =>
        isSome_of_configured_length hboth.2 f, fun hs => absurd hs hboth.1, fun _ => ?_⟩
      simp [hboth.2]
    · rw [if_neg hboth]
      refine ⟨List.nodup_singleton _, fun f hf => by rw [List.mem_singleton.mp hf]; exact hfam,
        fun _ => rfl, fun hs => ?_⟩
      simp only [List.length_singleton]
      have : al.configured.length ≠ 2 := fun h2 => hboth ⟨hs, h2⟩
      omega
  rcases families with _ | ⟨f, _ | ⟨g, families⟩⟩
  · -- no family: the cluster's default
    have hdefault : defaultIPFamilies al policy [] = defaultIPFamilies al policy
        [al.defaultServiceIPFamily] := by simp [defaultIPFamilies]
    rw [hdefault]
    obtain ⟨h1, h2, h3, h4⟩ := hone _ hdef
    exact ⟨h1, h2, fun hs _ => h3 hs, h4⟩
  · obtain ⟨h1, h2, h3, h4⟩ := hone f (hconf f (List.mem_singleton_self _))
    exact ⟨h1, h2, fun hs _ => h3 hs, h4⟩
  · -- two families or more stay as they are
    have hsame : defaultIPFamilies al policy (f :: g :: families) = f :: g :: families := by
      simp [defaultIPFamilies]
    rw [hsame]
    refine ⟨hnodup, hconf, fun _ hlen => by simp at hlen, fun _ => ?_⟩
    have hle := length_le_configured hnodup hconf
    simp only [List.length_cons] at hle ⊢
    omega

section Init

variable {al : Allocators} {ipFamilyPolicy : Option IPFamilyPolicy} {selectorEmpty : Bool}
  {service service' : Service} {policy : Option IPFamilyPolicy}

/-- A successful call changes the families of the service and nothing else. -/
theorem initIPFamilyFields_frame
    (h : al.initIPFamilyFields ipFamilyPolicy selectorEmpty service = .ok (service', policy)) :
    service' = { service with ipFamilies := service'.ipFamilies } := by
  unfold Allocators.initIPFamilyFields at h
  dsimp only at h
  split_ifs at h <;> cases h <;> rfl

/-- A successful call on a service that is not `ExternalName` passed validation and the loop. -/
theorem initIPFamilyFields_ok_valid (htype : service.type ≠ .externalName)
    (h : al.initIPFamilyFields ipFamilyPolicy selectorEmpty service = .ok (service', policy)) :
    validateServiceClusterIPsRelatedFields service = [] ∧
      (inferIPFamilies al service.clusterIPs 0 service.ipFamilies
        (singleStackErrors (ipFamilyPolicy.getD (defaultIPFamilyPolicy service selectorEmpty))
          service)).2 = [] := by
  unfold Allocators.initIPFamilyFields at h
  dsimp only at h
  rw [if_neg htype] at h
  -- both successful branches come after the same two checks
  split_ifs at h with hvalid hinfer <;> exact ⟨not_not.mp hvalid, not_not.mp hinfer⟩

/-- On a service that is not headless without selector, a successful call also passed the checks
of the families, and completed them. -/
theorem initIPFamilyFields_eq_ok (htype : service.type ≠ .externalName)
    (hspecial : ¬(service.clusterIP = clusterIPNone ∧ selectorEmpty = true))
    (h : al.initIPFamilyFields ipFamilyPolicy selectorEmpty service = .ok (service', policy)) :
    configuredErrors al (ipFamilyPolicy.getD (defaultIPFamilyPolicy service selectorEmpty))
        (inferIPFamilies al service.clusterIPs 0 service.ipFamilies
          (singleStackErrors (ipFamilyPolicy.getD (defaultIPFamilyPolicy service selectorEmpty))
            service)).1 = [] ∧
      policy = some (ipFamilyPolicy.getD (defaultIPFamilyPolicy service selectorEmpty)) ∧
      service'.ipFamilies = defaultIPFamilies al
        (ipFamilyPolicy.getD (defaultIPFamilyPolicy service selectorEmpty))
        (inferIPFamilies al service.clusterIPs 0 service.ipFamilies
          (singleStackErrors (ipFamilyPolicy.getD (defaultIPFamilyPolicy service selectorEmpty))
            service)).1 := by
  unfold Allocators.initIPFamilyFields at h
  dsimp only at h
  rw [if_neg htype] at h
  split_ifs at h with hvalid hinfer hconf
  cases h
  exact ⟨not_not.mp hconf, rfl, rfl⟩

/-- A successful `initIPFamilyFields`, on a cluster whose default family has an allocator, leaves
a service that is not `ExternalName`, and not headless without a selector, with distinct
families that each have an allocator: one under `SingleStack`, and as many as the cluster has
under a dual-stack policy.  Nothing else of the service changes. -/
theorem initIPFamilyFields_ipFamilies
    (hdef : (al.serviceIPAllocatorsByFamily al.defaultServiceIPFamily).isSome)
    (htype : service.type ≠ .externalName)
    (hspecial : ¬(service.clusterIP = clusterIPNone ∧ selectorEmpty = true))
    (h : al.initIPFamilyFields ipFamilyPolicy selectorEmpty service = .ok (service', policy)) :
    service' = { service with ipFamilies := service'.ipFamilies } ∧
      service'.ipFamilies.Nodup ∧
      (∀ family ∈ service'.ipFamilies, (al.serviceIPAllocatorsByFamily family).isSome) ∧
      (policy = some .singleStack → service'.ipFamilies.length = 1) ∧
      (policy ≠ some .singleStack → service'.ipFamilies.length = al.configured.length) := by
  obtain ⟨hvalidate, hinfer⟩ := initIPFamilyFields_ok_valid htype h
  obtain ⟨hconf, hpolicy, hfamilies⟩ := initIPFamilyFields_eq_ok htype hspecial h
  set p := ipFamilyPolicy.getD (defaultIPFamilyPolicy service selectorEmpty)
  have hv := clusterIPsValid_of_validate htype hvalidate
  obtain ⟨hnodup, hlen⟩ := inferIPFamilies_of_valid hv hinfer
  obtain ⟨-, hconfs⟩ := configuredErrors_eq_nil hconf
  obtain ⟨d1, d2, d3, d4⟩ := @defaultIPFamilies_spec al p _ hdef hnodup hconfs
  rw [hfamilies]
  refine ⟨initIPFamilyFields_frame h ▸ hfamilies ▸ rfl, d1, d2, fun hs => ?_, fun hs => ?_⟩
  · -- single-stack: at most one cluster IP and one family were given
    have hp : p = .singleStack := Option.some.inj (hpolicy ▸ hs)
    rw [hp] at hinfer
    obtain ⟨hips, hfams⟩ := singleStackErrors_eq_nil
      (eq_nil_of_inferIPFamilies al hinfer)
    have := hv.length_le
    have := length_le_two_of_nodup hv.nodup
    exact d3 hp (by omega)
  · exact d4 fun hp => hs (hpolicy.trans (congrArg some hp))

end Init

end Service
end Kubernetes
