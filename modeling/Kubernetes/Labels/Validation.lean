import Kubernetes.Go.Strings

/-!
# Label keys and values

`validation.IsQualifiedName` and `validation.IsValidLabelValue`
(`apimachinery/pkg/util/validation/validation.go`) are the checks a label selector makes of
its keys and values.  Each returns the list of what is wrong, empty for a valid input, with
the texts of the source.

The regular expressions are written as predicates on the characters of the string:
`qualifiedNameFmt`, `([A-Za-z0-9][-A-Za-z0-9_.]*)?[A-Za-z0-9]`, holds of a non-empty word of
`qnameExtCharFmt` characters that starts and ends with a `qnameCharFmt` one
(`matchesQualifiedName`), and the RFC 1123 subdomain of a prefix is a list of RFC 1123
labels joined by dots.  Go's `len` is the number of UTF-8 bytes, `String.utf8ByteSize`.

What the selector's lexer needs of the checks is that a valid key is a non-empty word of
letters, digits, `-`, `_`, `.` and `/` (`isQualifiedName_eq_nil`), and a valid value a word of
letters, digits, `-`, `_` and `.` (`isValidLabelValue_eq_nil`).
-/

namespace Kubernetes
namespace Validation

/-! ## Character classes -/

/-- `qnameCharFmt`, `[A-Za-z0-9]`. -/
def isQnameChar (c : Char) : Bool :=
  c.isAlphanum
attribute [grind] isQnameChar

/-- `qnameExtCharFmt`, `[-A-Za-z0-9_.]`. -/
def isQnameExtChar (c : Char) : Bool :=
  c.isAlphanum || c == '-' || c == '_' || c == '.'
attribute [grind] isQnameExtChar

/-- `[a-z0-9]`, the first and last character of an RFC 1123 label. -/
def isDNS1123Char (c : Char) : Bool :=
  c.isLower || c.isDigit
attribute [grind] isDNS1123Char

/-- `[-a-z0-9]`, the characters of an RFC 1123 label. -/
def isDNS1123ExtChar (c : Char) : Bool :=
  isDNS1123Char c || c == '-'
attribute [grind] isDNS1123ExtChar

/-- `^([A-Za-z0-9][-A-Za-z0-9_.]*)?[A-Za-z0-9]$`. -/
def matchesQualifiedName (s : List Char) : Bool :=
  s.head?.any isQnameChar && s.getLast?.any isQnameChar && s.all isQnameExtChar
attribute [grind] matchesQualifiedName

/-- `^(([A-Za-z0-9][-A-Za-z0-9_.]*)?[A-Za-z0-9])?$`. -/
def matchesLabelValue (s : List Char) : Bool :=
  s.isEmpty || matchesQualifiedName s
attribute [grind] matchesLabelValue

/-- `^[a-z0-9]([-a-z0-9]*[a-z0-9])?$`. -/
def matchesDNS1123Label (s : List Char) : Bool :=
  s.head?.any isDNS1123Char && s.getLast?.any isDNS1123Char && s.all isDNS1123ExtChar
attribute [grind] matchesDNS1123Label

/-- `^[a-z0-9]([-a-z0-9]*[a-z0-9])?(\.[a-z0-9]([-a-z0-9]*[a-z0-9])?)*$`: labels joined by
dots. -/
def matchesDNS1123Subdomain (s : List Char) : Bool :=
  (Go.splitN '.' s (s.length + 1)).all matchesDNS1123Label
attribute [grind] matchesDNS1123Subdomain

/-! ## Messages -/

def qualifiedNameFmt : String := "([A-Za-z0-9][-A-Za-z0-9_.]*)?[A-Za-z0-9]"
attribute [grind] qualifiedNameFmt

def qualifiedNameErrMsg : String :=
  "must consist of alphanumeric characters, '-', '_' or '.', and must start and end with an alphanumeric character"
attribute [grind] qualifiedNameErrMsg

def qualifiedNameMaxLength : Nat := 63
attribute [grind] qualifiedNameMaxLength

def labelValueFmt : String := "(" ++ qualifiedNameFmt ++ ")?"
attribute [grind] labelValueFmt

def labelValueErrMsg : String :=
  "a valid label must be an empty string or consist of alphanumeric characters, '-', '_' or '.', and must start and end with an alphanumeric character"
attribute [grind] labelValueErrMsg

def labelValueMaxLength : Nat := 63
attribute [grind] labelValueMaxLength

def dns1123LabelFmt : String := "[a-z0-9]([-a-z0-9]*[a-z0-9])?"
attribute [grind] dns1123LabelFmt

def dns1123SubdomainFmt : String := dns1123LabelFmt ++ "(\\." ++ dns1123LabelFmt ++ ")*"
attribute [grind] dns1123SubdomainFmt

def dns1123SubdomainErrorMsg : String :=
  "a lowercase RFC 1123 subdomain must consist of lower case alphanumeric characters, '-' or '.', and must start and end with an alphanumeric character"
attribute [grind] dns1123SubdomainErrorMsg

def dns1123SubdomainMaxLength : Nat := 253
attribute [grind] dns1123SubdomainMaxLength

/-- `MaxLenError(length)`. -/
def maxLenError (length : Nat) : String :=
  "must be no more than " ++ toString length ++ " characters"

/-- `RegexError(msg, fmt, examples...)`: the examples quoted and joined by `or`. -/
def regexError (msg fmt : String) (examples : List String) : String :=
  if examples.length = 0 then msg ++ " (regex used for validation is '" ++ fmt ++ "')"
  else
    let msg := examples.zipIdx.foldl
      (fun msg (e, i) => msg ++ (if i > 0 then " or " else "") ++ "'" ++ e ++ "', ")
      (msg ++ " (e.g. ")
    msg ++ "regex used for validation is '" ++ fmt ++ "')"
attribute [grind] regexError

/-- `EmptyError()`. -/
def emptyError : String :=
  "must be non-empty"
attribute [grind] emptyError

/-- `prefixEach(msgs, prefix)`. -/
def prefixEach (msgs : List String) (pre : String) : List String :=
  msgs.map (pre ++ ·)
attribute [grind] prefixEach

/-! ## The checks -/

/-- `IsDNS1123Subdomain(value)`. -/
def isDNS1123Subdomain (value : String) : List String :=
  (if value.utf8ByteSize > dns1123SubdomainMaxLength then
      [maxLenError dns1123SubdomainMaxLength] else []) ++
  (if matchesDNS1123Subdomain value.toList then []
    else [regexError dns1123SubdomainErrorMsg dns1123SubdomainFmt ["example.com"]])
attribute [grind] isDNS1123Subdomain

/-- `IsQualifiedName(value)`: an optional RFC 1123 subdomain and `/`, then a name of at most
63 characters. -/
def isQualifiedName (value : String) : List String :=
  match Go.stringsSplit value '/' with
  | [name] => namePart name
  | [pre, name] => prefixPart pre ++ namePart name
  | _ =>
      ["a qualified name " ++
        regexError qualifiedNameErrMsg qualifiedNameFmt ["MyName", "my.name", "123-abc"] ++
        " with an optional DNS subdomain prefix and '/' (e.g. 'example.com/MyName')"]
where
  /-- The checks of the part before the `/`. -/
  prefixPart (pre : String) : List String :=
    if pre.utf8ByteSize = 0 then ["prefix part " ++ emptyError]
    else
      let msgs := isDNS1123Subdomain pre
      if msgs.length ≠ 0 then prefixEach msgs "prefix part " else []
  /-- The checks of the name. -/
  namePart (name : String) : List String :=
    (if name.utf8ByteSize = 0 then ["name part " ++ emptyError]
      else if name.utf8ByteSize > qualifiedNameMaxLength then
        ["name part " ++ maxLenError qualifiedNameMaxLength]
      else []) ++
    (if matchesQualifiedName name.toList then []
      else ["name part " ++
        regexError qualifiedNameErrMsg qualifiedNameFmt ["MyName", "my.name", "123-abc"]])
attribute [grind] isQualifiedName isQualifiedName.prefixPart isQualifiedName.namePart

/-- `IsValidLabelValue(value)`: empty, or a qualified name without a prefix, of at most 63
characters. -/
def isValidLabelValue (value : String) : List String :=
  (if value.utf8ByteSize > labelValueMaxLength then [maxLenError labelValueMaxLength] else []) ++
  (if matchesLabelValue value.toList then []
    else [regexError labelValueErrMsg labelValueFmt ["MyValue", "my_value", "12345"]])
attribute [grind] isValidLabelValue

/-! ## What a valid key or value is made of -/

/-- The characters of a valid key: letters, digits, `-`, `_`, `.` and `/`. -/
def isKeyChar (c : Char) : Bool :=
  isQnameExtChar c || c == '/'
attribute [grind] isKeyChar

theorem isKeyChar_of_isQnameExtChar {c : Char} (h : isQnameExtChar c = true) :
    isKeyChar c = true := by
  simp [isKeyChar, h]

theorem isKeyChar_of_isDNS1123ExtChar {c : Char} (h : isDNS1123ExtChar c = true) :
    isKeyChar c = true := by
  simp only [isDNS1123ExtChar, isDNS1123Char, Bool.or_eq_true] at h
  simp only [isKeyChar, isQnameExtChar, Char.isAlphanum, Char.isAlpha, Bool.or_eq_true]
  tauto

theorem all_of_matchesQualifiedName {s : List Char} (h : matchesQualifiedName s = true) :
    ∀ c ∈ s, isQnameExtChar c = true := by
  simp only [matchesQualifiedName, Bool.and_eq_true, List.all_eq_true] at h
  exact h.2

theorem ne_nil_of_matchesQualifiedName {s : List Char} (h : matchesQualifiedName s = true) :
    s ≠ [] := by
  rintro rfl
  simp [matchesQualifiedName] at h

/-- The characters of a valid prefix: every one outside the dots is in one of the labels. -/
theorem all_of_matchesDNS1123Subdomain {s : List Char} (h : matchesDNS1123Subdomain s = true) :
    ∀ c ∈ s, isKeyChar c = true := by
  intro c hc
  by_cases hdot : c = '.'
  · simp [hdot, isKeyChar, isQnameExtChar]
  obtain ⟨q, hq, hcq⟩ := Go.exists_mem_splitN_of_mem hdot (Nat.succ_pos _) hc
  simp only [matchesDNS1123Subdomain, List.all_eq_true] at h
  have hlabel := h q hq
  simp only [matchesDNS1123Label, Bool.and_eq_true, List.all_eq_true] at hlabel
  exact isKeyChar_of_isDNS1123ExtChar (hlabel.2 c hcq)

theorem matchesQualifiedName_of_namePart {name : String}
    (h : isQualifiedName.namePart name = []) : matchesQualifiedName name.toList = true := by
  unfold isQualifiedName.namePart at h
  by_contra hm
  simp [hm] at h

theorem matchesDNS1123Subdomain_of_prefixPart {pre : String}
    (h : isQualifiedName.prefixPart pre = []) : matchesDNS1123Subdomain pre.toList = true := by
  by_contra hm
  have hmsgs : isDNS1123Subdomain pre ≠ [] := by simp [isDNS1123Subdomain, hm]
  unfold isQualifiedName.prefixPart at h
  split_ifs at h
  simp [prefixEach, hmsgs] at h

/-- A valid key is a non-empty word of letters, digits, `-`, `_`, `.` and `/`. -/
theorem isQualifiedName_eq_nil {value : String} (h : isQualifiedName value = []) :
    value.toList ≠ [] ∧ ∀ c ∈ value.toList, isKeyChar c = true := by
  unfold isQualifiedName at h
  -- every character but a `/` lies in one of the parts
  have hparts : ∀ c ∈ value.toList, c ≠ '/' → ∃ q ∈ Go.stringsSplit value '/', c ∈ q.toList := by
    intro c hc hslash
    obtain ⟨q, hq, hcq⟩ := Go.exists_mem_splitN_of_mem hslash (Nat.succ_pos _) hc
    exact ⟨String.ofList q, List.mem_map_of_mem hq, by simpa using hcq⟩
  have hsub : ∀ q ∈ Go.stringsSplit value '/', ∀ c ∈ q.toList, c ∈ value.toList := by
    intro q hq c hc
    obtain ⟨q', hq', rfl⟩ := List.mem_map.mp hq
    exact Go.mem_of_mem_splitN hq' (by simpa using hc)
  split at h
  · next name hsplit =>
    have hname := matchesQualifiedName_of_namePart h
    refine ⟨?_, ?_⟩
    · obtain ⟨c, hc⟩ := List.exists_mem_of_ne_nil _ (ne_nil_of_matchesQualifiedName hname)
      exact List.ne_nil_of_mem (hsub name (by simp [hsplit]) c hc)
    · intro c hc
      by_cases hslash : c = '/'
      · simp [hslash, isKeyChar]
      obtain ⟨q, hq, hcq⟩ := hparts c hc hslash
      rw [hsplit, List.mem_singleton] at hq
      subst hq
      exact isKeyChar_of_isQnameExtChar (all_of_matchesQualifiedName hname c hcq)
  · next pre name hsplit =>
    rw [List.append_eq_nil_iff] at h
    have hname := matchesQualifiedName_of_namePart h.2
    have hpre := matchesDNS1123Subdomain_of_prefixPart h.1
    refine ⟨?_, ?_⟩
    · obtain ⟨c, hc⟩ := List.exists_mem_of_ne_nil _ (ne_nil_of_matchesQualifiedName hname)
      exact List.ne_nil_of_mem (hsub name (by simp [hsplit]) c hc)
    · intro c hc
      by_cases hslash : c = '/'
      · simp [hslash, isKeyChar]
      obtain ⟨q, hq, hcq⟩ := hparts c hc hslash
      rw [hsplit] at hq
      rcases List.mem_pair.mp hq with rfl | rfl
      · exact all_of_matchesDNS1123Subdomain hpre c hcq
      · exact isKeyChar_of_isQnameExtChar (all_of_matchesQualifiedName hname c hcq)
  · simp at h

/-- A valid value is a word of letters, digits, `-`, `_` and `.`, possibly empty. -/
theorem isValidLabelValue_eq_nil {value : String} (h : isValidLabelValue value = []) :
    ∀ c ∈ value.toList, isQnameExtChar c = true := by
  unfold isValidLabelValue at h
  rw [List.append_eq_nil_iff] at h
  have hm : matchesLabelValue value.toList = true := by
    by_contra hm
    simp [hm] at h
  intro c hc
  rcases Bool.or_eq_true_iff.mp hm with hempty | hname
  · simp [List.isEmpty_iff.mp hempty] at hc
  · exact all_of_matchesQualifiedName hname c hc

example : isValidLabelValue "" = [] := by decide

end Validation
end Kubernetes
