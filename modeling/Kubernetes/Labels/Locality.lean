import Mathlib.Data.List.Perm.Basic
import Kubernetes.Labels.Parser

/-!
# The parser reads a requirement up to its end

`parseRequirement` reads a requirement and at most one item after it, and of that item it
only asks whether it is a comma or the end of the string.  So a requirement read alone, up
to the end of the string, is read the same when a comma and more requirements follow
(`parseRequirement_agrees`).  With the lexer's own composition at a comma
(`Scans.append_comma`), the selector `r₁,r₂,…,rₙ` of texts that are each one requirement
parses to those requirements in order, sorted by key (`parse_intercalate`).  Reordering
such texts permutes the requirements before the sort, which then undoes the permutation
exactly when the keys are distinct.

`Agrees tail a b` says that `b` is `a` with its final end of the string replaced by `tail`,
the items after the requirement.  Each step lemma says that a parser function that succeeds
on `a` succeeds on `b` with the same result, and leaves items that agree in the same way.
-/

namespace Kubernetes
namespace Labels

/-- The items after a requirement: a comma or the end of the string, then anything. -/
def EndsRequirement (tail : List ScannedItem) : Prop :=
  ∃ t more, tail = t :: more ∧ (t.tok = .endOfStringToken ∨ t.tok = .commaToken)
attribute [grind] EndsRequirement

/-- `b` is `a` with the end of the string at its end replaced by `tail`. -/
def Agrees (tail a b : List ScannedItem) : Prop :=
  ∃ pre, a = pre ++ [eosItem] ∧ b = pre ++ tail
attribute [grind] Agrees

theorem contextToken_endOfString (c : ParserContext) :
    contextToken c .endOfStringToken = .endOfStringToken := by
  cases c <;> rfl

theorem contextToken_comma (c : ParserContext) : contextToken c .commaToken = .commaToken := by
  cases c <;> rfl

/-- `consume` reads the token `lookahead` sees. -/
theorem consume_fst (c : ParserContext) (items : List ScannedItem) :
    (consume c items).1 = (lookahead c items).1 := by
  cases items <;> rfl

section Agrees

variable {tail : List ScannedItem}

/-- A last item of `a` is the end of the string, where `b` has `tail`. -/
theorem Agrees.singleton {x : ScannedItem} {b : List ScannedItem} (h : Agrees tail [x] b) :
    x = eosItem ∧ b = tail := by
  obtain ⟨pre, hpre, rfl⟩ := h
  cases pre with
  | nil => exact ⟨by simpa using hpre, rfl⟩
  | cons p pre => simp at hpre

/-- An item of `a` before its last is an item of `b`, and the rest agrees. -/
theorem Agrees.cons_of_ne_nil {x : ScannedItem} {r b : List ScannedItem}
    (h : Agrees tail (x :: r) b) (hr : r ≠ []) : ∃ b', b = x :: b' ∧ Agrees tail r b' := by
  obtain ⟨pre, hpre, rfl⟩ := h
  cases pre with
  | nil =>
      simp only [List.nil_append, List.cons.injEq] at hpre
      exact absurd hpre.2 hr
  | cons p pre =>
      simp only [List.cons_append, List.cons.injEq] at hpre
      obtain ⟨rfl, rfl⟩ := hpre
      exact ⟨pre ++ tail, rfl, pre, rfl, rfl⟩

/-- The first two items of `a`: the second is its end, or both are items of `b`. -/
theorem Agrees.cons_cons {x y : ScannedItem} {r b : List ScannedItem}
    (h : Agrees tail (x :: y :: r) b) :
    (y = eosItem ∧ r = []) ∨
      ∃ b', b = x :: y :: b' ∧ Agrees tail (y :: r) (y :: b') ∧ Agrees tail r b' := by
  obtain ⟨b₁, rfl, h₁⟩ := h.cons_of_ne_nil (List.cons_ne_nil _ _)
  by_cases hr : r = []
  · subst hr
    exact .inl ⟨(Agrees.singleton h₁).1, rfl⟩
  · obtain ⟨b₂, rfl, h₂⟩ := h₁.cons_of_ne_nil hr
    exact .inr ⟨b₂, rfl, h₁, h₂⟩

/-- Reading an item other than the end of the string reads the same item of both. -/
theorem Agrees.consume_eq {a b a' : List ScannedItem} {c : ParserContext} {tok : Token}
    {lit : String} (h : Agrees tail a b) (ha : consume c a = (tok, lit, a'))
    (htok : tok ≠ .endOfStringToken) :
    ∃ b', consume c b = (tok, lit, b') ∧ Agrees tail a' b' := by
  obtain ⟨pre, rfl, rfl⟩ := h
  cases pre with
  | nil =>
      simp only [List.nil_append, consume, eosItem, contextToken_endOfString, Prod.mk.injEq] at ha
      exact absurd ha.1.symm htok
  | cons p pre =>
      simp only [List.cons_append, consume, Prod.mk.injEq] at ha ⊢
      obtain ⟨rfl, rfl, rfl⟩ := ha
      exact ⟨pre ++ tail, ⟨rfl, rfl, rfl⟩, pre, rfl, rfl⟩

/-- A lookahead at anything but the end of the string sees the same item in both. -/
theorem Agrees.lookahead_eq {a b : List ScannedItem} {c : ParserContext} (h : Agrees tail a b)
    (htok : (lookahead c a).1 ≠ .endOfStringToken) : lookahead c b = lookahead c a := by
  obtain ⟨pre, rfl, rfl⟩ := h
  cases pre with
  | nil => simp [lookahead, eosItem, contextToken_endOfString] at htok
  | cons p pre => rfl

/-- Whether a requirement ends here is the same in both. -/
theorem Agrees.lookahead_ends (htail : EndsRequirement tail) {a b : List ScannedItem}
    {c : ParserContext} (h : Agrees tail a b) :
    ((lookahead c b).1 = .endOfStringToken ∨ (lookahead c b).1 = .commaToken) ↔
      ((lookahead c a).1 = .endOfStringToken ∨ (lookahead c a).1 = .commaToken) := by
  obtain ⟨pre, rfl, rfl⟩ := h
  obtain ⟨t, more, rfl, ht⟩ := htail
  cases pre with
  | nil =>
      simp only [List.nil_append, lookahead, eosItem, contextToken_endOfString, true_or,
        iff_true]
      rcases ht with ht | ht <;> simp [ht, contextToken_endOfString, contextToken_comma]
  | cons p pre => rfl

theorem parseKeyAndInferOperator_agrees (htail : EndsRequirement tail) {a b a' : List ScannedItem}
    {key : String} {op : Option Operator} (h : Agrees tail a b)
    (hok : parseKeyAndInferOperator a = .ok (key, op, a')) :
    ∃ b', parseKeyAndInferOperator b = .ok (key, op, b') ∧ Agrees tail a' b' := by
  unfold parseKeyAndInferOperator at hok ⊢
  rcases ha1 : consume .values a with ⟨tok1, lit1, a1⟩
  simp only [ha1] at hok
  have htok1 : tok1 ≠ .endOfStringToken := by
    rintro rfl
    simp at hok
  obtain ⟨b1, hb1, h1⟩ := h.consume_eq ha1 htok1
  simp only [hb1]
  by_cases hbang : tok1 = .doesNotExistToken
  · -- `!`: the key is the next item, and the operator is `!` whatever follows
    rcases ha2 : consume .values a1 with ⟨tok2, lit2, a2⟩
    simp only [hbang, if_true, ha2] at hok
    have htok2 : tok2 ≠ .endOfStringToken := by
      rintro rfl
      simp at hok
    obtain ⟨b2, hb2, h2⟩ := h1.consume_eq ha2 htok2
    simp only [hbang, if_true, hb2]
    by_cases hid : tok2 = .identifierToken
    · cases hv : validateLabelKey lit2 "<nil>" with
      | some err => simp [hid, hv] at hok
      | none =>
          simp only [hid, hv, ne_eq, not_true_eq_false, if_false, ite_self, Except.ok.injEq,
            Prod.mk.injEq] at hok ⊢
          obtain ⟨rfl, rfl, rfl⟩ := hok
          exact ⟨b2, ⟨rfl, rfl, rfl⟩, h2⟩
    · simp [hid] at hok
  · simp only [hbang, if_false] at hok ⊢
    by_cases hid : tok1 = .identifierToken
    · cases hv : validateLabelKey lit1 "<nil>" with
      | some err => simp [hid, hv] at hok
      | none =>
          -- the operator is inferred from whether the requirement ends here, as in `a`
          simp only [hid, hv, ne_eq, not_true_eq_false, if_false, Except.ok.injEq,
            Prod.mk.injEq] at hok ⊢
          obtain ⟨rfl, rfl, rfl⟩ := hok
          refine ⟨b1, ⟨rfl, ?_, rfl⟩, h1⟩
          simp only [Agrees.lookahead_ends htail h1]
    · simp [hid] at hok

theorem parseOperator_agrees {a b a' : List ScannedItem} {op : Operator} (h : Agrees tail a b)
    (hok : parseOperator a = .ok (op, a')) :
    ∃ b', parseOperator b = .ok (op, b') ∧ Agrees tail a' b' := by
  unfold parseOperator at hok ⊢
  rcases ha1 : consume .keyAndOperator a with ⟨tok, lit, a1⟩
  simp only [ha1] at hok
  have htok : tok ≠ .endOfStringToken := by
    rintro rfl
    simp at hok
  obtain ⟨b1, hb1, h1⟩ := h.consume_eq ha1 htok
  simp only [hb1]
  cases tok <;> simp only [Except.ok.injEq, Prod.mk.injEq, reduceCtorEq] at hok <;>
    obtain ⟨rfl, rfl⟩ := hok <;> exact ⟨b1, rfl, h1⟩

theorem parseExactValue_agrees (htail : EndsRequirement tail) {a b a' : List ScannedItem}
    {values : List String} (h : Agrees tail a b) (hok : parseExactValue a = .ok (values, a')) :
    ∃ b', parseExactValue b = .ok (values, b') ∧ Agrees tail a' b' := by
  unfold parseExactValue at hok ⊢
  dsimp only at hok ⊢
  simp only [Agrees.lookahead_ends htail h]
  by_cases hend : (lookahead .values a).1 = .endOfStringToken ∨
      (lookahead .values a).1 = .commaToken
  · -- the requirement ends here: the empty value, nothing read
    simp only [if_pos hend, Except.ok.injEq, Prod.mk.injEq] at hok ⊢
    obtain ⟨rfl, rfl⟩ := hok
    exact ⟨b, ⟨rfl, rfl⟩, h⟩
  · simp only [if_neg hend] at hok ⊢
    rcases ha1 : consume .values a with ⟨tok, lit, a1⟩
    simp only [ha1] at hok
    by_cases hid : tok = .identifierToken
    · obtain ⟨b1, hb1, h1⟩ := h.consume_eq ha1 (by rw [hid]; decide)
      simp only [hb1, hid, if_true, Except.ok.injEq, Prod.mk.injEq] at hok ⊢
      obtain ⟨rfl, rfl⟩ := hok
      exact ⟨b1, ⟨rfl, rfl⟩, h1⟩
    · simp [hid] at hok

theorem parseIdentifiersList_agrees {s s' : List String} {a a' : List ScannedItem}
    (hok : parseIdentifiersList s a = .ok (s', a')) :
    ∀ {b : List ScannedItem}, Agrees tail a b →
      ∃ b', parseIdentifiersList s b = .ok (s', b') ∧ Agrees tail a' b' := by
  fun_induction parseIdentifiersList s a with
  | case1 => simp at hok
  | case2 => simp at hok
  | case3 => simp [parseIdentifiersList] at hok
  | case4 => simp at hok
  | case5 s item next rest hid s₁ hnext ih =>
      -- a value, then a comma: both go on at the comma
      intro b hag
      rcases hag.cons_cons with ⟨rfl, rfl⟩ | ⟨b', rfl, hag₁, -⟩
      · simp [eosItem, contextToken] at hnext
      · obtain ⟨b'', hb'', hag''⟩ := ih hok hag₁
        refine ⟨b'', ?_, hag''⟩
        simpa only [parseIdentifiersList, hid, hnext] using hb''
  | case6 s item next rest hid s₁ hnext =>
      -- a value, then `)`: both stop before it
      intro b hag
      simp only [Except.ok.injEq, Prod.mk.injEq] at hok
      obtain ⟨rfl, rfl⟩ := hok
      rcases hag.cons_cons with ⟨rfl, rfl⟩ | ⟨b', rfl, hag₁, -⟩
      · simp [eosItem, contextToken] at hnext
      · exact ⟨next :: b', by simp only [parseIdentifiersList, hid, hnext]; rfl, hag₁⟩
  | case7 => simp at hok
  | case8 s item next rest hcomma s₁ hnext =>
      -- a comma, then `)`: the empty value
      intro b hag
      simp only [Except.ok.injEq, Prod.mk.injEq] at hok
      obtain ⟨rfl, rfl⟩ := hok
      rcases hag.cons_cons with ⟨rfl, rfl⟩ | ⟨b', rfl, hag₁, -⟩
      · simp [eosItem, contextToken] at hnext
      · exact ⟨next :: b', by simp only [parseIdentifiersList, hcomma, hnext]; rfl, hag₁⟩
  | case9 s item next rest hcomma s₁ hnext ih =>
      -- two commas: the empty value, and both go on after the second
      intro b hag
      rcases hag.cons_cons with ⟨rfl, rfl⟩ | ⟨b', rfl, -, hag₂⟩
      · simp [eosItem, contextToken] at hnext
      · obtain ⟨b'', hb'', hag''⟩ := ih hok hag₂
        refine ⟨b'', ?_, hag''⟩
        simpa only [parseIdentifiersList, hcomma, hnext] using hb''
  | case10 s item next rest hcomma s₁ hclosed hnext ih =>
      -- a comma, then anything else: both go on at it
      intro b hag
      rcases hag.cons_cons with ⟨rfl, rfl⟩ | ⟨b', rfl, hag₁, -⟩
      · simp [parseIdentifiersList, eosItem, contextToken] at hok
      · obtain ⟨b'', hb'', hag''⟩ := ih hok hag₁
        refine ⟨b'', ?_, hag''⟩
        simpa only [parseIdentifiersList, hcomma, hclosed, hnext] using hb''
  | case11 => simp at hok

theorem parseValues_agrees {a b a' : List ScannedItem} {values : List String}
    (h : Agrees tail a b) (hok : parseValues a = .ok (values, a')) :
    ∃ b', parseValues b = .ok (values, b') ∧ Agrees tail a' b' := by
  unfold parseValues at hok ⊢
  rcases ha1 : consume .values a with ⟨tok, lit, a1⟩
  simp only [ha1] at hok
  by_cases hopen : tok = .openParToken
  swap
  · simp [hopen] at hok
  obtain ⟨b1, hb1, h1⟩ := h.consume_eq ha1 (by rw [hopen]; decide)
  simp only [hb1, hopen, ne_eq, not_true_eq_false, if_false] at hok ⊢
  -- after `(` comes no end of the string, or `a` fails
  rcases hl : lookahead .values a1 with ⟨t, l⟩
  have hla : t ≠ .endOfStringToken := by
    rintro rfl
    simp [hl] at hok
  rw [h1.lookahead_eq (by rw [hl]; exact hla), hl]
  simp only [hl] at hok
  cases t
  case identifierToken | commaToken =>
    rcases hs : parseIdentifiersList [] a1 with err | ⟨s, a2⟩
    · simp [hs] at hok
    · obtain ⟨b2, hb2, h2⟩ := parseIdentifiersList_agrees hs h1
      simp only [hs, hb2] at hok ⊢
      rcases ha3 : consume .values a2 with ⟨tok3, lit3, a3⟩
      simp only [ha3] at hok
      by_cases hclosed : tok3 = .closedParToken
      swap
      · simp [hclosed] at hok
      obtain ⟨b3, hb3, h3⟩ := h2.consume_eq ha3 (by rw [hclosed]; decide)
      simp only [hb3, hclosed, not_true_eq_false, if_false, Except.ok.injEq,
        Prod.mk.injEq] at hok ⊢
      obtain ⟨rfl, rfl⟩ := hok
      exact ⟨b3, ⟨rfl, rfl⟩, h3⟩
  case closedParToken =>
    -- `()`: the empty value alone
    rcases ha2 : consume .values a1 with ⟨tok2, lit2, a2⟩
    have htok2 : tok2 = .closedParToken := by
      have := consume_fst .values a1
      rwa [ha2, hl] at this
    obtain ⟨b2, hb2, h2⟩ := h1.consume_eq ha2 (by rw [htok2]; decide)
    simp only [ha2, hb2, Except.ok.injEq, Prod.mk.injEq] at hok ⊢
    obtain ⟨rfl, rfl⟩ := hok
    exact ⟨b2, ⟨rfl, rfl⟩, h2⟩
  all_goals simp at hok

theorem checked_agrees {result : Requirement × List FieldError} {a b a' : List ScannedItem}
    {r : Requirement} (h : Agrees tail a b) (hok : checked result a = .ok (r, a')) :
    ∃ b', checked result b = .ok (r, b') ∧ Agrees tail a' b' := by
  unfold checked at hok ⊢
  split_ifs at hok ⊢ with herr
  simp only [Except.ok.injEq, Prod.mk.injEq] at hok ⊢
  obtain ⟨rfl, rfl⟩ := hok
  exact ⟨b, ⟨rfl, rfl⟩, h⟩

theorem parseOperatorValues_agrees (htail : EndsRequirement tail) {operator : Operator}
    {a b a' : List ScannedItem} {values : List String} (h : Agrees tail a b)
    (hok : parseOperatorValues operator a = .ok (values, a')) :
    ∃ b', parseOperatorValues operator b = .ok (values, b') ∧ Agrees tail a' b' := by
  cases operator
  case «in» | notIn => exact parseValues_agrees h hok
  case equals | doubleEquals | notEquals | greaterThan | lessThan =>
    exact parseExactValue_agrees htail h hok
  case «exists» | doesNotExist =>
    simp only [parseOperatorValues, Except.ok.injEq, Prod.mk.injEq] at hok ⊢
    obtain ⟨rfl, rfl⟩ := hok
    exact ⟨b, ⟨rfl, rfl⟩, h⟩

theorem parseBinaryRequirement_agrees (htail : EndsRequirement tail) {key : String}
    {a b a' : List ScannedItem} {r : Requirement} (h : Agrees tail a b)
    (hok : parseBinaryRequirement key a = .ok (r, a')) :
    ∃ b', parseBinaryRequirement key b = .ok (r, b') ∧ Agrees tail a' b' := by
  unfold parseBinaryRequirement at hok ⊢
  rcases ho : parseOperator a with err | ⟨operator, a1⟩
  · simp [ho] at hok
  obtain ⟨b1, hb1, h1⟩ := parseOperator_agrees h ho
  simp only [ho, hb1] at hok ⊢
  rcases hv : parseOperatorValues operator a1 with err | ⟨values, a2⟩
  · simp [hv] at hok
  obtain ⟨b2, hb2, h2⟩ := parseOperatorValues_agrees htail h1 hv
  simp only [hv, hb2] at hok ⊢
  exact checked_agrees h2 hok

/-- A requirement read up to the end of the string is read the same, and to the same place,
when the end of the string is replaced by a comma or the end and anything after it. -/
theorem parseRequirement_agrees (htail : EndsRequirement tail) {a b a' : List ScannedItem}
    {r : Requirement} (h : Agrees tail a b) (hok : parseRequirement a = .ok (r, a')) :
    ∃ b', parseRequirement b = .ok (r, b') ∧ Agrees tail a' b' := by
  unfold parseRequirement at hok ⊢
  rcases hk : parseKeyAndInferOperator a with err | ⟨key, operator, a1⟩
  · simp [hk] at hok
  obtain ⟨b1, hb1, h1⟩ := parseKeyAndInferOperator_agrees htail h hk
  simp only [hk, hb1] at hok ⊢
  rcases operator with _ | operator
  · exact parseBinaryRequirement_agrees htail h1 hok
  · cases operator
    case «exists» | doesNotExist => exact checked_agrees h1 hok
    all_goals exact parseBinaryRequirement_agrees htail h1 hok

end Agrees

/-! ## The parser reads forward -/

theorem consume_suffix (c : ParserContext) (items : List ScannedItem) :
    (consume c items).2.2 <:+ items := by
  cases items with
  | nil => exact List.suffix_refl _
  | cons item items => exact List.suffix_cons item items

theorem parseKeyAndInferOperator_suffix {a a' : List ScannedItem} {key : String}
    {op : Option Operator} (hok : parseKeyAndInferOperator a = .ok (key, op, a')) : a' <:+ a := by
  unfold parseKeyAndInferOperator at hok
  have h1 := consume_suffix .values a
  rcases ha1 : consume .values a with ⟨tok1, lit1, a1⟩
  rw [ha1] at h1
  simp only [ha1] at hok
  have h2 := consume_suffix .values a1
  rcases ha2 : consume .values a1 with ⟨tok2, lit2, a2⟩
  rw [ha2] at h2
  split_ifs at hok <;> simp only [ha2] at hok
  all_goals
    split at hok
    · simp at hok
    · simp only [Except.ok.injEq, Prod.mk.injEq] at hok
      obtain ⟨-, -, rfl⟩ := hok
      first
        | exact h2.trans h1
        | exact h1

theorem parseOperator_suffix {a a' : List ScannedItem} {op : Operator}
    (hok : parseOperator a = .ok (op, a')) : a' <:+ a := by
  unfold parseOperator at hok
  have h1 := consume_suffix .keyAndOperator a
  rcases ha1 : consume .keyAndOperator a with ⟨tok, lit, a1⟩
  rw [ha1] at h1
  simp only [ha1] at hok
  cases tok <;> simp only [Except.ok.injEq, Prod.mk.injEq, reduceCtorEq] at hok <;>
    obtain ⟨-, rfl⟩ := hok <;> exact h1

/-- `parseExactValue` returns the empty value and reads nothing, or reads one value. -/
theorem parseExactValue_ok {a a' : List ScannedItem} {values : List String}
    (hok : parseExactValue a = .ok (values, a')) :
    (values = [""] ∧ a' = a) ∨ ∃ lit, values = [lit] ∧ a' = (consume .values a).2.2 := by
  unfold parseExactValue at hok
  dsimp only at hok
  split_ifs at hok
  · simp only [Except.ok.injEq, Prod.mk.injEq] at hok
    exact .inl ⟨hok.1.symm, hok.2.symm⟩
  · simp only [Except.ok.injEq, Prod.mk.injEq] at hok
    exact .inr ⟨_, hok.1.symm, hok.2.symm⟩

theorem parseExactValue_suffix {a a' : List ScannedItem} {values : List String}
    (hok : parseExactValue a = .ok (values, a')) : a' <:+ a := by
  rcases parseExactValue_ok hok with ⟨-, rfl⟩ | ⟨-, -, rfl⟩
  · exact List.suffix_refl _
  · exact consume_suffix .values a

theorem parseIdentifiersList_suffix {s s' : List String} {a a' : List ScannedItem}
    (hok : parseIdentifiersList s a = .ok (s', a')) : a' <:+ a := by
  fun_induction parseIdentifiersList s a with
  | case1 => simp at hok
  | case2 => simp at hok
  | case3 => simp [parseIdentifiersList] at hok
  | case4 => simp at hok
  | case5 _ item next rest _ _ _ ih => exact (ih hok).trans (List.suffix_cons _ _)
  | case6 =>
      simp only [Except.ok.injEq, Prod.mk.injEq] at hok
      rw [← hok.2]
      exact List.suffix_cons _ _
  | case7 => simp at hok
  | case8 =>
      simp only [Except.ok.injEq, Prod.mk.injEq] at hok
      rw [← hok.2]
      exact List.suffix_cons _ _
  | case9 _ item next rest _ _ _ ih =>
      exact (ih hok).trans ((List.suffix_cons _ _).trans (List.suffix_cons _ _))
  | case10 _ item next rest _ _ _ _ ih => exact (ih hok).trans (List.suffix_cons _ _)
  | case11 => simp at hok

/-- `parseValues` reads `(` and then either `)`, for the empty value alone, or the list of
values and the `)` after it. -/
theorem parseValues_ok {a a' : List ScannedItem} {values : List String}
    (hok : parseValues a = .ok (values, a')) :
    (values = [""] ∧ a' = (consume .values (consume .values a).2.2).2.2) ∨
      ∃ a2, parseIdentifiersList [] (consume .values a).2.2 = .ok (values, a2) ∧
        a' = (consume .values a2).2.2 := by
  unfold parseValues at hok
  rcases ha1 : consume .values a with ⟨tok, lit, a1⟩
  simp only [ha1] at hok ⊢
  split_ifs at hok
  rcases hl : lookahead .values a1 with ⟨t, l⟩
  simp only [hl] at hok
  cases t
  case identifierToken | commaToken =>
    rcases hs : parseIdentifiersList [] a1 with err | ⟨s, a2⟩
    · simp [hs] at hok
    · simp only [hs] at hok
      split_ifs at hok
      simp only [Except.ok.injEq, Prod.mk.injEq] at hok
      exact .inr ⟨a2, hok.1 ▸ rfl, hok.2.symm⟩
  case closedParToken =>
    simp only [Except.ok.injEq, Prod.mk.injEq] at hok
    exact .inl ⟨hok.1.symm, hok.2.symm⟩
  all_goals simp at hok

theorem parseValues_suffix {a a' : List ScannedItem} {values : List String}
    (hok : parseValues a = .ok (values, a')) : a' <:+ a := by
  have h1 := consume_suffix .values a
  rcases parseValues_ok hok with ⟨-, rfl⟩ | ⟨a2, hs, rfl⟩
  · exact (consume_suffix _ _).trans h1
  · exact (consume_suffix _ _).trans ((parseIdentifiersList_suffix hs).trans h1)

theorem checked_suffix {result : Requirement × List FieldError} {a a' : List ScannedItem}
    {r : Requirement} (hok : checked result a = .ok (r, a')) : a' <:+ a := by
  unfold checked at hok
  split_ifs at hok
  simp only [Except.ok.injEq, Prod.mk.injEq] at hok
  rw [← hok.2]

theorem parseBinaryRequirement_suffix {key : String} {a a' : List ScannedItem} {r : Requirement}
    (hok : parseBinaryRequirement key a = .ok (r, a')) : a' <:+ a := by
  unfold parseBinaryRequirement at hok
  rcases ho : parseOperator a with err | ⟨operator, a1⟩
  · simp [ho] at hok
  simp only [ho] at hok
  rcases hv : parseOperatorValues operator a1 with err | ⟨values, a2⟩
  · simp [hv] at hok
  simp only [hv] at hok
  have h2 : a2 <:+ a1 := by
    cases operator
    case «in» | notIn => exact parseValues_suffix hv
    case equals | doubleEquals | notEquals | greaterThan | lessThan =>
      exact parseExactValue_suffix hv
    case «exists» | doesNotExist =>
      simp only [parseOperatorValues, Except.ok.injEq, Prod.mk.injEq] at hv
      rw [← hv.2]
  exact (checked_suffix hok).trans (h2.trans (parseOperator_suffix ho))

/-- A requirement is read from the front of the items; what is left is the rest of them. -/
theorem parseRequirement_suffix {a a' : List ScannedItem} {r : Requirement}
    (hok : parseRequirement a = .ok (r, a')) : a' <:+ a := by
  unfold parseRequirement at hok
  rcases hk : parseKeyAndInferOperator a with err | ⟨key, operator, a1⟩
  · simp [hk] at hok
  have h1 := parseKeyAndInferOperator_suffix hk
  simp only [hk] at hok
  rcases operator with _ | operator
  · exact (parseBinaryRequirement_suffix hok).trans h1
  · cases operator
    case «exists» | doesNotExist => exact (checked_suffix hok).trans h1
    all_goals exact (parseBinaryRequirement_suffix hok).trans h1

/-! ## Requirements one after another -/

/-- Where `parse` reads a requirement: at a key or a `!`. -/
def StartsRequirement (items : List ScannedItem) : Prop :=
  (lookahead .values items).1 = .identifierToken ∨ (lookahead .values items).1 = .doesNotExistToken
attribute [grind] StartsRequirement

/-- The items `pre`, up to the end of the string, are the requirement `req`. -/
def ReadsAs (pre : List ScannedItem) (req : Requirement) : Prop :=
  StartsRequirement (pre ++ [eosItem]) ∧ parseRequirement (pre ++ [eosItem]) = .ok (req, [eosItem])
attribute [grind] ReadsAs

/-- `text` is the one requirement `req`: it has no `0`, and its items read as `req`. -/
def OneRequirement (text : String) (req : Requirement) : Prop :=
  (∀ c ∈ text.toList, c ≠ '\x00') ∧ ∃ pre, Scans text.toList (pre ++ [eosItem]) ∧ ReadsAs pre req
attribute [grind] OneRequirement

theorem StartsRequirement.ne_nil {pre : List ScannedItem} (h : StartsRequirement (pre ++ [eosItem])) :
    pre ≠ [] := by
  rintro rfl
  rcases h with h | h <;> simp [lookahead, eosItem, contextToken_endOfString] at h

/-- A requirement starts where it starts whatever follows it. -/
theorem StartsRequirement.append {pre : List ScannedItem} (h : StartsRequirement (pre ++ [eosItem]))
    (rest : List ScannedItem) : StartsRequirement (pre ++ rest) := by
  obtain ⟨p, pre, rfl⟩ := List.exists_cons_of_ne_nil h.ne_nil
  exact h

/-- A requirement followed by a comma is read up to the comma. -/
theorem ReadsAs.parseRequirement_comma {pre : List ScannedItem} {req : Requirement}
    (h : ReadsAs pre req) (rest : List ScannedItem) :
    parseRequirement (pre ++ commaItem :: rest) = .ok (req, commaItem :: rest) := by
  obtain ⟨b', hb', hag⟩ := parseRequirement_agrees ⟨commaItem, rest, rfl, .inr rfl⟩
    ⟨pre, rfl, rfl⟩ h.2
  rw [hb', (Agrees.singleton hag).2]

/-- The last round of the loop: a requirement up to the end of the string. -/
theorem parseLoop_last {fuel : Nat} {acc : List Requirement} {items : List ScannedItem}
    {r : Requirement} (hstart : StartsRequirement items)
    (hreq : parseRequirement items = .ok (r, [eosItem])) :
    parseLoop (fuel + 1) acc items = .ok (acc ++ [r]) := by
  unfold parseLoop
  rcases hla : lookahead .values items with ⟨t, l⟩
  simp only [StartsRequirement, hla] at hstart
  rcases hstart with rfl | rfl <;> simp [hreq, consume, eosItem, contextToken]

/-- A round of the loop at a requirement followed by a comma and another requirement. -/
theorem parseLoop_comma {fuel : Nat} {acc : List Requirement} {items rest : List ScannedItem}
    {r : Requirement} (hstart : StartsRequirement items)
    (hreq : parseRequirement items = .ok (r, commaItem :: rest)) (hnext : StartsRequirement rest) :
    parseLoop (fuel + 1) acc items = parseLoop fuel (acc ++ [r]) rest := by
  rw [parseLoop]
  rcases hla : lookahead .values items with ⟨t, l⟩
  simp only [StartsRequirement, hla] at hstart
  unfold StartsRequirement at hnext
  rcases hnext with hnext | hnext <;>
    rcases hstart with rfl | rfl <;> simp [hreq, consume, commaItem, contextToken, hnext]

/-- The loop reads requirements separated by commas, one round each. -/
theorem parseLoop_intercalate {pres : List (List ScannedItem)} {reqs : List Requirement}
    (hreads : List.Forall₂ ReadsAs pres reqs) (hne : pres ≠ []) :
    ∀ (acc : List Requirement) {fuel : Nat}, pres.length ≤ fuel →
      parseLoop fuel acc ([commaItem].intercalate pres ++ [eosItem]) = .ok (acc ++ reqs) := by
  induction hreads with
  | nil => exact absurd rfl hne
  | @cons pre req pres reqs hpre hrest ih =>
      intro acc fuel hfuel
      obtain ⟨fuel, rfl⟩ : ∃ f, fuel = f + 1 := ⟨fuel - 1, by simp at hfuel; omega⟩
      cases pres with
      | nil =>
          cases hrest
          rw [List.intercalate_singleton]
          exact parseLoop_last hpre.1 hpre.2
      | cons p ps =>
          obtain ⟨req', reqs', hp, -, rfl⟩ := List.forall₂_cons_left_iff.mp hrest
          rw [List.intercalate_cons_cons, List.append_assoc, List.append_assoc,
            List.singleton_append, parseLoop_comma (hpre.1.append _)
              (hpre.parseRequirement_comma _) ?_, ih (List.cons_ne_nil _ _) _ (by simpa using hfuel),
            List.append_assoc, List.singleton_append]
          -- the next requirement starts right after the comma
          rcases ps with _ | ⟨q, qs⟩
          · simpa using hp.1
          · rw [List.intercalate_cons_cons, List.append_assoc, List.append_assoc]
            exact hp.1.append _

/-! ## What a run of the loop reads -/

/-- What one round of the loop can do and still succeed: stop at the end of the string, read
a last requirement, or read a requirement and a comma before the next one. -/
theorem parseLoop_succ_ok {fuel : Nat} {acc res : List Requirement} {items : List ScannedItem}
    (hok : parseLoop (fuel + 1) acc items = .ok res) :
    ((lookahead .values items).1 = .endOfStringToken ∧ res = acc) ∨
      (StartsRequirement items ∧ ∃ r rest, parseRequirement items = .ok (r, rest) ∧
        (((consume .values rest).1 = .endOfStringToken ∧ res = acc ++ [r]) ∨
          ((consume .values rest).1 = .commaToken ∧ StartsRequirement (consume .values rest).2.2 ∧
            parseLoop fuel (acc ++ [r]) (consume .values rest).2.2 = .ok res))) := by
  rw [parseLoop] at hok
  unfold StartsRequirement
  rcases hla : lookahead .values items with ⟨t, l⟩
  simp only [hla] at hok ⊢
  cases t
  case endOfStringToken =>
    simp only [Except.ok.injEq] at hok
    exact .inl ⟨rfl, hok.symm⟩
  case identifierToken | doesNotExistToken =>
    right
    rcases hr : parseRequirement items with err | ⟨r, rest⟩
    · simp [hr] at hok
    simp only [hr] at hok
    refine ⟨by simp, r, rest, rfl, ?_⟩
    rcases hc : consume .values rest with ⟨t2, l2, rest2⟩
    simp only [hc] at hok ⊢
    cases t2
    case endOfStringToken =>
      simp only [Except.ok.injEq] at hok
      exact .inl ⟨rfl, hok.symm⟩
    case commaToken =>
      rcases hla2 : lookahead .values rest2 with ⟨t3, l3⟩
      simp only [hla2] at hok
      split_ifs at hok with hnext
      refine .inr ⟨rfl, ?_, hok⟩
      -- the loop goes on only at a key or a `!`
      show t3 = _ ∨ t3 = _
      tauto
    all_goals simp at hok
  all_goals simp at hok

/-- The loop only adds requirements. -/
theorem parseLoop_length_le : ∀ {fuel : Nat} {acc res : List Requirement} {items : List ScannedItem},
    parseLoop fuel acc items = .ok res → acc.length ≤ res.length
  | 0, _, _, _, hok => by simp [parseLoop] at hok
  | fuel + 1, acc, res, items, hok => by
      rcases parseLoop_succ_ok hok with ⟨-, rfl⟩ | ⟨-, r, rest, -, ⟨-, rfl⟩ | ⟨-, -, hloop⟩⟩
      · exact le_refl _
      · simp
      · have := parseLoop_length_le hloop
        simp only [List.length_append, List.length_singleton] at this
        omega

/-- At a key or a `!` the loop reads at least one requirement. -/
theorem parseLoop_length_lt {fuel : Nat} {acc res : List Requirement} {items : List ScannedItem}
    (hstart : StartsRequirement items) (hok : parseLoop fuel acc items = .ok res) :
    acc.length < res.length := by
  cases fuel with
  | zero => simp [parseLoop] at hok
  | succ fuel =>
      rcases parseLoop_succ_ok hok with ⟨heos, -⟩ | ⟨-, r, rest, -, ⟨-, rfl⟩ | ⟨-, -, hloop⟩⟩
      · unfold StartsRequirement at hstart
        rw [heos] at hstart
        simp at hstart
      · simp
      · have := parseLoop_length_le hloop
        simp only [List.length_append, List.length_singleton] at this
        omega

/-- A run of the loop that reads one requirement reads it up to the end of the string. -/
theorem parseLoop_eq_singleton {fuel : Nat} {items : List ScannedItem} {req : Requirement}
    (hok : parseLoop fuel [] items = .ok [req]) :
    StartsRequirement items ∧ ∃ rest, parseRequirement items = .ok (req, rest) ∧
      (consume .values rest).1 = .endOfStringToken := by
  cases fuel with
  | zero => simp [parseLoop] at hok
  | succ fuel =>
      rcases parseLoop_succ_ok hok with ⟨-, h⟩ | ⟨hstart, r, rest, hr, ⟨heos, h⟩ | ⟨-, hnext, hloop⟩⟩
      · simp at h
      · simp only [List.nil_append, List.cons.injEq, and_true] at h
        exact ⟨hstart, rest, h ▸ hr, heos⟩
      · -- a second requirement would make the result longer
        have := parseLoop_length_lt hnext hloop
        simp at this

/-- What `parse` returns is what the loop read, sorted by key. -/
theorem parse_eq_ok {text : String} {sel : List Requirement} (h : parse text = .ok sel) :
    ∃ reqs, parseLoop (scan text).length [] (scan text) = .ok reqs ∧
      sel = Go.sort reqs (fun a b => decide (a.key < b.key)) := by
  unfold parse at h
  dsimp only at h
  split at h
  · simp at h
  · next reqs hreqs =>
      simp only [Except.ok.injEq] at h
      exact ⟨reqs, hreqs, h.symm⟩

/-- A string that parses to one requirement, and has no `0`, is that requirement. -/
theorem oneRequirement_of_parse {text : String} {req : Requirement}
    (hnul : ∀ c ∈ text.toList, c ≠ '\x00') (hparse : parse text = .ok [req]) :
    OneRequirement text req := by
  have hscan := scans_scan text
  obtain ⟨pre, hpre⟩ := List.getLast?_eq_some_iff.mp hscan.getLast?
  have hloop : parseLoop (scan text).length [] (scan text) = .ok [req] := by
    obtain ⟨reqs, hreqs, hsort⟩ := parse_eq_ok hparse
    have hperm : (Go.sort reqs fun a b => decide (a.key < b.key)).Perm reqs :=
      Go.sliceStable_perm reqs _
    rw [← hsort, List.singleton_perm] at hperm
    rw [hreqs, ← hperm]
  obtain ⟨hstart, rest, hreq, heos⟩ := parseLoop_eq_singleton hloop
  rw [hpre] at hstart hreq hscan
  -- what is left after the requirement ends with the end of the string, by locality
  obtain ⟨rest', hreq', pre', hrest, -⟩ := parseRequirement_agrees ⟨eosItem, [], rfl, .inl rfl⟩
    ⟨pre, rfl, rfl⟩ hreq
  obtain ⟨t, more, hcons⟩ := List.exists_cons_of_ne_nil (l := rest) (by simp [hrest])
  have ht : t.tok = .endOfStringToken := by
    rw [hcons] at heos
    cases htok : t.tok <;> simp_all [consume, contextToken]
  have hone := hscan.eq_of_suffix (hcons ▸ parseRequirement_suffix hreq) ht
  rw [← hcons] at hone
  exact ⟨hnul, pre, hscan, hstart, hone ▸ hreq⟩

/-! ## Requirements joined by commas -/

/-- Strings each of one requirement, joined by commas, scan to their items joined by comma
items, with no `0` in between. -/
theorem scans_intercalate {texts : List String} {reqs : List Requirement}
    (hone : List.Forall₂ OneRequirement texts reqs) (hne : texts ≠ []) :
    (∀ c ∈ (String.intercalate "," texts).toList, c ≠ '\x00') ∧
      ∃ pres, List.Forall₂ ReadsAs pres reqs ∧
        Scans (String.intercalate "," texts).toList ([commaItem].intercalate pres ++ [eosItem]) := by
  induction hone with
  | nil => exact absurd rfl hne
  | @cons text req texts reqs hh hrest ih =>
      obtain ⟨hnul, pre, hscan, hreads⟩ := hh
      cases texts with
      | nil =>
          cases hrest
          exact ⟨by simpa using hnul, [pre], .cons hreads .nil, by simpa using hscan⟩
      | cons text' texts =>
          obtain ⟨hnul', pres, hpres, hscan'⟩ := ih (List.cons_ne_nil _ _)
          obtain ⟨p, ps, rfl⟩ : ∃ p ps, pres = p :: ps := by
            cases hrest
            cases hpres
            exact ⟨_, _, rfl⟩
          have hjoin : (String.intercalate "," (text :: text' :: texts)).toList =
              text.toList ++ ',' :: (String.intercalate "," (text' :: texts)).toList := by
            rw [String.intercalate_cons_of_ne_nil (List.cons_ne_nil _ _), String.toList_append,
              String.toList_append]
            simp
          rw [hjoin]
          refine ⟨?_, pre :: p :: ps, .cons hreads hpres, ?_⟩
          · intro c hc
            rcases List.mem_append.mp hc with hc | hc
            · exact hnul c hc
            · rcases List.mem_cons.mp hc with rfl | hc
              · decide
              · exact hnul' c hc
          · have := hscan.append_comma hnul hscan' (fun c hc => hnul' c (List.mem_of_mem_head? hc))
            rw [List.dropLast_concat] at this
            rw [List.intercalate_cons_cons, List.append_assoc, List.append_assoc,
              List.singleton_append]
            exact this

/-- Strings each of one requirement, joined by commas, parse to their requirements sorted by
key. -/
theorem parse_intercalate {texts : List String} {reqs : List Requirement}
    (hone : List.Forall₂ OneRequirement texts reqs) :
    parse (String.intercalate "," texts) =
      .ok (Go.sort reqs (fun a b => decide (a.key < b.key))) := by
  rcases texts with _ | ⟨text, texts⟩
  · cases hone
    decide
  obtain ⟨-, pres, hreads, hscan⟩ := scans_intercalate hone (List.cons_ne_nil _ _)
  have hpres : pres ≠ [] := by
    cases hone
    cases hreads
    exact List.cons_ne_nil _ _
  -- each requirement takes at least one item, so there is a round of the loop for each
  have hfuel : pres.length ≤ ([commaItem].intercalate pres ++ [eosItem]).length := by
    have hne : ∀ pre ∈ pres, pre ≠ [] := by
      clear hscan hpres hone
      induction hreads with
      | nil => simp
      | cons h _ ih => exact List.forall_mem_cons.mpr ⟨h.1.ne_nil, ih⟩
    have := Go.length_le_length_intercalate [commaItem] hne
    rw [List.length_append]
    omega
  unfold parse
  dsimp only
  rw [scan_eq_of_scans hscan, parseLoop_intercalate hreads hpres [] hfuel, List.nil_append]

/-! ## The order of the requirements -/

/-- Without those conditions the order shows: requirements of one key stay in the order
given, a text that is not one requirement alone may not parse once moved, and a `0` ends
the selector early. -/
theorem parse_intercalate_order_matters :
    (parse "x=a,x=b").map selectorString = .ok "x=a,x=b" ∧
      (parse "x=b,x=a").map selectorString = .ok "x=b,x=a" ∧
      parse "x in (a,b)" = .ok [⟨"x", .«in», ["a", "b"]⟩] ∧
      (parse "b),x in (a").toOption = none ∧
      (parse "x \x00,y").map selectorString = .ok "x" ∧
      (parse "y,x \x00").map selectorString = .ok "x,y" := by
  decide

end Labels
end Kubernetes
