import Kubernetes.Labels.Locality

/-!
# Printing a selector and parsing it back

A requirement that `parse` returns is `Valid`: `NewRequirement` finds nothing wrong with it,
and its values are in order without repeats, being a set that `values.List()` lists.  The
text `Requirement.String` prints for a valid requirement is that one requirement
(`oneRequirement_string`):

* its key and its values are words, since no character a key or a label value may have is a
  special symbol, a blank or a `0`, and a key or value `in` or `notin` reads as an identifier
  where the parser reads it;
* the operator is printed as its own token, which the character after it does not extend;
* the empty value is read back, from `x=` and `x==`, from `()`, and from `(,a)`, where it
  can only come first among the values in order.

With the composition at commas (`parse_intercalate`) and the sort by key, which leaves the
result of `parse` as it is, printing a selector that `parse` returns and parsing it again
gives it back (`parse_selectorString`).
-/

namespace Kubernetes
namespace Labels

/-- What `parse` returns: a requirement that `NewRequirement` accepts, its values in order
without repeats. -/
def Valid (r : Requirement) : Prop :=
  (newRequirement r.key r.operator r.strValues).2 = [] ∧ r.strValues.Pairwise (· < ·)
attribute [grind] Valid

/-! ## Keys and values are words -/

theorem isPlain_of_isKeyChar {c : Char} (h : Validation.isKeyChar c = true) : isPlain c = true := by
  rw [isPlain_iff]
  -- each special symbol, blank and `0` is a single character that is no key character
  refine ⟨?_, ?_, ?_⟩
  · cases hs : isSpecialSymbol c
    · rfl
    · simp only [isSpecialSymbol, Bool.or_eq_true, beq_iff_eq, or_assoc] at hs
      rcases hs with rfl | rfl | rfl | rfl | rfl | rfl | rfl <;> revert h <;> decide
  · cases hw : isWhitespace c
    · rfl
    · simp only [isWhitespace, Bool.or_eq_true, beq_iff_eq, or_assoc] at hw
      rcases hw with rfl | rfl | rfl | rfl <;> revert h <;> decide
  · rintro rfl
    revert h
    decide

/-- A key that `isQualifiedName` accepts is a word. -/
theorem word_of_isQualifiedName {key : String} (h : Validation.isQualifiedName key = []) :
    key.toList ≠ [] ∧ ∀ c ∈ key.toList, isPlain c = true := by
  obtain ⟨hne, hchars⟩ := Validation.isQualifiedName_eq_nil h
  exact ⟨hne, fun c hc => isPlain_of_isKeyChar (hchars c hc)⟩

/-- A label value that `isValidLabelValue` accepts is a word or empty. -/
theorem plain_of_isValidLabelValue {v : String} (h : Validation.isValidLabelValue v = []) :
    ∀ c ∈ v.toList, isPlain c = true := fun c hc =>
  isPlain_of_isKeyChar (Validation.isKeyChar_of_isQnameExtChar (Validation.isValidLabelValue_eq_nil h c hc))

theorem ne_nul_of_isPlain {c : Char} (h : isPlain c = true) : c ≠ '\x00' :=
  (isPlain_iff.mp h).2.2

/-- A word is read as an identifier among values, also when it is `in` or `notin`. -/
theorem contextToken_wordItem {w : List Char} (hw : ∀ c ∈ w, isPlain c = true) :
    contextToken .values (wordItem w).tok = .identifierToken := by
  unfold wordItem
  cases h : string2token w with
  | none => rfl
  | some tok =>
      -- the other tokens are symbols, and a symbol is not in a word
      unfold string2token at h
      split at h <;> cases h <;> simp_all [contextToken, isPlain, isSpecialSymbol]

theorem literal_wordItem (s : String) : (wordItem s.toList).literal = s :=
  String.ofList_toList

/-! ## The items of a printed requirement -/

/-- The item of `!`. -/
def bangItem : ScannedItem := ⟨.doesNotExistToken, String.ofList ['!']⟩
attribute [grind] bangItem

/-- The items of a value: a word, or none for the empty value. -/
def valueItems (v : String) : List ScannedItem :=
  if v = "" then [] else [wordItem v.toList]
attribute [grind] valueItems

/-- The items of values joined by commas. -/
def joinedItems (vs : List String) : List ScannedItem :=
  [commaItem].intercalate (vs.map valueItems)
attribute [grind] joinedItems

theorem Scans.value {v : String} {rest : List Char} {items : List ScannedItem}
    (hv : ∀ c ∈ v.toList, isPlain c = true) (hrest : Stops rest) (h : Scans rest items) :
    Scans (v.toList ++ rest) (valueItems v ++ items) := by
  unfold valueItems
  split_ifs with hempty
  · subst hempty
    exact h
  · exact Scans.word (by simpa using hempty) hv hrest h

/-- Values joined by commas and closed by `)`. -/
theorem Scans.joined {vs : List String} (hvs : ∀ v ∈ vs, ∀ c ∈ v.toList, isPlain c = true) :
    Scans ((String.intercalate "," vs).toList ++ [')'])
      (joinedItems vs ++ [⟨.closedParToken, String.ofList [')']⟩, eosItem]) := by
  have hclose : Scans [')'] [⟨.closedParToken, String.ofList [')']⟩, eosItem] :=
    Scans.symbol1 rfl rfl (symbolEnds_single (by decide) (by decide) (by decide) (by simp))
      Scans.nil
  induction vs with
  | nil => simpa [joinedItems] using hclose
  | cons v vs ih =>
      have hv := hvs v List.mem_cons_self
      cases vs with
      | nil =>
          simpa [joinedItems] using Scans.value hv (by simp [Stops, isSpecialSymbol]) hclose
      | cons w ws =>
          have hrest := ih (fun u hu => hvs u (List.mem_cons_of_mem v hu))
          have htext : (String.intercalate "," (v :: w :: ws)).toList ++ [')'] =
              v.toList ++ ',' :: ((String.intercalate "," (w :: ws)).toList ++ [')']) := by
            simp [String.intercalate_cons_cons]
          rw [htext, joinedItems, List.map_cons, List.intercalate_cons_of_ne_nil (by simp),
            List.append_assoc, List.append_assoc, List.singleton_append]
          exact Scans.value hv (by simp [Stops, isSpecialSymbol])
            (Scans.comma (hrest.head_ne_nul (by simp)) hrest)

/-- The item of `(`. -/
def openItem : ScannedItem := ⟨.openParToken, String.ofList ['(']⟩
attribute [grind] openItem

/-- The item of `)`. -/
def closeItem : ScannedItem := ⟨.closedParToken, String.ofList [')']⟩
attribute [grind] closeItem

theorem joinedItems_singleton {w : String} (hw : w ≠ "") : joinedItems [w] = [wordItem w.toList] := by
  simp [joinedItems, valueItems, hw]

theorem joinedItems_cons {w : String} {ws : List String} (hw : w ≠ "") (hws : ws ≠ []) :
    joinedItems (w :: ws) = wordItem w.toList :: commaItem :: joinedItems ws := by
  rw [joinedItems, List.map_cons, List.intercalate_cons_of_ne_nil (by simpa using hws)]
  simp [valueItems, hw, joinedItems]

/-! ## The parser on printed items -/

/-- A valid key is read as the key; the operator is inferred from what follows. -/
theorem parseKeyAndInferOperator_word {key : String} (hkey : Validation.isQualifiedName key = [])
    (rest : List ScannedItem) :
    parseKeyAndInferOperator (wordItem key.toList :: rest) =
      .ok (key, (if (lookahead .values rest).1 = .endOfStringToken ∨
          (lookahead .values rest).1 = .commaToken then some .«exists» else none), rest) := by
  have hctx := contextToken_wordItem (word_of_isQualifiedName hkey).2
  simp [parseKeyAndInferOperator, consume, hctx, literal_wordItem, validateLabelKey_eq_none.mpr hkey]

/-- After `!` a valid key is read as the key, and the operator is `!`. -/
theorem parseKeyAndInferOperator_bang {key : String} (hkey : Validation.isQualifiedName key = [])
    (rest : List ScannedItem) :
    parseKeyAndInferOperator (bangItem :: wordItem key.toList :: rest) =
      .ok (key, some .doesNotExist, rest) := by
  have hctx := contextToken_wordItem (word_of_isQualifiedName hkey).2
  have hbang : contextToken .values bangItem.tok = .doesNotExistToken := rfl
  simp [parseKeyAndInferOperator, consume, hbang, hctx, literal_wordItem,
    validateLabelKey_eq_none.mpr hkey]

theorem checked_ok {result : Requirement × List FieldError} (h : result.2 = [])
    (items : List ScannedItem) : checked result items = .ok (result.1, items) := by
  simp [checked, h]

/-- A key followed by an operator is read by `parseBinaryRequirement`. -/
theorem parseRequirement_binary {key : String} (hkey : Validation.isQualifiedName key = [])
    {item : ScannedItem} (hend : contextToken .values item.tok ≠ .endOfStringToken)
    (hcomma : contextToken .values item.tok ≠ .commaToken) (rest : List ScannedItem) :
    parseRequirement (wordItem key.toList :: item :: rest) =
      parseBinaryRequirement key (item :: rest) := by
  simp [parseRequirement, parseKeyAndInferOperator_word hkey, lookahead, hend, hcomma]

theorem parseBinaryRequirement_ok {key : String} {op : Operator} {values : List String}
    {items items' rest : List ScannedItem} (hop : parseOperator items = .ok (op, items'))
    (hvalues : parseOperatorValues op items' = .ok (values, rest))
    (herrs : (newRequirement key op (setList values)).2 = []) :
    parseBinaryRequirement key items = .ok (⟨key, op, setList values⟩, rest) := by
  simp only [parseBinaryRequirement, hop, hvalues]
  exact checked_ok herrs rest

/-- One value, or the empty value when nothing follows the operator. -/
theorem parseExactValue_valueItems {v : String} (hv : ∀ c ∈ v.toList, isPlain c = true) :
    parseExactValue (valueItems v ++ [eosItem]) = .ok ([v], [eosItem]) := by
  unfold valueItems
  split_ifs with hempty
  · subst hempty
    rfl
  · simp [parseExactValue, lookahead, consume, contextToken_wordItem hv, literal_wordItem]

/-- Words separated by commas up to a `)`: each is inserted into the set. -/
theorem parseIdentifiersList_words {ws : List String} (hws : ws ≠ [])
    (hw : ∀ w ∈ ws, w ≠ "" ∧ ∀ c ∈ w.toList, isPlain c = true) (s : List String)
    (rest : List ScannedItem) :
    parseIdentifiersList s (joinedItems ws ++ closeItem :: rest) =
      .ok (ws.foldl (fun s w => s.insert w) s, closeItem :: rest) := by
  induction ws generalizing s with
  | nil => exact absurd rfl hws
  | cons w ws ih =>
      obtain ⟨hne, hplain⟩ := hw w List.mem_cons_self
      cases ws with
      | nil =>
          have hclose : contextToken .values closeItem.tok = .closedParToken := rfl
          rw [joinedItems_singleton hne]
          simp [parseIdentifiersList, contextToken_wordItem hplain, literal_wordItem, hclose]
      | cons w' ws =>
          obtain ⟨hne', hplain'⟩ := hw w' (List.mem_cons_of_mem w List.mem_cons_self)
          have hmem : w ∈ s.insert w := List.mem_insert_self
          have hins : (s.insert w).length ≠ 0 :=
            (List.length_pos_iff.mpr (List.ne_nil_of_mem hmem)).ne'
          rw [joinedItems_cons hne (List.cons_ne_nil _ _), List.cons_append, List.cons_append]
          -- a word, then a comma and the next word: the loop goes on after the comma
          rw [parseIdentifiersList]
          simp only [contextToken_wordItem hplain, literal_wordItem, commaItem, contextToken_comma]
          obtain ⟨T, hT⟩ : ∃ T, joinedItems (w' :: ws) = wordItem w'.toList :: T := by
            cases ws with
            | nil => exact ⟨[], joinedItems_singleton hne'⟩
            | cons _ _ => exact ⟨_, joinedItems_cons hne' (List.cons_ne_nil _ _)⟩
          rw [List.foldl_cons,
            ← ih (List.cons_ne_nil _ _) (fun u hu => hw u (List.mem_cons_of_mem w hu)) (s.insert w),
            hT, List.cons_append, parseIdentifiersList]
          simp [hins, contextToken_wordItem hplain', contextToken_comma]

theorem joinedItems_cons_empty {ws : List String} (hws : ws ≠ []) :
    joinedItems ("" :: ws) = commaItem :: joinedItems ws := by
  rw [joinedItems, List.map_cons, List.intercalate_cons_of_ne_nil (by simpa using hws)]
  simp [valueItems, joinedItems]

/-- The items of values that are not empty start with the first word. -/
theorem joinedItems_eq_cons {w : String} (hw : w ≠ "") (ws : List String) :
    ∃ T, joinedItems (w :: ws) = wordItem w.toList :: T := by
  cases ws with
  | nil => exact ⟨[], joinedItems_singleton hw⟩
  | cons _ _ => exact ⟨_, joinedItems_cons hw (List.cons_ne_nil _ _)⟩

theorem not_lt_empty (a : String) : ¬ a < "" := by
  rw [String.lt_iff]
  simp

/-- `(,` starts the set with the empty value. -/
theorem parseIdentifiersList_empty_first {ws : List String} (hws : ws ≠ [])
    (hw : ∀ w ∈ ws, w ≠ "" ∧ ∀ c ∈ w.toList, isPlain c = true) (rest : List ScannedItem) :
    parseIdentifiersList [] (joinedItems ("" :: ws) ++ closeItem :: rest) =
      .ok (("" :: ws).foldl (fun s w => s.insert w) [], closeItem :: rest) := by
  obtain ⟨w, ws', rfl⟩ := List.exists_cons_of_ne_nil hws
  obtain ⟨hne, hplain⟩ := hw w List.mem_cons_self
  obtain ⟨T, hT⟩ := joinedItems_eq_cons hne ws'
  rw [List.foldl_cons, ← parseIdentifiersList_words hws hw, joinedItems_cons_empty hws, hT,
    List.cons_append, List.cons_append, parseIdentifiersList]
  simp [commaItem, contextToken_comma, contextToken_wordItem hplain]

theorem parseValues_empty (rest : List ScannedItem) :
    parseValues (openItem :: closeItem :: rest) = .ok ([""], rest) :=
  rfl

/-- `(`, values read by `parseIdentifiersList`, `)`. -/
theorem parseValues_list {items rest : List ScannedItem} {s : List String}
    (hstart : (lookahead .values items).1 = .identifierToken ∨
      (lookahead .values items).1 = .commaToken)
    (hlist : parseIdentifiersList [] items = .ok (s, closeItem :: rest)) :
    parseValues (openItem :: items) = .ok (s, rest) := by
  rcases hla : lookahead .values items with ⟨t, l⟩
  rw [hla] at hstart
  have hopen : contextToken .values openItem.tok = .openParToken := rfl
  have hclose : contextToken .values closeItem.tok = .closedParToken := rfl
  rcases hstart with rfl | rfl <;> simp [parseValues, consume, hopen, hla, hlist, hclose]

/-- A set of values in order, joined by commas in parentheses, is read back as that set. -/
theorem parseValues_joined {vs : List String} (hne : vs ≠ []) (hsorted : vs.Pairwise (· < ·))
    (hplain : ∀ v ∈ vs, ∀ c ∈ v.toList, isPlain c = true) :
    parseValues (openItem :: (joinedItems vs ++ [closeItem, eosItem])) =
      .ok (vs.foldl (fun s v => s.insert v) [], [eosItem]) := by
  obtain ⟨v, ws, rfl⟩ := List.exists_cons_of_ne_nil hne
  -- the empty value is the least, so only the first value can be empty
  have hws : ∀ w ∈ ws, w ≠ "" ∧ ∀ c ∈ w.toList, isPlain c = true := by
    refine fun w hw => ⟨?_, hplain w (List.mem_cons_of_mem v hw)⟩
    rintro rfl
    exact not_lt_empty v (List.rel_of_pairwise_cons hsorted hw)
  by_cases hv : v = ""
  · subst hv
    cases ws with
    | nil => exact parseValues_empty [eosItem]
    | cons w ws =>
        refine parseValues_list ?_ (parseIdentifiersList_empty_first (List.cons_ne_nil _ _) hws _)
        simp [joinedItems_cons_empty, lookahead, commaItem, contextToken_comma]
  · have hall : ∀ w ∈ v :: ws, w ≠ "" ∧ ∀ c ∈ w.toList, isPlain c = true := by
      intro w hw
      rcases List.mem_cons.mp hw with rfl | hw
      · exact ⟨hv, hplain w List.mem_cons_self⟩
      · exact hws w hw
    obtain ⟨T, hT⟩ := joinedItems_eq_cons hv ws
    refine parseValues_list ?_ (parseIdentifiersList_words hne hall [] _)
    simp [hT, lookahead, contextToken_wordItem (hplain v List.mem_cons_self)]

/-- `values.List()` of a set built from values in order gives them back. -/
theorem setList_foldl_insert {vs : List String} (hsorted : vs.Pairwise (· < ·)) :
    setList (vs.foldl (fun s v => s.insert v) []) = vs := by
  have hnodup : ([] ++ vs).Nodup := hsorted.imp ne_of_lt
  rw [Go.foldl_insert_of_nodup hnodup, List.append_nil]
  exact Go.sort_eq_of_perm_key id (List.reverse_perm vs) hsorted

/-! ## The text of a valid requirement is that requirement -/

theorem ne_nul_of_isSpecialSymbol {c : Char} (h : isSpecialSymbol c = true) : c ≠ '\x00' := by
  rintro rfl
  exact absurd h (by decide)

/-- The text of an operator with one value: its symbols are one token, which a word after it
does not extend. -/
theorem exactOperator_reads {op : Operator} {text : String} (hop : operatorText op = some text)
    (hexact : op ≠ .«in» ∧ op ≠ .notIn) :
    ∃ item : ScannedItem,
      (∀ {rest : List Char} {items : List ScannedItem}, (∀ c ∈ rest.head?, isPlain c = true) →
        Scans rest items → Scans (text.toList ++ rest) (item :: items)) ∧
      text.toList ≠ [] ∧ (∀ c ∈ text.toList, isSpecialSymbol c = true) ∧
      contextToken .values item.tok ≠ .endOfStringToken ∧
      contextToken .values item.tok ≠ .commaToken ∧
      ∀ items, parseOperator (item :: items) = .ok (op, items) ∧
        parseOperatorValues op items = parseExactValue items := by
  cases op <;> simp only [operatorText, Option.some.injEq, reduceCtorEq] at hop <;>
    simp only [ne_eq, reduceCtorEq, not_true_eq_false, and_false, false_and] at hexact <;> subst hop
  case equals =>
    exact ⟨⟨.equalsToken, String.ofList ['=']⟩,
      fun hrest h => Scans.symbol1 rfl rfl (symbolEnds_of_plain hrest) h,
      by decide, by simp [isSpecialSymbol], by decide, by decide, fun _ => ⟨rfl, rfl⟩⟩
  case doubleEquals =>
    exact ⟨⟨.doubleEqualsToken, String.ofList ['=', '=']⟩,
      fun hrest h => Scans.symbol2 rfl rfl rfl rfl (symbolEnds_of_plain hrest) h,
      by decide, by simp [isSpecialSymbol], by decide, by decide, fun _ => ⟨rfl, rfl⟩⟩
  case notEquals =>
    exact ⟨⟨.notEqualsToken, String.ofList ['!', '=']⟩,
      fun hrest h => Scans.symbol2 rfl rfl rfl rfl (symbolEnds_of_plain hrest) h,
      by decide, by simp [isSpecialSymbol], by decide, by decide, fun _ => ⟨rfl, rfl⟩⟩
  case greaterThan =>
    exact ⟨⟨.greaterThanToken, String.ofList ['>']⟩,
      fun hrest h => Scans.symbol1 rfl rfl (symbolEnds_of_plain hrest) h,
      by decide, by simp [isSpecialSymbol], by decide, by decide, fun _ => ⟨rfl, rfl⟩⟩
  case lessThan =>
    exact ⟨⟨.lessThanToken, String.ofList ['<']⟩,
      fun hrest h => Scans.symbol1 rfl rfl (symbolEnds_of_plain hrest) h,
      by decide, by simp [isSpecialSymbol], by decide, by decide, fun _ => ⟨rfl, rfl⟩⟩

/-- The text of `in` and `notin`: a keyword between blanks. -/
theorem setOperator_reads {op : Operator} {text : String} (hop : operatorText op = some text)
    (hset : op = .«in» ∨ op = .notIn) :
    ∃ item : ScannedItem,
      (∀ {rest : List Char} {items : List ScannedItem}, Scans rest items →
        Scans (text.toList ++ rest) (item :: items)) ∧
      (∀ c ∈ text.toList.head?, isWhitespace c = true) ∧ (∀ c ∈ text.toList, c ≠ '\x00') ∧
      contextToken .values item.tok ≠ .endOfStringToken ∧
      contextToken .values item.tok ≠ .commaToken ∧
      ∀ items, parseOperator (item :: items) = .ok (op, items) ∧
        parseOperatorValues op items = parseValues items := by
  rcases hset with rfl | rfl <;> simp only [operatorText, Option.some.injEq] at hop <;> subst hop
  · exact ⟨wordItem ['i', 'n'], fun {rest} _ h =>
      (Scans.blank rfl (Scans.word (by simp) (by simp [isPlain, isSpecialSymbol, isWhitespace])
        (by simp [Stops, isWhitespace])
        (Scans.blank rfl h)) : Scans (' ' :: (['i', 'n'] ++ ' ' :: rest)) _),
      by simp [isWhitespace], by simp, by decide, by decide, fun _ => ⟨rfl, rfl⟩⟩
  · exact ⟨wordItem ['n', 'o', 't', 'i', 'n'], fun {rest} _ h =>
      (Scans.blank rfl (Scans.word (by simp) (by simp [isPlain, isSpecialSymbol, isWhitespace])
        (by simp [Stops, isWhitespace])
        (Scans.blank rfl h)) : Scans (' ' :: (['n', 'o', 't', 'i', 'n'] ++ ' ' :: rest)) _),
      by simp [isWhitespace], by simp, by decide, by decide, fun _ => ⟨rfl, rfl⟩⟩

theorem startsRequirement_word {w : List Char} (hw : ∀ c ∈ w, isPlain c = true)
    (rest : List ScannedItem) : StartsRequirement (wordItem w :: rest) :=
  .inl (by simp [lookahead, contextToken_wordItem hw])

/-- `key`: the key alone is the requirement that it exists. -/
theorem oneRequirement_exists {key : String} (hkey : Validation.isQualifiedName key = [])
    (herrs : (newRequirement key .«exists» []).2 = []) :
    OneRequirement key ⟨key, .«exists», []⟩ := by
  obtain ⟨hne, hplain⟩ := word_of_isQualifiedName hkey
  refine ⟨fun c hc => ne_nul_of_isPlain (hplain c hc), [wordItem key.toList], ?_,
    startsRequirement_word hplain _, ?_⟩
  · simpa using Scans.word hne hplain stops_nil Scans.nil
  · simp only [List.cons_append, List.nil_append, parseRequirement,
      parseKeyAndInferOperator_word hkey, lookahead, eosItem, contextToken_endOfString]
    exact checked_ok herrs _

/-- `!key`: the requirement that the key does not exist. -/
theorem oneRequirement_doesNotExist {key : String} (hkey : Validation.isQualifiedName key = [])
    (herrs : (newRequirement key .doesNotExist []).2 = []) :
    OneRequirement ("!" ++ key) ⟨key, .doesNotExist, []⟩ := by
  obtain ⟨hne, hplain⟩ := word_of_isQualifiedName hkey
  have hscan : Scans key.toList [wordItem key.toList, eosItem] := by
    simpa using Scans.word hne hplain stops_nil Scans.nil
  refine ⟨?_, [bangItem, wordItem key.toList], ?_, .inr rfl, ?_⟩
  · simpa using fun c hc => ne_nul_of_isPlain (hplain c hc)
  · have h := @Scans.symbol1 '!' key.toList .doesNotExistToken _ rfl rfl
      (symbolEnds_of_plain fun c hc => hplain c (List.mem_of_mem_head? hc)) hscan
    simpa [bangItem] using h
  · simp only [List.cons_append, List.nil_append, parseRequirement,
      parseKeyAndInferOperator_bang hkey]
    exact checked_ok herrs _

/-- `key<op>value` for the operators with one value, the value possibly empty. -/
theorem oneRequirement_exact {key text v : String} {op : Operator}
    (hop : operatorText op = some text) (hexact : op ≠ .«in» ∧ op ≠ .notIn)
    (hkey : Validation.isQualifiedName key = []) (hv : ∀ c ∈ v.toList, isPlain c = true)
    (herrs : (newRequirement key op [v]).2 = []) :
    OneRequirement (key ++ text ++ v) ⟨key, op, [v]⟩ := by
  obtain ⟨item, hscan, htext, hspecial, hend, hcomma, hparse⟩ := exactOperator_reads hop hexact
  obtain ⟨hkne, hkplain⟩ := word_of_isQualifiedName hkey
  have hval : Scans v.toList (valueItems v ++ [eosItem]) := by
    simpa using Scans.value hv stops_nil Scans.nil
  refine ⟨?_, wordItem key.toList :: item :: valueItems v, ?_, startsRequirement_word hkplain _, ?_⟩
  · simp only [String.toList_append, List.mem_append]
    rintro c ((hc | hc) | hc)
    · exact ne_nul_of_isPlain (hkplain c hc)
    · exact ne_nul_of_isSpecialSymbol (hspecial c hc)
    · exact ne_nul_of_isPlain (hv c hc)
  · -- the key stops at the operator's first symbol
    have hstops : Stops (text.toList ++ v.toList) := by
      obtain ⟨c, cs, hcs⟩ := List.exists_cons_of_ne_nil htext
      simp [Stops, hcs, hspecial c (by simp [hcs])]
    rw [String.toList_append, String.toList_append, List.append_assoc, List.cons_append,
      List.cons_append]
    exact Scans.word hkne hkplain hstops
      (hscan (fun c hc => hv c (List.mem_of_mem_head? hc)) hval)
  · rw [List.cons_append, List.cons_append, parseRequirement_binary hkey hend hcomma]
    exact parseBinaryRequirement_ok (hparse _).1
      ((hparse _).2.trans (parseExactValue_valueItems hv)) herrs

/-- `key in (values)` and `key notin (values)`, the values in order. -/
theorem oneRequirement_set {key text : String} {op : Operator} {vs : List String}
    (hop : operatorText op = some text) (hset : op = .«in» ∨ op = .notIn)
    (hkey : Validation.isQualifiedName key = []) (hne : vs ≠ []) (hsorted : vs.Pairwise (· < ·))
    (hvs : ∀ v ∈ vs, ∀ c ∈ v.toList, isPlain c = true) (herrs : (newRequirement key op vs).2 = []) :
    OneRequirement (key ++ text ++ "(" ++ String.intercalate "," vs ++ ")") ⟨key, op, vs⟩ := by
  obtain ⟨item, hscan, hblank, htextnul, hend, hcomma, hparse⟩ := setOperator_reads hop hset
  obtain ⟨hkne, hkplain⟩ := word_of_isQualifiedName hkey
  have hjoined := Scans.joined hvs
  have hparen : Scans ('(' :: ((String.intercalate "," vs).toList ++ [')']))
      (openItem :: (joinedItems vs ++ [closeItem, eosItem])) :=
    Scans.symbol1 rfl rfl (symbolEnds_single (by decide) (by decide) (by decide)
      (hjoined.head_ne_nul (by simp))) hjoined
  refine ⟨?_, wordItem key.toList :: item :: openItem :: (joinedItems vs ++ [closeItem]), ?_,
    startsRequirement_word hkplain _, ?_⟩
  · simp only [String.toList_append, List.mem_append, String.toList_intercalate]
    rintro c ((((hc | hc) | hc) | hc) | hc)
    · exact ne_nul_of_isPlain (hkplain c hc)
    · exact htextnul c hc
    · simp at hc
      rw [hc]
      decide
    · rcases Go.mem_of_mem_intercalate hc with hc | ⟨l, hl, hcl⟩
      · simp at hc
        rw [hc]
        decide
      · obtain ⟨v, hv, rfl⟩ := List.mem_map.mp hl
        exact ne_nul_of_isPlain (hvs v hv c hcl)
    · simp at hc
      rw [hc]
      decide
  · -- the key stops at the blank before the keyword
    have hstops : Stops (text.toList ++ '(' :: ((String.intercalate "," vs).toList ++ [')'])) := by
      cases htext : text.toList with
      | nil => simp [Stops, isSpecialSymbol]
      | cons c cs => simp [Stops, hblank c (by simp [htext])]
    have htoList : (key ++ text ++ "(" ++ String.intercalate "," vs ++ ")").toList =
        key.toList ++ (text.toList ++ '(' :: ((String.intercalate "," vs).toList ++ [')'])) := by
      simp
    rw [htoList]
    simpa using Scans.word hkne hkplain hstops (hscan hparen)
  · simp only [List.cons_append, List.append_assoc, List.nil_append]
    rw [parseRequirement_binary hkey hend hcomma,
      parseBinaryRequirement_ok (hparse _).1 ((hparse _).2.trans (parseValues_joined hne hsorted hvs))
        (by rw [setList_foldl_insert hsorted]; exact herrs),
      setList_foldl_insert hsorted]

/-! ## The printed requirement -/

theorem stringsAreSorted_of_pairwise :
    ∀ {vs : List String}, vs.Pairwise (· < ·) → stringsAreSorted vs = true
  | [], _ => rfl
  | [_], _ => rfl
  | a :: b :: rest, h => by
      have hab : a < b := List.rel_of_pairwise_cons h List.mem_cons_self
      simp only [stringsAreSorted, Bool.and_eq_true, Bool.not_eq_true', decide_eq_false_iff_not]
      exact ⟨lt_asymm hab, stringsAreSorted_of_pairwise (List.Pairwise.of_cons h)⟩

/-- Values in order are printed as they are. -/
theorem safeSort_of_pairwise {vs : List String} (h : vs.Pairwise (· < ·)) : safeSort vs = vs := by
  simp [safeSort, stringsAreSorted_of_pairwise h]

/-- `key in (v1,v2)`: one value is printed alone, more are joined by commas in order. -/
theorem string_set {key text : String} {op : Operator} {vs : List String}
    (hop : operatorText op = some text) (hset : op = .«in» ∨ op = .notIn)
    (hsorted : vs.Pairwise (· < ·)) :
    (⟨key, op, vs⟩ : Requirement).string = key ++ text ++ "(" ++ String.intercalate "," vs ++ ")" := by
  have hdne : op ≠ .doesNotExist := by
    rcases hset with rfl | rfl <;> decide
  simp only [Requirement.string, hop, if_neg hdne, if_pos hset, String.empty_append]
  split
  · simp
  · rw [safeSort_of_pairwise hsorted]

/-- The text `Requirement.String` prints for a valid requirement is that one requirement. -/
theorem oneRequirement_string {r : Requirement} (h : Valid r) : OneRequirement r.string r := by
  obtain ⟨key, op, vals⟩ := r
  obtain ⟨herrs, hsorted⟩ := h
  obtain ⟨hkey, hfit, hvals⟩ := newRequirement_errors_eq_nil.mp herrs
  have hplain : ∀ v ∈ vals, ∀ c ∈ v.toList, isPlain c = true := fun v hv =>
    plain_of_isValidLabelValue (hvals v hv)
  -- the operator fixes how many values there are, and so the shape of the text
  have hfit := operatorErrors_eq_nil.mp hfit
  cases op
  case «exists» =>
    obtain rfl : vals = [] := hfit
    simpa [Requirement.string, operatorText] using oneRequirement_exists hkey herrs
  case doesNotExist =>
    obtain rfl : vals = [] := hfit
    simpa [Requirement.string, operatorText] using oneRequirement_doesNotExist hkey herrs
  case equals | doubleEquals | notEquals =>
    obtain ⟨v, rfl⟩ := hfit
    simpa [Requirement.string, operatorText] using
      oneRequirement_exact rfl (by simp) hkey (hplain v List.mem_cons_self) herrs
  case greaterThan | lessThan =>
    obtain ⟨v, -, rfl, -⟩ := hfit
    simpa [Requirement.string, operatorText] using
      oneRequirement_exact rfl (by simp) hkey (hplain v List.mem_cons_self) herrs
  case «in» | notIn =>
    rw [string_set rfl (by simp) hsorted]
    exact oneRequirement_set rfl (by simp) hkey hfit hsorted hplain herrs

/-! ## What `parse` returns is valid -/

/-- The set a comma with no value before it starts. -/
theorem nodup_emptyFirst {s : List String} (hs : s.Nodup) :
    (if s.length = 0 then s.insert "" else s).Nodup := by
  split_ifs
  · exact hs.insert
  · exact hs

/-- The set of values stays a set: a value is inserted only once. -/
theorem parseIdentifiersList_nodup {s s' : List String} {a a' : List ScannedItem} :
    s.Nodup → parseIdentifiersList s a = .ok (s', a') → s'.Nodup := by
  fun_induction parseIdentifiersList s a with
  | case1 | case2 | case4 | case7 | case11 => simp
  | case3 => simp [parseIdentifiersList]
  | case5 _ item next rest _ _ _ ih => exact fun hs hok => ih hs.insert hok
  | case6 =>
      intro hs hok
      simp only [Except.ok.injEq, Prod.mk.injEq] at hok
      exact hok.1 ▸ hs.insert
  | case8 s item next rest _ s₁ _ =>
      intro hs hok
      simp only [Except.ok.injEq, Prod.mk.injEq] at hok
      exact hok.1 ▸ (nodup_emptyFirst hs : s₁.Nodup).insert
  | case9 s item next rest _ s₁ _ ih =>
      exact fun hs hok => ih (nodup_emptyFirst hs : s₁.Nodup).insert hok
  | case10 s item next rest _ s₁ _ _ ih =>
      exact fun hs hok => ih (nodup_emptyFirst hs : s₁.Nodup) hok

/-- The values read for an operator have no repeats. -/
theorem parseOperatorValues_nodup {op : Operator} {a a' : List ScannedItem} {values : List String}
    (hok : parseOperatorValues op a = .ok (values, a')) : values.Nodup := by
  cases op
  case «exists» | doesNotExist =>
    simp only [parseOperatorValues, Except.ok.injEq, Prod.mk.injEq] at hok
    rw [← hok.1]
    exact List.nodup_nil
  case equals | doubleEquals | notEquals | greaterThan | lessThan =>
    rcases parseExactValue_ok hok with ⟨rfl, -⟩ | ⟨lit, rfl, -⟩ <;> exact List.nodup_singleton _
  case «in» | notIn =>
    rcases parseValues_ok hok with ⟨rfl, -⟩ | ⟨a2, hs, -⟩
    · exact List.nodup_singleton _
    · exact parseIdentifiersList_nodup List.nodup_nil hs

/-- A requirement `checked` lets through is valid when its values are in order. -/
theorem checked_valid {key : String} {op : Operator} {vals : List String} {a a' : List ScannedItem}
    {r : Requirement} (hok : checked (newRequirement key op vals) a = .ok (r, a'))
    (hsorted : vals.Pairwise (· < ·)) : Valid r := by
  unfold checked at hok
  split_ifs at hok with herrs
  simp only [Except.ok.injEq, Prod.mk.injEq] at hok
  rw [← hok.1]
  exact ⟨herrs, hsorted⟩

/-- `values.List()` of values without repeats lists them in order. -/
theorem setList_pairwise {values : List String} (h : values.Nodup) :
    (setList values).Pairwise (· < ·) :=
  Go.sort_pairwise_key id (by simpa using h)

theorem parseRequirement_valid {a a' : List ScannedItem} {r : Requirement}
    (hok : parseRequirement a = .ok (r, a')) : Valid r := by
  unfold parseRequirement at hok
  rcases hk : parseKeyAndInferOperator a with err | ⟨key, operator, a1⟩
  · simp [hk] at hok
  simp only [hk] at hok
  -- a binary requirement has the values read for its operator, as a set in order
  have hbinary : parseBinaryRequirement key a1 = .ok (r, a') → Valid r := by
    intro hok
    unfold parseBinaryRequirement at hok
    rcases ho : parseOperator a1 with err | ⟨op, a2⟩
    · simp [ho] at hok
    simp only [ho] at hok
    rcases hv : parseOperatorValues op a2 with err | ⟨values, a3⟩
    · simp [hv] at hok
    simp only [hv] at hok
    exact checked_valid hok (setList_pairwise (parseOperatorValues_nodup hv))
  rcases operator with _ | operator
  · exact hbinary hok
  · cases operator
    case «exists» | doesNotExist => exact checked_valid hok List.Pairwise.nil
    all_goals exact hbinary hok

/-- Every requirement the loop reads is valid. -/
theorem parseLoop_valid : ∀ {fuel : Nat} {acc res : List Requirement} {items : List ScannedItem},
    parseLoop fuel acc items = .ok res → (∀ r ∈ acc, Valid r) → ∀ r ∈ res, Valid r
  | 0, _, _, _, hok => by simp [parseLoop] at hok
  | fuel + 1, acc, res, items, hok => by
      intro hacc
      rcases parseLoop_succ_ok hok with ⟨-, rfl⟩ | ⟨-, r, rest, hr, hnext⟩
      · exact hacc
      have hall : ∀ x ∈ acc ++ [r], Valid x := by
        intro x hx
        rcases List.mem_append.mp hx with hx | hx
        · exact hacc x hx
        · rw [List.mem_singleton.mp hx]
          exact parseRequirement_valid hr
      rcases hnext with ⟨-, rfl⟩ | ⟨-, -, hloop⟩
      · exact hall
      · exact parseLoop_valid hloop hall

theorem valid_of_parse {text : String} {sel : List Requirement} (h : parse text = .ok sel) :
    ∀ r ∈ sel, Valid r := by
  obtain ⟨reqs, hloop, rfl⟩ := parse_eq_ok h
  intro r hr
  exact parseLoop_valid hloop (by simp) r ((Go.sliceStable_perm reqs _).subset hr)

/-! ## The round trip -/

/-- Printing a selector that `parse` returns and parsing it again gives it back. -/
theorem parse_selectorString {text : String} {sel : List Requirement} (h : parse text = .ok sel) :
    parse (selectorString sel) = .ok sel := by
  have hone : List.Forall₂ OneRequirement (sel.map Requirement.string) sel :=
    List.forall₂_map_left_iff.mpr
      (List.forall₂_same.mpr fun r hr => oneRequirement_string (valid_of_parse h r hr))
  -- `parse` returns the requirements in order of their keys, which the sort keeps
  obtain ⟨reqs, -, hsel⟩ := parse_eq_ok h
  have hchain : sel.IsChain (fun a b => a.key ≤ b.key) := hsel ▸ Go.sort_isChain_key _ reqs
  rw [selectorString, parse_intercalate hone, Go.sort_of_isChain_key Requirement.key hchain]

theorem parse_selectorString_example :
    parse "x in (foo,,baz),y,z notin ()" =
        .ok [⟨"x", .«in», ["", "baz", "foo"]⟩, ⟨"y", .«exists», []⟩, ⟨"z", .notIn, [""]⟩] ∧
      parse (selectorString [⟨"x", .«in», ["", "baz", "foo"]⟩, ⟨"y", .«exists», []⟩,
        ⟨"z", .notIn, [""]⟩]) =
        .ok [⟨"x", .«in», ["", "baz", "foo"]⟩, ⟨"y", .«exists», []⟩, ⟨"z", .notIn, [""]⟩] :=
  have h : parse "x in (foo,,baz),y,z notin ()" =
      .ok [⟨"x", .«in», ["", "baz", "foo"]⟩, ⟨"y", .«exists», []⟩, ⟨"z", .notIn, [""]⟩] := by
    decide
  ⟨h, parse_selectorString h⟩

end Labels
end Kubernetes
