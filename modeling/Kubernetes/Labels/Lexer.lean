import Mathlib.Data.List.Infix

/-!
# The label selector lexer

`Lexer.Lex` (`apimachinery/pkg/labels/selector.go`) cuts a selector into tokens: blanks are
skipped, a run of special symbols is read by maximal munch over the table `string2token`,
and any other run of characters is an identifier, or the keyword `in` or `notin`.
`Parser.scan` lexes until the end of the string.

The lexer reads bytes; here it reads the characters of a `String`.  The two agree: every byte
of a multi-byte UTF-8 character is at least `0x80`, neither blank, special nor `0`, so such a
character is read into an identifier byte by byte exactly as it is read here whole.  The
input is the list of the characters not read yet: `read` takes its head, `unread` puts it
back, and at the end `read` returns `0` and leaves the input as it is.  A `0` character in
the input reads as that end: at the start of a token it gives the end of the string, and it
ends an identifier or a run of symbols without being put back.

The lemmas say what a step of the lexer reads: a word (`lex_word`), a symbol
(`lex_symbol1`, `lex_symbol2`), blanks (`lex_blank`), and how lexing `a ++ ',' :: b` splits
into lexing `a` and `b` when `a` has no `0` (`Scans.append_comma`).
-/

namespace Kubernetes
namespace Labels

/-! ## Tokens -/

/-- `Token`. -/
inductive Token
  | errorToken
  | endOfStringToken
  | closedParToken
  | commaToken
  | doesNotExistToken
  | doubleEqualsToken
  | equalsToken
  | greaterThanToken
  | identifierToken
  | inToken
  | lessThanToken
  | notEqualsToken
  | notInToken
  | openParToken
  deriving DecidableEq, Repr

/-- `string2token`: the tokens with a fixed literal. -/
def string2token : List Char → Option Token
  | [')'] => some .closedParToken
  | [','] => some .commaToken
  | ['!'] => some .doesNotExistToken
  | ['=', '='] => some .doubleEqualsToken
  | ['='] => some .equalsToken
  | ['>'] => some .greaterThanToken
  | ['i', 'n'] => some .inToken
  | ['<'] => some .lessThanToken
  | ['!', '='] => some .notEqualsToken
  | ['n', 'o', 't', 'i', 'n'] => some .notInToken
  | ['('] => some .openParToken
  | _ => none
attribute [grind] string2token

/-- `ScannedItem`: a token and the text it was read from. -/
structure ScannedItem where
  tok : Token
  literal : String
  deriving DecidableEq, Repr

/-- `isWhitespace`. -/
def isWhitespace (ch : Char) : Bool :=
  ch == ' ' || ch == '\t' || ch == '\r' || ch == '\n'
attribute [grind] isWhitespace

/-- `isSpecialSymbol`. -/
def isSpecialSymbol (ch : Char) : Bool :=
  ch == '=' || ch == '!' || ch == '(' || ch == ')' || ch == ',' || ch == '>' || ch == '<'
attribute [grind] isSpecialSymbol

/-! ## The lexer -/

/-- `IdentifierLoop` of `scanIDOrKeyword`: characters go into the buffer up to a special
symbol or a blank, which is put back, or a `0` or the end. -/
def identifierLoop (buffer : List Char) : List Char → List Char × List Char
  | [] => (buffer, [])
  | ch :: rest =>
      if ch = '\x00' then (buffer, rest)
      else if isSpecialSymbol ch || isWhitespace ch then (buffer, ch :: rest)
      else identifierLoop (buffer ++ [ch]) rest
attribute [grind] identifierLoop

/-- `scanIDOrKeyword`: an identifier, or the token its text is in `string2token`. -/
def scanIDOrKeyword (input : List Char) : ScannedItem × List Char :=
  let (buffer, rest) := identifierLoop [] input
  let s := String.ofList buffer
  match string2token buffer with
  | some val => (⟨val, s⟩, rest)
  | none => (⟨.identifierToken, s⟩, rest)
attribute [grind] scanIDOrKeyword

/-- `SpecialSymbolLoop` of `scanSpecialSymbol`: special symbols go into the buffer, and
`lastScannedItem` is the longest buffer that is a token so far.  Once there is one, the
first symbol that makes the buffer no token is put back; any other character is put back
at once, and a `0` or the end stops the loop. -/
def specialSymbolLoop (buffer : List Char) (lastScannedItem : ScannedItem) :
    List Char → List Char × ScannedItem × List Char
  | [] => (buffer, lastScannedItem, [])
  | ch :: rest =>
      if ch = '\x00' then (buffer, lastScannedItem, rest)
      else if isSpecialSymbol ch then
        let buffer := buffer ++ [ch]
        match string2token buffer with
        | some token => specialSymbolLoop buffer ⟨token, String.ofList buffer⟩ rest
        | none =>
            if lastScannedItem.tok ≠ .errorToken then (buffer, lastScannedItem, ch :: rest)
            else specialSymbolLoop buffer lastScannedItem rest
      else (buffer, lastScannedItem, ch :: rest)
attribute [grind] specialSymbolLoop

/-- `scanSpecialSymbol`. -/
def scanSpecialSymbol (input : List Char) : ScannedItem × List Char :=
  let (buffer, lastScannedItem, rest) := specialSymbolLoop [] ⟨.errorToken, ""⟩ input
  if lastScannedItem.tok = .errorToken then
    (⟨.errorToken, "error expected: keyword found '" ++ String.ofList buffer ++ "'"⟩, rest)
  else (lastScannedItem, rest)
attribute [grind] scanSpecialSymbol

/-- `l.skipWhiteSpaces(l.read())`: the first character that is not blank, read, or `0` at
the end. -/
def skipWhiteSpaces : List Char → Char × List Char
  | [] => ('\x00', [])
  | ch :: rest => if isWhitespace ch then skipWhiteSpaces rest else (ch, rest)
attribute [grind] skipWhiteSpaces

/-- `Lexer.Lex`: the next token and the input after it. -/
def lex (input : List Char) : ScannedItem × List Char :=
  let (ch, rest) := skipWhiteSpaces input
  if ch = '\x00' then (⟨.endOfStringToken, ""⟩, rest)
  else if isSpecialSymbol ch then scanSpecialSymbol (ch :: rest)
  else scanIDOrKeyword (ch :: rest)
attribute [grind] lex

/-- The loop of `Parser.scan`: tokens up to the end of the string.  Each token but the end
reads at least one character (`lex_length_lt`), so one round per character and one for the
end are enough. -/
def scanLoop : Nat → List Char → List ScannedItem
  | 0, _ => []
  | fuel + 1, input =>
      let (item, rest) := lex input
      if item.tok = .endOfStringToken then [item] else item :: scanLoop fuel rest
attribute [grind] scanLoop

/-- `Parser.scan` of a selector. -/
def scan (selector : String) : List ScannedItem :=
  scanLoop (selector.toList.length + 1) selector.toList
attribute [grind] scan

/-- The item `scan` ends with. -/
def eosItem : ScannedItem := ⟨.endOfStringToken, ""⟩
attribute [grind] eosItem

/-- The item of a `,`. -/
def commaItem : ScannedItem := ⟨.commaToken, ","⟩
attribute [grind] commaItem

/-- The item of a word: an identifier, or a keyword. -/
def wordItem (w : List Char) : ScannedItem :=
  ⟨(string2token w).getD .identifierToken, String.ofList w⟩
attribute [grind] wordItem

/-! ## What one step reads -/

/-- The characters of a word: neither special, nor blank, nor `0`. -/
def isPlain (c : Char) : Bool :=
  !isSpecialSymbol c && !isWhitespace c && c != '\x00'
attribute [grind] isPlain

/-- The input after a word: it is empty or starts with a special symbol or a blank. -/
def Stops (rest : List Char) : Prop :=
  ∀ c ∈ rest.head?, isSpecialSymbol c = true ∨ isWhitespace c = true
attribute [grind] Stops

/-- The input after a symbol: it does not start with a `0`, nor with a special symbol that
would make the symbol a longer token. -/
def SymbolEnds (sym rest : List Char) : Prop :=
  ∀ c ∈ rest.head?, c ≠ '\x00' ∧ (isSpecialSymbol c = true → string2token (sym ++ [c]) = none)
attribute [grind] SymbolEnds

theorem skipWhiteSpaces_suffix : ∀ input : List Char, (skipWhiteSpaces input).2 <:+ input
  | [] => List.suffix_refl _
  | ch :: rest => by
      unfold skipWhiteSpaces
      split
      · exact (skipWhiteSpaces_suffix rest).trans (List.suffix_cons ch rest)
      · exact List.suffix_cons ch rest

theorem identifierLoop_suffix (buffer : List Char) :
    ∀ input : List Char, (identifierLoop buffer input).2 <:+ input
  | [] => List.suffix_refl _
  | ch :: rest => by
      unfold identifierLoop
      split
      · exact List.suffix_cons ch rest
      split
      · exact List.suffix_refl _
      · exact (identifierLoop_suffix _ rest).trans (List.suffix_cons ch rest)

theorem specialSymbolLoop_suffix (buffer : List Char) (last : ScannedItem) :
    ∀ input : List Char, (specialSymbolLoop buffer last input).2.2 <:+ input
  | [] => List.suffix_refl _
  | ch :: rest => by
      unfold specialSymbolLoop
      split
      · exact List.suffix_cons ch rest
      split
      · simp only
        split
        · exact (specialSymbolLoop_suffix _ _ rest).trans (List.suffix_cons ch rest)
        · split
          · exact List.suffix_refl _
          · exact (specialSymbolLoop_suffix _ _ rest).trans (List.suffix_cons ch rest)
      · exact List.suffix_refl _

/-- Every single special symbol is a token. -/
theorem string2token_singleton {ch : Char} (h : isSpecialSymbol ch = true) :
    ∃ tok, string2token [ch] = some tok := by
  simp only [isSpecialSymbol, Bool.or_eq_true, beq_iff_eq] at h
  rcases h with ((((((rfl | rfl) | rfl) | rfl) | rfl) | rfl) | rfl) <;> exact ⟨_, rfl⟩

/-- The first symbol of a run is read: the loop never puts it back. -/
theorem specialSymbolLoop_first {ch : Char} {rest : List Char} (h : isSpecialSymbol ch = true) :
    ∃ tok, specialSymbolLoop [] ⟨.errorToken, ""⟩ (ch :: rest) =
      specialSymbolLoop [ch] ⟨tok, String.ofList [ch]⟩ rest := by
  obtain ⟨tok, htok⟩ := string2token_singleton h
  have hnul : ch ≠ '\x00' := by rintro rfl; simp [isSpecialSymbol] at h
  refine ⟨tok, ?_⟩
  simp only [specialSymbolLoop, hnul, if_false, h, if_true, List.nil_append, htok]

theorem skipWhiteSpaces_length_lt :
    ∀ {input : List Char}, (skipWhiteSpaces input).1 ≠ '\x00' →
      (skipWhiteSpaces input).2.length < input.length
  | [], h => by simp [skipWhiteSpaces] at h
  | ch :: rest, h => by
      unfold skipWhiteSpaces at h ⊢
      split
      · next hwhite =>
        rw [if_pos hwhite] at h
        have := skipWhiteSpaces_length_lt h
        simp only [List.length_cons]
        omega
      · simp

theorem isWhitespace_skipWhiteSpaces : ∀ input : List Char,
    isWhitespace (skipWhiteSpaces input).1 = false
  | [] => rfl
  | ch :: rest => by
      unfold skipWhiteSpaces
      split
      · exact isWhitespace_skipWhiteSpaces rest
      · next hwhite => exact Bool.eq_false_iff.mpr hwhite

/-- What `Lex` does after the blanks: the end of the string at a `0` or the end, a run of
symbols at a special symbol, a word otherwise. -/
theorem lex_cases (input : List Char) :
    ((skipWhiteSpaces input).1 = '\x00' ∧ lex input = (eosItem, (skipWhiteSpaces input).2)) ∨
    (isSpecialSymbol (skipWhiteSpaces input).1 = true ∧
      lex input = scanSpecialSymbol ((skipWhiteSpaces input).1 :: (skipWhiteSpaces input).2)) ∨
    (isPlain (skipWhiteSpaces input).1 = true ∧
      lex input = scanIDOrKeyword ((skipWhiteSpaces input).1 :: (skipWhiteSpaces input).2)) := by
  have hwhite := isWhitespace_skipWhiteSpaces input
  unfold lex
  generalize skipWhiteSpaces input = s at hwhite ⊢
  obtain ⟨ch, rest⟩ := s
  simp only at hwhite ⊢
  by_cases hnul : ch = '\x00'
  · exact .inl ⟨hnul, by simp [hnul, eosItem]⟩
  by_cases hspecial : isSpecialSymbol ch = true
  · exact .inr (.inl ⟨hspecial, by simp [hnul, hspecial]⟩)
  · refine .inr (.inr ⟨?_, by simp [hnul, hspecial]⟩)
    simp [isPlain, hnul, hwhite, hspecial]

theorem scanSpecialSymbol_suffix {ch : Char} {rest : List Char} (h : isSpecialSymbol ch = true) :
    (scanSpecialSymbol (ch :: rest)).2 <:+ rest := by
  obtain ⟨tok, hfirst⟩ := @specialSymbolLoop_first _ rest h
  have hsuffix := specialSymbolLoop_suffix [ch] ⟨tok, String.ofList [ch]⟩ rest
  unfold scanSpecialSymbol
  rw [hfirst]
  generalize specialSymbolLoop [ch] ⟨tok, String.ofList [ch]⟩ rest = res at hsuffix ⊢
  obtain ⟨buffer, last, r⟩ := res
  dsimp only at hsuffix ⊢
  split <;> exact hsuffix

theorem scanIDOrKeyword_suffix {ch : Char} {rest : List Char} (h : isPlain ch = true) :
    (scanIDOrKeyword (ch :: rest)).2 <:+ rest := by
  simp only [isPlain, Bool.and_eq_true, Bool.not_eq_true', bne_iff_ne, ne_eq] at h
  have hfirst : identifierLoop [] (ch :: rest) = identifierLoop [ch] rest := by
    simp [identifierLoop, h.2, h.1.1, h.1.2]
  have hsuffix := identifierLoop_suffix [ch] rest
  unfold scanIDOrKeyword
  rw [hfirst]
  generalize identifierLoop [ch] rest = res at hsuffix ⊢
  obtain ⟨buffer, r⟩ := res
  dsimp only at hsuffix ⊢
  split <;> exact hsuffix

/-- A step reads a part of the input and leaves the rest. -/
theorem lex_suffix (input : List Char) : (lex input).2 <:+ input := by
  have hskip := skipWhiteSpaces_suffix input
  rcases lex_cases input with ⟨_, heq⟩ | ⟨hspecial, heq⟩ | ⟨hplain, heq⟩
  · rw [heq]
    exact hskip
  · rw [heq]
    exact (scanSpecialSymbol_suffix hspecial).trans hskip
  · rw [heq]
    exact (scanIDOrKeyword_suffix hplain).trans hskip

/-- A step that does not give the end of the string reads at least one character. -/
theorem lex_length_lt {input : List Char} (h : (lex input).1.tok ≠ .endOfStringToken) :
    (lex input).2.length < input.length := by
  rcases lex_cases input with ⟨hnul, heq⟩ | ⟨hspecial, heq⟩ | ⟨hplain, heq⟩
  · rw [heq] at h
    exact absurd rfl h
  · have hnul : (skipWhiteSpaces input).1 ≠ '\x00' := by
      intro hnul
      rw [hnul] at hspecial
      exact absurd hspecial (by decide)
    have := skipWhiteSpaces_length_lt hnul
    rw [heq]
    have := (@scanSpecialSymbol_suffix _ (skipWhiteSpaces input).2 hspecial).length_le
    omega
  · have hnul : (skipWhiteSpaces input).1 ≠ '\x00' := by
      intro hnul
      rw [hnul] at hplain
      exact absurd hplain (by decide)
    have := skipWhiteSpaces_length_lt hnul
    rw [heq]
    have := (@scanIDOrKeyword_suffix _ (skipWhiteSpaces input).2 hplain).length_le
    omega

/-- The only text of `string2token` that ends in a comma is the comma. -/
theorem string2token_eq_comma {l : List Char} {tok : Token} (h : string2token l = some tok)
    (hlast : l.getLast? = some ',') : l = [','] := by
  unfold string2token at h
  split at h
  all_goals first
    | rfl
    | exact absurd hlast (by decide)
    | simp at h

/-- No text of `string2token` is a longer text ending in a comma. -/
theorem string2token_append_comma {buffer : List Char} (h : buffer ≠ []) :
    string2token (buffer ++ [',']) = none := by
  cases hs : string2token (buffer ++ [',']) with
  | none => rfl
  | some tok =>
      have hone := string2token_eq_comma hs List.getLast?_concat
      -- the buffer and the comma are one character
      have hlen := congrArg List.length hone
      simp only [List.length_append, List.length_singleton, Nat.add_eq_right] at hlen
      exact absurd (List.length_eq_zero_iff.mp hlen) h

/-- `string2token` names no error, no end of string and no identifier. -/
theorem string2token_tok {buffer : List Char} {tok : Token}
    (h : string2token buffer = some tok) :
    tok ≠ .errorToken ∧ tok ≠ .endOfStringToken ∧ tok ≠ .identifierToken := by
  unfold string2token at h
  split at h
  all_goals first
    | (cases h; decide)
    | exact absurd h (by simp)

/-- The end of a word: a special symbol, a blank or the end of the input stops it, and the
word is the buffer. -/
theorem identifierLoop_word {w rest : List Char} (hw : ∀ c ∈ w, isPlain c = true)
    (hrest : Stops rest) (buffer : List Char) :
    identifierLoop buffer (w ++ rest) = (buffer ++ w, rest) := by
  induction w generalizing buffer with
  | nil =>
      cases rest with
      | nil => simp [identifierLoop]
      | cons c rest =>
          have hc := hrest c rfl
          have hnul : c ≠ '\x00' := by
            rintro rfl
            simp [isSpecialSymbol, isWhitespace] at hc
          simp only [List.nil_append, List.append_nil, identifierLoop, hnul, if_false]
          rcases hc with hc | hc <;> simp [hc]
  | cons c w ih =>
      have hc := hw c List.mem_cons_self
      simp only [isPlain, Bool.and_eq_true, Bool.not_eq_true', bne_iff_ne, ne_eq] at hc
      simp only [List.cons_append, identifierLoop, hc.2, if_false, hc.1.1, hc.1.2,
        Bool.or_false]
      rw [ih (fun c' hc' => hw c' (List.mem_cons_of_mem c hc'))]
      simp

theorem skipWhiteSpaces_cons {c : Char} (rest : List Char) (hc : isWhitespace c = false) :
    skipWhiteSpaces (c :: rest) = (c, rest) := by
  simp [skipWhiteSpaces, hc]

/-- `Lex` at a character that is not blank: a run of symbols at a special symbol, a word at
a character that is neither special nor `0`. -/
theorem lex_cons_special {c : Char} (rest : List Char) (hc : isSpecialSymbol c = true) :
    lex (c :: rest) = scanSpecialSymbol (c :: rest) := by
  have hnul : c ≠ '\x00' := by rintro rfl; simp [isSpecialSymbol] at hc
  have hwhite : isWhitespace c = false := by
    simp only [isSpecialSymbol, Bool.or_eq_true, beq_iff_eq] at hc
    rcases hc with ((((((rfl | rfl) | rfl) | rfl) | rfl) | rfl) | rfl) <;> rfl
  simp only [lex, skipWhiteSpaces_cons rest hwhite, if_neg hnul, if_pos hc]

theorem lex_cons_plain {c : Char} (rest : List Char) (hc : isPlain c = true) :
    lex (c :: rest) = scanIDOrKeyword (c :: rest) := by
  simp only [isPlain, Bool.and_eq_true, Bool.not_eq_true', bne_iff_ne, ne_eq] at hc
  simp only [lex, skipWhiteSpaces_cons rest hc.1.2, if_neg hc.2, hc.1.1, Bool.false_eq_true,
    if_false]

/-- A symbol that makes the buffer a token replaces the last token read. -/
theorem specialSymbolLoop_cons_token {buffer rest : List Char} {c : Char} {last : ScannedItem}
    {tok : Token} (hc : isSpecialSymbol c = true) (htok : string2token (buffer ++ [c]) = some tok) :
    specialSymbolLoop buffer last (c :: rest) =
      specialSymbolLoop (buffer ++ [c]) ⟨tok, String.ofList (buffer ++ [c])⟩ rest := by
  have hnul : c ≠ '\x00' := by rintro rfl; simp [isSpecialSymbol] at hc
  rw [specialSymbolLoop, if_neg hnul, if_pos hc]
  simp only [htok]

/-- The last token of the loop is the one it started with or one of `string2token`, so it
keeps every property that those have. -/
theorem specialSymbolLoop_last (P : Token → Prop)
    (hP : ∀ {buffer : List Char} {tok : Token}, string2token buffer = some tok → P tok)
    (buffer : List Char) (last : ScannedItem) (hlast : P last.tok) :
    ∀ input, P (specialSymbolLoop buffer last input).2.1.tok := by
  intro input
  induction input generalizing buffer last with
  | nil => exact hlast
  | cons c rest ih =>
      unfold specialSymbolLoop
      split
      · exact hlast
      split
      · simp only
        split
        · next tok htok => exact ih _ _ (hP htok)
        · first
            | exact hlast
            | split
              · exact hlast
              · exact ih _ _ hlast
      · exact hlast

/-- Once a token is read, the loop keeps one. -/
theorem specialSymbolLoop_last_ne (buffer : List Char) (last : ScannedItem)
    (hlast : last.tok ≠ .errorToken) :
    ∀ input, (specialSymbolLoop buffer last input).2.1.tok ≠ .errorToken :=
  specialSymbolLoop_last (· ≠ .errorToken) (fun h => (string2token_tok h).1) buffer last hlast

/-- A run of symbols starting with the token `[c]`: the result is the loop's. -/
theorem scanSpecialSymbol_cons {c : Char} {rest : List Char} {tok : Token}
    (hc : isSpecialSymbol c = true) (htok : string2token [c] = some tok) :
    scanSpecialSymbol (c :: rest) = (specialSymbolLoop [c] ⟨tok, String.ofList [c]⟩ rest).2 := by
  have hne := specialSymbolLoop_last_ne [c] ⟨tok, String.ofList [c]⟩
    (string2token_tok htok).1 rest
  unfold scanSpecialSymbol
  rw [specialSymbolLoop_cons_token hc (by simpa using htok), List.nil_append]
  generalize specialSymbolLoop [c] ⟨tok, String.ofList [c]⟩ rest = res at hne ⊢
  obtain ⟨buffer, last, r⟩ := res
  exact if_neg hne

/-- A word followed by a special symbol, a blank or the end is read as one token. -/
theorem lex_word {w rest : List Char} (hne : w ≠ []) (hw : ∀ c ∈ w, isPlain c = true)
    (hrest : Stops rest) : lex (w ++ rest) = (wordItem w, rest) := by
  obtain ⟨c, w', rfl⟩ := List.exists_cons_of_ne_nil hne
  have hid := identifierLoop_word hw hrest []
  rw [List.nil_append] at hid
  rw [List.cons_append, lex_cons_plain _ (hw c List.mem_cons_self), ← List.cons_append,
    scanIDOrKeyword, hid, wordItem]
  dsimp only
  cases string2token (c :: w') <;> rfl

/-- Blanks before a token are skipped. -/
theorem lex_blank {c : Char} (rest : List Char) (hc : isWhitespace c = true) :
    lex (c :: rest) = lex rest := by
  simp [lex, skipWhiteSpaces, hc]

/-- Once the buffer is a token and the input does not extend it, the run of symbols ends. -/
theorem specialSymbolLoop_end {buffer rest : List Char} {last : ScannedItem}
    (hlast : last.tok ≠ .errorToken) (hrest : SymbolEnds buffer rest) :
    (specialSymbolLoop buffer last rest).2 = (last, rest) := by
  cases rest with
  | nil => rfl
  | cons c rest =>
      obtain ⟨hnul, hext⟩ := hrest c rfl
      unfold specialSymbolLoop
      rw [if_neg hnul]
      by_cases hc : isSpecialSymbol c = true
      · simp [hc, hext hc, hlast]
      · simp [hc]

/-- A one-symbol token. -/
theorem lex_symbol1 {c : Char} {rest : List Char} {tok : Token} (hc : isSpecialSymbol c = true)
    (htok : string2token [c] = some tok) (hrest : SymbolEnds [c] rest) :
    lex (c :: rest) = (⟨tok, String.ofList [c]⟩, rest) := by
  rw [lex_cons_special rest hc, scanSpecialSymbol_cons hc htok,
    specialSymbolLoop_end (string2token_tok htok).1 hrest]

/-- A two-symbol token whose first symbol is a token too. -/
theorem lex_symbol2 {c₁ c₂ : Char} {rest : List Char} {tok₁ tok : Token}
    (hc₁ : isSpecialSymbol c₁ = true) (hc₂ : isSpecialSymbol c₂ = true)
    (htok₁ : string2token [c₁] = some tok₁) (htok : string2token [c₁, c₂] = some tok)
    (hrest : SymbolEnds [c₁, c₂] rest) :
    lex (c₁ :: c₂ :: rest) = (⟨tok, String.ofList [c₁, c₂]⟩, rest) := by
  rw [lex_cons_special _ hc₁, scanSpecialSymbol_cons hc₁ htok₁,
    specialSymbolLoop_cons_token hc₂ (by simpa using htok), List.singleton_append,
    specialSymbolLoop_end (string2token_tok htok).1 hrest]

/-- A comma is a token of its own: no token is longer and starts with one. -/
theorem lex_comma {b : List Char} (hb : ∀ c ∈ b.head?, c ≠ '\x00') :
    lex (',' :: b) = (commaItem, b) := by
  have h := @lex_symbol1 ',' b .commaToken rfl rfl (by
    intro c hc
    refine ⟨hb c hc, fun _ => ?_⟩
    exact string2token_append_comma (List.cons_ne_nil ',' []))
  rw [h]
  rfl

/-! ## Runs of the lexer -/

/-- `Scans input items`: lexing `input` token by token gives `items`, up to and including
the end of the string. -/
inductive Scans : List Char → List ScannedItem → Prop
  | eos {input rest : List Char} : lex input = (eosItem, rest) → Scans input [eosItem]
  | step {input rest : List Char} {item : ScannedItem} {items : List ScannedItem} :
      lex input = (item, rest) → item.tok ≠ .endOfStringToken → Scans rest items →
      Scans input (item :: items)

theorem scanSpecialSymbol_tok_ne {c : Char} {rest : List Char} (hc : isSpecialSymbol c = true) :
    (scanSpecialSymbol (c :: rest)).1.tok ≠ .endOfStringToken := by
  obtain ⟨tok, htok⟩ := string2token_singleton hc
  rw [scanSpecialSymbol_cons hc htok]
  exact specialSymbolLoop_last (· ≠ .endOfStringToken) (fun h => (string2token_tok h).2.1) [c]
    _ (string2token_tok htok).2.1 rest

theorem scanIDOrKeyword_tok_ne (input : List Char) :
    (scanIDOrKeyword input).1.tok ≠ .endOfStringToken := by
  unfold scanIDOrKeyword
  generalize identifierLoop [] input = res
  obtain ⟨buffer, rest⟩ := res
  dsimp only
  split
  · next tok htok => exact (string2token_tok htok).2.1
  · simp

/-- The end of the string is always the same item. -/
theorem lex_eq_eosItem {input : List Char} (h : (lex input).1.tok = .endOfStringToken) :
    (lex input).1 = eosItem := by
  rcases lex_cases input with ⟨_, heq⟩ | ⟨hspecial, heq⟩ | ⟨_, heq⟩
  · rw [heq]
  · rw [heq] at h
    exact absurd h (scanSpecialSymbol_tok_ne hspecial)
  · rw [heq] at h
    exact absurd h (scanIDOrKeyword_tok_ne _)

theorem scanLoop_of_scans {input : List Char} {items : List ScannedItem} (h : Scans input items) :
    ∀ {fuel : Nat}, input.length < fuel → scanLoop fuel input = items := by
  induction h with
  | eos hlex =>
      intro fuel hfuel
      obtain ⟨fuel, rfl⟩ : ∃ f, fuel = f + 1 := ⟨fuel - 1, by omega⟩
      simp [scanLoop, hlex, eosItem]
  | step hlex htok _ ih =>
      intro fuel hfuel
      obtain ⟨fuel, rfl⟩ : ∃ f, fuel = f + 1 := ⟨fuel - 1, by omega⟩
      have hlt := lex_length_lt (by rw [hlex]; exact htok)
      rw [hlex] at hlt
      simp only [scanLoop, hlex, if_neg htok]
      rw [ih (by simp only at hlt; omega)]

/-- The loop of `scan` runs to the end of the string. -/
theorem scans_scanLoop : ∀ (fuel : Nat) (input : List Char), input.length < fuel →
    Scans input (scanLoop fuel input)
  | 0, _, h => absurd h (Nat.not_lt_zero _)
  | fuel + 1, input, h => by
      rcases hlex : lex input with ⟨item, rest⟩
      by_cases htok : item.tok = .endOfStringToken
      · have hitem : item = eosItem := by
          have := @lex_eq_eosItem input (by rw [hlex]; exact htok)
          rwa [hlex] at this
        subst hitem
        simp only [scanLoop, hlex, if_pos htok]
        exact Scans.eos hlex
      · have hlt := @lex_length_lt input (by rw [hlex]; exact htok)
        rw [hlex] at hlt
        simp only [scanLoop, hlex, if_neg htok]
        exact Scans.step hlex htok (scans_scanLoop fuel rest (by simp only at hlt; omega))

theorem scans_scan (selector : String) : Scans selector.toList (scan selector) :=
  scans_scanLoop _ _ (Nat.lt_succ_self _)

theorem scan_eq_of_scans {selector : String} {items : List ScannedItem}
    (h : Scans selector.toList items) : scan selector = items :=
  scanLoop_of_scans h (Nat.lt_succ_self _)

/-- What is scanned ends with the end of the string. -/
theorem Scans.getLast? {input : List Char} {items : List ScannedItem} (h : Scans input items) :
    items.getLast? = some eosItem := by
  induction h with
  | eos => rfl
  | step _ _ hrest ih =>
      cases hrest with
      | eos => rfl
      | step => simpa using ih

/-- The end of the string is scanned once, last: a part of the items from it on is it alone. -/
theorem Scans.eq_of_suffix {input : List Char} {items : List ScannedItem} (h : Scans input items)
    {t : ScannedItem} {more : List ScannedItem} (hs : t :: more <:+ items)
    (ht : t.tok = .endOfStringToken) : t :: more = [eosItem] := by
  induction h with
  | eos =>
      rcases List.suffix_cons_iff.mp hs with h | h
      · exact h
      · simp at h
  | step _ htok _ ih =>
      rcases List.suffix_cons_iff.mp hs with h | h
      · obtain ⟨rfl, -⟩ := List.cons.inj h
        exact absurd ht htok
      · exact ih h

/-! ## Runs of a printed selector

Each lemma adds the token of one piece of text in front of a run of the lexer. -/

theorem isPlain_iff {c : Char} :
    isPlain c = true ↔ isSpecialSymbol c = false ∧ isWhitespace c = false ∧ c ≠ '\x00' := by
  simp [isPlain, and_assoc]

/-- The only tokens of two characters are `==`, `!=` and `in`. -/
theorem string2token_pair {a b : Char} {tok : Token} (h : string2token [a, b] = some tok) :
    a = '=' ∨ a = '!' ∨ a = 'i' := by
  unfold string2token at h
  split at h <;> simp_all

/-- A word goes on to the end of the text it is in. -/
theorem stops_nil : Stops [] := by
  simp [Stops]

theorem symbolEnds_of_plain {sym rest : List Char} (h : ∀ c ∈ rest.head?, isPlain c = true) :
    SymbolEnds sym rest := by
  intro c hc
  obtain ⟨hs, -, hnul⟩ := isPlain_iff.mp (h c hc)
  exact ⟨hnul, fun h' => absurd h' (by simp [hs])⟩

/-- No token is longer than a symbol other than `=` and `!` and starts with it. -/
theorem symbolEnds_single {sym : Char} {rest : List Char} (h₁ : sym ≠ '=') (h₂ : sym ≠ '!')
    (h₃ : sym ≠ 'i') (hnul : ∀ c ∈ rest.head?, c ≠ '\x00') : SymbolEnds [sym] rest := by
  intro c hc
  refine ⟨hnul c hc, fun _ => ?_⟩
  rw [List.singleton_append]
  cases h : string2token [sym, c] with
  | none => rfl
  | some tok => rcases string2token_pair h with h' | h' | h' <;> contradiction

theorem wordItem_tok_ne (w : List Char) : (wordItem w).tok ≠ .endOfStringToken := by
  unfold wordItem
  cases h : string2token w with
  | none => simp
  | some tok => exact (string2token_tok h).2.1

theorem Scans.nil : Scans [] [eosItem] :=
  @Scans.eos [] [] rfl

theorem Scans.word {w rest : List Char} {items : List ScannedItem} (hne : w ≠ [])
    (hw : ∀ c ∈ w, isPlain c = true) (hrest : Stops rest) (h : Scans rest items) :
    Scans (w ++ rest) (wordItem w :: items) :=
  Scans.step (lex_word hne hw hrest) (wordItem_tok_ne w) h

theorem Scans.blank {c : Char} {rest : List Char} {items : List ScannedItem}
    (hc : isWhitespace c = true) (h : Scans rest items) : Scans (c :: rest) items := by
  cases h with
  | eos hlex => exact Scans.eos (by rw [lex_blank rest hc, hlex])
  | step hlex htok hrest => exact Scans.step (by rw [lex_blank rest hc, hlex]) htok hrest

theorem Scans.symbol1 {c : Char} {rest : List Char} {tok : Token} {items : List ScannedItem}
    (hc : isSpecialSymbol c = true) (htok : string2token [c] = some tok)
    (hrest : SymbolEnds [c] rest) (h : Scans rest items) :
    Scans (c :: rest) (⟨tok, String.ofList [c]⟩ :: items) :=
  Scans.step (lex_symbol1 hc htok hrest) (string2token_tok htok).2.1 h

theorem Scans.symbol2 {c₁ c₂ : Char} {rest : List Char} {tok₁ tok : Token}
    {items : List ScannedItem} (hc₁ : isSpecialSymbol c₁ = true) (hc₂ : isSpecialSymbol c₂ = true)
    (htok₁ : string2token [c₁] = some tok₁) (htok : string2token [c₁, c₂] = some tok)
    (hrest : SymbolEnds [c₁, c₂] rest) (h : Scans rest items) :
    Scans (c₁ :: c₂ :: rest) (⟨tok, String.ofList [c₁, c₂]⟩ :: items) :=
  Scans.step (lex_symbol2 hc₁ hc₂ htok₁ htok hrest) (string2token_tok htok).2.1 h

/-- A run that reads a token before the end does not start with a `0`. -/
theorem Scans.head_ne_nul {input : List Char} {items : List ScannedItem} (h : Scans input items)
    (hlen : 1 < items.length) : ∀ c ∈ input.head?, c ≠ '\x00' := by
  intro c hc
  cases h with
  | eos => simp at hlen
  | step hlex htok _ =>
      rintro rfl
      cases input with
      | nil => simp at hc
      | cons d rest =>
          obtain rfl : d = '\x00' := by simpa using hc
          simp [lex, skipWhiteSpaces, isWhitespace] at hlex
          exact htok (hlex.1 ▸ rfl)

theorem Scans.comma {b : List Char} {items : List ScannedItem} (hb : ∀ c ∈ b.head?, c ≠ '\x00')
    (h : Scans b items) : Scans (',' :: b) (commaItem :: items) :=
  Scans.step (lex_comma hb) (by decide) h

/-! ## Lexing at a comma -/

theorem skipWhiteSpaces_append {a : List Char} (x : List Char)
    (h : (skipWhiteSpaces a).1 ≠ '\x00') :
    skipWhiteSpaces (a ++ x) = ((skipWhiteSpaces a).1, (skipWhiteSpaces a).2 ++ x) := by
  induction a with
  | nil => simp [skipWhiteSpaces] at h
  | cons c rest ih =>
      rw [List.cons_append]
      by_cases hc : isWhitespace c = true
      · simp only [skipWhiteSpaces, hc, if_true] at h ⊢
        exact ih h
      · simp [skipWhiteSpaces, hc]

/-- Blanks before the input are skipped; a `0` would end the string. -/
theorem skipWhiteSpaces_append_of_blank {a : List Char} (x : List Char)
    (hnul : ∀ c ∈ a, c ≠ '\x00') (h : (skipWhiteSpaces a).1 = '\x00') :
    skipWhiteSpaces (a ++ x) = skipWhiteSpaces x := by
  induction a with
  | nil => rfl
  | cons c rest ih =>
      rw [List.cons_append]
      by_cases hc : isWhitespace c = true
      · simp only [skipWhiteSpaces, hc, if_true] at h ⊢
        exact ih (fun c' hc' => hnul c' (List.mem_cons_of_mem c hc')) h
      · simp only [skipWhiteSpaces, hc, Bool.false_eq_true, if_false] at h
        exact absurd h (hnul c List.mem_cons_self)

/-- An identifier ends at a special symbol or a blank after the input as it ends at the end
of the input. -/
theorem identifierLoop_append {x : List Char} (hnul : ∀ c ∈ x, c ≠ '\x00') {c : Char}
    (hc : isSpecialSymbol c = true ∨ isWhitespace c = true) (b buffer : List Char) :
    identifierLoop buffer (x ++ c :: b) =
      ((identifierLoop buffer x).1, (identifierLoop buffer x).2 ++ c :: b) := by
  induction x generalizing buffer with
  | nil =>
      have hcnul : c ≠ '\x00' := by
        rintro rfl
        simp [isSpecialSymbol, isWhitespace] at hc
      rcases hc with hc | hc <;> simp [identifierLoop, hcnul, hc]
  | cons d rest ih =>
      have hd := hnul d List.mem_cons_self
      simp only [List.cons_append, identifierLoop, if_neg hd]
      split
      · rfl
      · exact ih (fun c' hc' => hnul c' (List.mem_cons_of_mem d hc')) _

/-- A run of symbols that has a token ends at a comma after the input as it ends at the end
of the input. -/
theorem specialSymbolLoop_append_comma {x : List Char} (hnul : ∀ c ∈ x, c ≠ '\x00')
    (b : List Char) {buffer : List Char} (hbuffer : buffer ≠ []) {last : ScannedItem}
    (hlast : last.tok ≠ .errorToken) :
    (specialSymbolLoop buffer last (x ++ ',' :: b)).2 =
      ((specialSymbolLoop buffer last x).2.1, (specialSymbolLoop buffer last x).2.2 ++ ',' :: b) := by
  induction x generalizing buffer last with
  | nil =>
      have hend := @specialSymbolLoop_end buffer (',' :: b) _ hlast (by
        intro c hc
        simp only [List.head?_cons, Option.mem_def, Option.some.injEq] at hc
        subst hc
        exact ⟨by decide, fun _ => string2token_append_comma hbuffer⟩)
      simpa [specialSymbolLoop] using hend
  | cons d rest ih =>
      have hd := hnul d List.mem_cons_self
      have hrest : ∀ c ∈ rest, c ≠ '\x00' := fun c hc => hnul c (List.mem_cons_of_mem d hc)
      simp only [List.cons_append, specialSymbolLoop, if_neg hd]
      split
      · split
        · next tok htok =>
          exact ih hrest (by simp) (string2token_tok htok).1
        · rfl
      · rfl

theorem scanSpecialSymbol_append_comma {c : Char} {x : List Char} (hc : isSpecialSymbol c = true)
    (hnul : ∀ d ∈ x, d ≠ '\x00') (b : List Char) :
    scanSpecialSymbol (c :: x ++ ',' :: b) =
      ((scanSpecialSymbol (c :: x)).1, (scanSpecialSymbol (c :: x)).2 ++ ',' :: b) := by
  obtain ⟨tok, htok⟩ := string2token_singleton hc
  rw [List.cons_append, scanSpecialSymbol_cons hc htok, scanSpecialSymbol_cons hc htok,
    specialSymbolLoop_append_comma hnul b (List.cons_ne_nil c []) (string2token_tok htok).1]

theorem scanIDOrKeyword_append {x : List Char} (hnul : ∀ c ∈ x, c ≠ '\x00') {c : Char}
    (hc : isSpecialSymbol c = true ∨ isWhitespace c = true) (b : List Char) :
    scanIDOrKeyword (x ++ c :: b) =
      ((scanIDOrKeyword x).1, (scanIDOrKeyword x).2 ++ c :: b) := by
  unfold scanIDOrKeyword
  rw [identifierLoop_append hnul hc b []]
  generalize identifierLoop [] x = res
  obtain ⟨buffer, rest⟩ := res
  dsimp only
  split <;> rfl

/-- A token of `a` is read the same when a comma and more follow `a`, if `a` has no `0`. -/
theorem lex_append_comma {a : List Char} (b : List Char) (hnul : ∀ c ∈ a, c ≠ '\x00')
    (h : (lex a).1.tok ≠ .endOfStringToken) :
    lex (a ++ ',' :: b) = ((lex a).1, (lex a).2 ++ ',' :: b) := by
  have hsuffix := skipWhiteSpaces_suffix a
  generalize hs : skipWhiteSpaces a = s at hsuffix
  obtain ⟨ch, rest⟩ := s
  have hrest : ∀ c ∈ rest, c ≠ '\x00' := fun c hc => hnul c (hsuffix.subset hc)
  have hlex : lex a = if ch = '\x00' then (eosItem, rest)
      else if isSpecialSymbol ch then scanSpecialSymbol (ch :: rest)
      else scanIDOrKeyword (ch :: rest) := by
    simp only [lex, hs, eosItem]
  by_cases hch : ch = '\x00'
  · rw [hlex, if_pos hch] at h
    exact absurd rfl h
  have hs' : skipWhiteSpaces (a ++ ',' :: b) = (ch, rest ++ ',' :: b) := by
    rw [skipWhiteSpaces_append _ (by rw [hs]; exact hch), hs]
  rw [hlex, if_neg hch]
  simp only [lex, hs', if_neg hch]
  split
  · next hspecial =>
    rw [← List.cons_append, scanSpecialSymbol_append_comma hspecial hrest]
  · next hspecial =>
    rw [← List.cons_append, scanIDOrKeyword_append (by
      intro c hc
      rcases List.mem_cons.mp hc with rfl | hc
      · exact hch
      · exact hrest c hc) (.inl rfl)]

/-- Input that lexes to the end of the string, and has no `0`, is blank. -/
theorem lex_append_of_eos {a : List Char} (x : List Char) (hnul : ∀ c ∈ a, c ≠ '\x00')
    (h : (lex a).1.tok = .endOfStringToken) : lex (a ++ x) = lex x := by
  rcases lex_cases a with ⟨hblank, _⟩ | ⟨hspecial, heq⟩ | ⟨_, heq⟩
  · unfold lex
    rw [skipWhiteSpaces_append_of_blank x hnul hblank]
  · rw [heq] at h
    exact absurd h (scanSpecialSymbol_tok_ne hspecial)
  · rw [heq] at h
    exact absurd h (scanIDOrKeyword_tok_ne _)

/-- Lexing `a ++ ',' :: b` is lexing `a`, then the comma, then `b`, when neither `a` nor the
start of `b` is a `0`. -/
theorem Scans.append_comma {a b : List Char} {items us : List ScannedItem} (h : Scans a items)
    (hnul : ∀ c ∈ a, c ≠ '\x00') (hb : Scans b us) (hbnul : ∀ c ∈ b.head?, c ≠ '\x00') :
    Scans (a ++ ',' :: b) (items.dropLast ++ commaItem :: us) := by
  induction h with
  | @eos input rest hlex =>
      have heos : (lex input).1.tok = .endOfStringToken := by rw [hlex]; rfl
      refine @Scans.step _ b _ _ ?_ (by decide) hb
      rw [lex_append_of_eos _ hnul heos, lex_comma hbnul]
  | @step input rest item items hlex htok hrest ih =>
      have hsuffix : rest <:+ input := by
        have := lex_suffix input
        rwa [hlex] at this
      have hne : items ≠ [] := by
        cases hrest <;> simp
      rw [List.dropLast_cons_of_ne_nil hne, List.cons_append]
      refine @Scans.step _ (rest ++ ',' :: b) _ _ ?_ htok
        (ih (fun c hc => hnul c (hsuffix.subset hc)))
      rw [lex_append_comma b hnul (by rw [hlex]; exact htok), hlex]

end Labels
end Kubernetes
