import Kubernetes.Labels.Lexer
import Kubernetes.Labels.Selector

/-!
# The label selector parser

`Parser.parse` (`apimachinery/pkg/labels/selector.go`) reads the items `scan` produced by
recursive descent: a requirement is an optional `!`, a key, and either nothing or an
operator and values; requirements are separated by commas.  `labels.Parse` then sorts the
requirements by key (`sort.Sort(ByKey(items))`).

The parser's position into the items is the list of the items not read yet: `lookahead`
reads its head, `consume` takes it.  In the context `Values` the keywords `in` and `notin`
read as identifiers.  The items end with the end of the string and no function reads past
it, where Go would index out of range; reading an empty list gives the end of the string.

Every function but the loops is a sequence of reads and checks, translated statement for
statement.  `parseIdentifiersList` recurses on the items after the ones it consumed;
`parseLoop` is given as many rounds as there are items, and each round reads at least two.
-/

namespace Kubernetes
namespace Labels

/-- `ParserContext`. -/
inductive ParserContext
  | keyAndOperator
  | values
  deriving DecidableEq, Repr

/-- The token as read in a context: `in` and `notin` are identifiers among values. -/
def contextToken : ParserContext → Token → Token
  | .values, .inToken | .values, .notInToken => .identifierToken
  | _, tok => tok
attribute [grind] contextToken

/-- `Parser.lookahead`. -/
def lookahead (context : ParserContext) : List ScannedItem → Token × String
  | [] => (.endOfStringToken, "")
  | item :: _ => (contextToken context item.tok, item.literal)
attribute [grind] lookahead

/-- `Parser.consume`: the token and literal, and the items after it. -/
def consume (context : ParserContext) : List ScannedItem → Token × String × List ScannedItem
  | [] => (.endOfStringToken, "", [])
  | item :: items => (contextToken context item.tok, item.literal, items)
attribute [grind] consume

/-- `binaryOperators`. -/
def binaryOperators : List String :=
  ["in", "notin", "=", "==", "!=", "gt", "lt"]
attribute [grind] binaryOperators

/-- `parseKeyAndInferOperator`: an optional `!` and a valid key; the operator is `!`,
`exists` when the key ends the requirement, and none when an operator follows. -/
def parseKeyAndInferOperator (items : List ScannedItem) :
    Except String (String × Option Operator × List ScannedItem) :=
  let (tok, literal, items) := consume .values items
  let (operator, tok, literal, items) :=
    if tok = .doesNotExistToken then (some Operator.doesNotExist, consume .values items)
    else (none, tok, literal, items)
  if tok ≠ .identifierToken then .error ("found '" ++ literal ++ "', expected: identifier")
  else
    match validateLabelKey literal "<nil>" with
    | some err => .error err.error
    | none =>
        let t := (lookahead .values items).1
        let operator :=
          if t = .endOfStringToken ∨ t = .commaToken then
            if operator ≠ some .doesNotExist then some .«exists» else operator
          else operator
        .ok (literal, operator, items)
attribute [grind] parseKeyAndInferOperator

/-- `parseOperator`. -/
def parseOperator (items : List ScannedItem) : Except String (Operator × List ScannedItem) :=
  let (tok, lit, items) := consume .keyAndOperator items
  match tok with
  | .inToken => .ok (.«in», items)
  | .equalsToken => .ok (.equals, items)
  | .doubleEqualsToken => .ok (.doubleEquals, items)
  | .greaterThanToken => .ok (.greaterThan, items)
  | .lessThanToken => .ok (.lessThan, items)
  | .notInToken => .ok (.notIn, items)
  | .notEqualsToken => .ok (.notEquals, items)
  | _ => .error ("found '" ++ lit ++ "', expected: " ++ String.intercalate ", " binaryOperators)
attribute [grind] parseOperator

/-- `parseIdentifiersList`: values separated by commas up to a `)`, which is left unread.
The set of values is a list without repeats (`sets.String.Insert`); a comma with no value
before or after it adds the empty value.  The lookahead is the head of the items after the
one consumed, or the end of the string after the last item. -/
def parseIdentifiersList (s : List String) :
    List ScannedItem → Except String (List String × List ScannedItem)
  | [] => .error "found '', expected: ',', or identifier"
  | [item] =>
      match contextToken .values item.tok with
      | .identifierToken => .error "found '', expected: ',' or ')'"
      | .commaToken => parseIdentifiersList (if s.length = 0 then s.insert "" else s) []
      | _ => .error ("found '" ++ item.literal ++ "', expected: ',', or identifier")
  | item :: next :: rest =>
      match contextToken .values item.tok with
      | .identifierToken =>
          let s := s.insert item.literal
          match contextToken .values next.tok with
          | .commaToken => parseIdentifiersList s (next :: rest)
          | .closedParToken => .ok (s, next :: rest)
          | _ => .error ("found '" ++ next.literal ++ "', expected: ',' or ')'")
      | .commaToken =>
          -- `(,` gives the empty value, and so do `,)` and `,,`
          let s := if s.length = 0 then s.insert "" else s
          match contextToken .values next.tok with
          | .closedParToken => .ok (s.insert "", next :: rest)
          | .commaToken => parseIdentifiersList (s.insert "") rest
          | _ => parseIdentifiersList s (next :: rest)
      | _ => .error ("found '" ++ item.literal ++ "', expected: ',', or identifier")
attribute [grind] parseIdentifiersList

/-- `parseValues`: `(`, the values, `)`; `()` is the empty value alone. -/
def parseValues (items : List ScannedItem) : Except String (List String × List ScannedItem) :=
  let (tok, lit, items) := consume .values items
  if tok ≠ .openParToken then .error ("found '" ++ lit ++ "' expected: '('")
  else
    let (tok, lit) := lookahead .values items
    match tok with
    | .identifierToken | .commaToken =>
        match parseIdentifiersList [] items with
        | .error err => .error err
        | .ok (s, items) =>
            let (tok, _, items) := consume .values items
            if tok ≠ .closedParToken then .error ("found '" ++ lit ++ "', expected: ')'")
            else .ok (s, items)
    | .closedParToken => .ok ([""], (consume .values items).2.2)
    | _ => .error ("found '" ++ lit ++ "', expected: ',', ')' or identifier")
attribute [grind] parseValues

/-- `parseExactValue`: one value, empty when the requirement ends here. -/
def parseExactValue (items : List ScannedItem) : Except String (List String × List ScannedItem) :=
  let tok := (lookahead .values items).1
  if tok = .endOfStringToken ∨ tok = .commaToken then .ok ([""], items)
  else
    let (tok, lit, items) := consume .values items
    if tok = .identifierToken then .ok ([lit], items)
    else .error ("found '" ++ lit ++ "', expected: identifier")
attribute [grind] parseExactValue

/-- `values.List()`: the set of values in order. -/
def setList (s : List String) : List String :=
  Go.sort s (fun a b => decide (a < b))
attribute [grind] setList

/-- The result of `NewRequirement` as `parseRequirement` returns it: the requirement, or the
aggregate of its errors. -/
def checked (result : Requirement × List FieldError) (items : List ScannedItem) :
    Except String (Requirement × List ScannedItem) :=
  if result.2 = [] then .ok (result.1, items) else .error (aggregateError result.2)
attribute [grind] checked

/-- The `switch operator` of `parseRequirement`: the values for a binary operator. -/
def parseOperatorValues (operator : Operator) (items : List ScannedItem) :
    Except String (List String × List ScannedItem) :=
  match operator with
  | .«in» | .notIn => parseValues items
  | .equals | .doubleEquals | .notEquals | .greaterThan | .lessThan => parseExactValue items
  | .«exists» | .doesNotExist => .ok ([], items)
attribute [grind] parseOperatorValues

/-- `parseRequirement` after a key that an operator follows. -/
def parseBinaryRequirement (key : String) (items : List ScannedItem) :
    Except String (Requirement × List ScannedItem) :=
  match parseOperator items with
  | .error err => .error err
  | .ok (operator, items) =>
      match parseOperatorValues operator items with
      | .error err => .error err
      | .ok (values, items) => checked (newRequirement key operator (setList values)) items
attribute [grind] parseBinaryRequirement

/-- `parseRequirement`: a requirement with an inferred operator has no values. -/
def parseRequirement (items : List ScannedItem) : Except String (Requirement × List ScannedItem) :=
  match parseKeyAndInferOperator items with
  | .error err => .error err
  | .ok (key, operator, items) =>
      match operator with
      | some .«exists» => checked (newRequirement key .«exists» []) items
      | some .doesNotExist => checked (newRequirement key .doesNotExist []) items
      | _ => parseBinaryRequirement key items
attribute [grind] parseRequirement

/-- The loop of `Parser.parse`: requirements separated by commas, to the end of the string.
One round per item is more than enough (`parse`). -/
def parseLoop : Nat → List Requirement → List ScannedItem → Except String (List Requirement)
  | 0, _, _ => .error "unable to parse requirement"
  | fuel + 1, requirements, items =>
      match lookahead .values items with
      | (.identifierToken, _) | (.doesNotExistToken, _) =>
          match parseRequirement items with
          | .error err => .error ("unable to parse requirement: " ++ err)
          | .ok (r, items) =>
              let requirements := requirements ++ [r]
              let (t, l, items) := consume .values items
              match t with
              | .endOfStringToken => .ok requirements
              | .commaToken =>
                  let (t2, l2) := lookahead .values items
                  if t2 ≠ .identifierToken ∧ t2 ≠ .doesNotExistToken then
                    .error ("found '" ++ l2 ++ "', expected: identifier after ','")
                  else parseLoop fuel requirements items
              | _ => .error ("found '" ++ l ++ "', expected: ',' or 'end of string'")
      | (.endOfStringToken, _) => .ok requirements
      | (_, lit) => .error ("found '" ++ lit ++ "', expected: !, identifier, or 'end of string'")
attribute [grind] parseLoop

/-- `labels.Parse`: the requirements sorted by key. -/
def parse (selector : String) : Except String (List Requirement) :=
  let items := scan selector
  match parseLoop items.length [] items with
  | .error err => .error err
  | .ok requirements => .ok (Go.sort requirements (fun a b => decide (a.key < b.key)))
attribute [grind] parse

end Labels
end Kubernetes
