import Akabbo.Amounts
import Akabbo.CaptureStaging

/-!
# The deterministic parser

Common, well-shaped utterances are read without the language model. What the parser cannot read
comes to nothing and is left to the model.
-/
namespace Akabbo.Tier1Parser
open RegularExpressions TextPatterns Amounts PledgeStatus CaptureRouting CaptureStaging

def paymentVerbs : List String :=
  ["paid", "sent", "gave", "deposited", "contributed", "brought", "dropped"]

def pledgeVerbs : List String := ["pledged", "promised", "committed"]

def isFigure (c : Char) : Bool := c.isDigit || c == ','

/-- `\d[\d,]*(?:\.\d+)?`. -/
def figurePattern : Regex Char :=
  Regex.all [digit, .star false (.one isFigure), (Regex.all [sign '.', digit.plus]).optional]

def isMultiplier (c : Char) : Bool := c.toLower == 'k' || c.toLower == 'm'

/-- `\d[\d,]*(?:\.\d+)?(?:[km](?![a-z]))?`. -/
def tokenPattern : Regex Char :=
  .seq figurePattern (Regex.all [.one isMultiplier, .notAhead (.one Char.isAlpha)]).optional

/-- `/(?:ugx|usd|shs?|\$)?\s?(\d[\d,]*(?:\.\d+)?(?:[km](?![a-z]))?)/i`. -/
def moneyToken : Regex Char :=
  Regex.all [currency.optional, space.optional, .group 1 tokenPattern]

/-- `/^\s*(?:ugx|usd|shs?|\$)?\s?\d[\d,]*(?:\.\d+)?\s?[km]?\s*$/i`. -/
def amountLike : Regex Char :=
  Regex.all [.start, .star false space, currency.optional, space.optional, figurePattern,
    space.optional, (Regex.one isMultiplier).optional, .star false space, .finish]

/-- `/\b(summary|totals?|how much (have|did) we (raise[d]?|collect(ed)?|get))\b/i`. -/
def summaryPattern : Regex Char :=
  Regex.all [bound,
    Regex.any [literal "summary", Regex.all [literal "total", (letter 's').optional],
      Regex.all [literal "how much ", Regex.any [literal "have", literal "did"], literal " we ",
        Regex.any [Regex.all [literal "raise", (letter 'd').optional],
          Regex.all [literal "collect", (literal "ed").optional], literal "get"]]],
    bound]

/-- The straight or the curly apostrophe. -/
def isApostrophe (c : Char) : Bool := c.toNat == 39 || c.toNat == 8217

/-- `how much does (.+?) owe` or `(.+?)` followed by an apostrophe and `s (?:balance|outstanding)`. -/
def owesPattern : Regex Char :=
  Regex.any [
    Regex.all [literal "how much does ", .group 1 (dot.plus true), literal " owe"],
    Regex.all [.group 2 (dot.plus true), .one isApostrophe, literal "s ",
      Regex.any [literal "balance", literal "outstanding"]]]

/-- `\b(who owes|outstanding|remaining balance|what(s| is) outstanding)\b`, where the `s` may follow
an apostrophe. -/
def outstandingPattern : Regex Char :=
  Regex.all [bound,
    Regex.any [literal "who owes", literal "outstanding", literal "remaining balance",
      Regex.all [literal "what",
        Regex.any [Regex.all [(Regex.one fun c => c.toNat == 39).optional, letter 's'], literal " is"],
        literal " outstanding"]],
    bound]

/-- `record\s+`, and its like. -/
def command (word : String) : Regex Char := Regex.all [literal word, space.plus]

def commandPattern : Regex Char := Regex.any [command "record", command "note", command "log"]

def verbs : Regex Char := Regex.any ((paymentVerbs ++ pledgeVerbs).map literal)

/-- What follows the command: `(.+?)\s+(paid|sent|...)\s+(.+)$`. -/
def clausePattern : Regex Char :=
  Regex.all [.group 1 (dot.plus true), space.plus, .group 2 verbs, space.plus, .group 3 dot.plus,
    .finish]

/-- `/^(?:record\s+|note\s+|log\s+)?(.+?)\s+(paid|sent|...)\s+(.+)$/i`. -/
def verbPattern : Regex Char := Regex.all [.start, commandPattern.optional, clausePattern]

/-- `/^\s*\d[\d,]*(?:\.\d+)?\s*\S*\s+of\s+\S/i`. -/
def inKindPattern : Regex Char :=
  Regex.all [.start, .star false space, figurePattern, .star false space, .star false nonSpace,
    space.plus, literal "of", space.plus, nonSpace]

/-- `/^(?:add|new)\s+(?:person\s+|contributor\s+)?(.+)$/i`. -/
def addPattern : Regex Char :=
  Regex.all [.start, Regex.any [literal "add", literal "new"], space.plus,
    (Regex.any [command "person", command "contributor"]).optional, .group 1 dot.plus, .finish]

/-- The first money-looking token of a text. -/
def extractAmount (text : List Char) : Option ℕ := do
  let groups ← moneyToken.exec text
  let token ← groups 1
  parseAmountToMinorUnits token

def looksLikeAmount (text : List Char) : Bool := amountLike.test text

/-- Whose balance is asked for. -/
def owesName (text : List Char) : Option (List Char) := do
  let groups ← owesPattern.exec text
  let name := trim ((groups 1 <|> groups 2).getD [])
  if name.isEmpty then none else some name

/-- `text.replace(/[.,!?]+$/, '')`. -/
def withoutEnd (text : List Char) : List Char :=
  (text.reverse.dropWhile fun c => c == '.' || c == ',' || c == '!' || c == '?').reverse

def addPerson (text : List Char) : Option ToolCall := do
  let groups ← addPattern.exec text
  let name := withoutEnd (trim ((groups 1).getD []))
  if !name.isEmpty && !looksLikeAmount name && decide (textLength (String.ofList name) ≤ 200) then
    some (.addPerson (String.ofList name) none none)
  else none

def recordCall (name verb : List Char) (amount : ℕ) : Option ToolCall :=
  if String.ofList (toLowerCase verb) ∈ paymentVerbs then
    some (.recordPayment (String.ofList name) (moneyToString amount) none none none)
  else if String.ofList (toLowerCase verb) ∈ pledgeVerbs then
    some (.recordPledge (String.ofList name) (moneyToString amount) none none none none)
  else none

/-- Payment or pledge: a name, a verb and an amount. The outer option is none where the text is to be
read further. -/
def recordMatch (text : List Char) : Option (Option ToolCall) := do
  let groups ← verbPattern.exec text
  let name := trim ((groups 1).getD [])
  let verb := (groups 2).getD []
  let rest := (groups 3).getD []
  -- a quantity of something is in kind and never an amount of money
  if inKindPattern.test rest then return none
  let amount ← extractAmount rest
  if name.isEmpty || looksLikeAmount name || amount == 0 then none
  else (recordCall name verb amount).map some

def parseText (text : List Char) : Option ToolCall :=
  if text.isEmpty then none
  else if summaryPattern.test text then some .getSummary
  else
    match owesName text with
    | some name => some (.getOutstanding (some (String.ofList name)))
    | none =>
      if outstandingPattern.test text then some (.getOutstanding none)
      else
        match recordMatch text with
        | some call => call
        | none => addPerson text

def parseTier1 (utterance : String) : Option ToolCall := parseText (collapse (trim utterance.toList))

end Akabbo.Tier1Parser
