import NobugDb.Utils.Exceptions

/-!
# Lexer

`Lexer` (`src/parser/lexer.cc`) over the characters that are left. The line and the column of
a token only stand in error messages and are left out, and so is the end-of-input token: the
parser's position is at the end when no token is left.
-/

namespace NobugDb

/-- `TokenType` (`include/parser/token.h`). The words Lean reserves carry the ending the
    source gives `NULL_KW`. -/
inductive TokenType where
  | select | insert | update | delete | create | drop | alter | add | column | rename | to
  | constraint | primary | key | unique | between | table | view | ifKw | fromKw | whereKw
  | and | or | not | join | inner | left | right | full | outer | cross | on | group | byKw
  | having | order | asc | desc | values | set | nullKw | trueKw | falseKw | as | distinct
  | index | references | foreign | cascade | restrict | begin | commit | rollback | prepare
  | execute | deallocate | inKw | exists | default | vacuum | explain | check | union
  | intersect | except | all | over | partition | range | hash | of | forKw | withKw | modulus
  | remainder | function | returns | returnKw | procedure | call | trigger | before | after
  | each | row
  | count | sum | avg | min | max
  | equal | notEqual | less | lessEqual | greater | greaterEqual | plus | minus | multiply
  | divide | modulo
  | lparen | rparen | comma | dot | semicolon | asterisk | parameter
  | identifier | number | string | dollarQuotedString
  | unknown
  deriving DecidableEq, Repr

structure Token where
  type : TokenType
  lexeme : String
  deriving DecidableEq, Repr

namespace Lexer

/-- `std::transform(…, ::toupper)`. -/
def toUpper (text : String) : String := String.ofList (text.toList.map Char.toUpper)

/-- The table of `Lexer::get_keyword_token_type` (`lexer.cc:341-437`). -/
def keywords : List (String × TokenType) :=
  [("SELECT", .select), ("INSERT", .insert), ("UPDATE", .update), ("DELETE", .delete),
   ("CREATE", .create), ("DROP", .drop), ("ALTER", .alter), ("ADD", .add),
   ("COLUMN", .column), ("RENAME", .rename), ("TO", .to), ("CONSTRAINT", .constraint),
   ("PRIMARY", .primary), ("KEY", .key), ("UNIQUE", .unique), ("BETWEEN", .between),
   ("TABLE", .table), ("VIEW", .view), ("IF", .ifKw), ("FROM", .fromKw), ("WHERE", .whereKw),
   ("AND", .and), ("OR", .or), ("NOT", .not), ("JOIN", .join), ("INNER", .inner),
   ("LEFT", .left), ("RIGHT", .right), ("FULL", .full), ("OUTER", .outer), ("CROSS", .cross),
   ("ON", .on), ("GROUP", .group), ("BY", .byKw), ("HAVING", .having), ("ORDER", .order),
   ("ASC", .asc), ("DESC", .desc), ("VALUES", .values), ("SET", .set), ("NULL", .nullKw),
   ("TRUE", .trueKw), ("FALSE", .falseKw), ("AS", .as), ("DISTINCT", .distinct),
   ("INDEX", .index), ("REFERENCES", .references), ("FOREIGN", .foreign),
   ("CASCADE", .cascade), ("RESTRICT", .restrict), ("BEGIN", .begin), ("COMMIT", .commit),
   ("ROLLBACK", .rollback), ("PREPARE", .prepare), ("EXECUTE", .execute),
   ("DEALLOCATE", .deallocate), ("IN", .inKw), ("EXISTS", .exists), ("DEFAULT", .default),
   ("VACUUM", .vacuum), ("EXPLAIN", .explain), ("CHECK", .check), ("UNION", .union),
   ("INTERSECT", .intersect), ("EXCEPT", .except), ("ALL", .all), ("OVER", .over),
   ("PARTITION", .partition), ("RANGE", .range), ("HASH", .hash), ("OF", .of),
   ("FOR", .forKw), ("WITH", .withKw), ("MODULUS", .modulus), ("REMAINDER", .remainder),
   ("FUNCTION", .function), ("RETURNS", .returns), ("RETURN", .returnKw),
   ("PROCEDURE", .procedure), ("CALL", .call), ("TRIGGER", .trigger), ("BEFORE", .before),
   ("AFTER", .after), ("EACH", .each), ("ROW", .row), ("COUNT", .count), ("SUM", .sum),
   ("AVG", .avg), ("MIN", .min), ("MAX", .max)]

def getKeywordTokenType (keyword : String) : TokenType :=
  (keywords.lookup (toUpper keyword)).getD .identifier

def isDigit (c : Char) : Bool := '0' ≤ c && c ≤ '9'

def isAlpha (c : Char) : Bool :=
  ('a' ≤ c && c ≤ 'z') || ('A' ≤ c && c ≤ 'Z') || c == '_'

def isAlphaNumeric (c : Char) : Bool := isAlpha c || isDigit c

def isSpace (c : Char) : Bool := c == ' ' || ('\x09' ≤ c && c ≤ '\x0d')

/-- An escape sequence's character in `scan_string`. -/
def unescape (c : Char) : Char :=
  if c = 'n' then '\n' else if c = 't' then '\t' else if c = 'r' then '\r' else c

/-- The value of a string and what follows it (`Lexer::scan_string`, `lexer.cc:183-239`). A
    string that is not closed ends with the input. -/
def scanString (quote : Char) : List Char → List Char × List Char
  | [] => ([], [])
  | [c] => if c = quote ∨ c = '\\' then ([], []) else ([c], [])
  | c :: d :: rest =>
    if c = quote then
      if d = quote then
        let (value, left) := scanString quote rest
        (quote :: value, left)
      else ([], d :: rest)
    else if c = '\\' then
      let (value, left) := scanString quote rest
      (unescape d :: value, left)
    else
      let (value, left) := scanString quote (d :: rest)
      (c :: value, left)

/-- The fraction of a number: a dot counts only when a digit follows it. -/
def scanFraction : List Char → List Char × List Char
  | '.' :: c :: rest =>
    if isDigit c then ('.' :: ((c :: rest).span isDigit).1, ((c :: rest).span isDigit).2)
    else ([], '.' :: c :: rest)
  | rest => ([], rest)

/-- The sign of an exponent. -/
def scanSign : List Char → List Char × List Char
  | c :: rest => if c = '+' ∨ c = '-' then ([c], rest) else ([], c :: rest)
  | [] => ([], [])

/-- The exponent of a number; its digits may be missing. -/
def scanExponent : List Char → List Char × List Char
  | c :: rest =>
    if c = 'e' ∨ c = 'E' then
      let (sign, rest) := scanSign rest
      (c :: sign ++ (rest.span isDigit).1, (rest.span isDigit).2)
    else ([], c :: rest)
  | [] => ([], [])

/-- `Lexer::scan_number` (`lexer.cc:241-275`). -/
def scanNumber (cs : List Char) : List Char × List Char :=
  let (digits, rest) := cs.span isDigit
  let (fraction, rest) := scanFraction rest
  let (exponent, rest) := scanExponent rest
  (digits ++ fraction ++ exponent, rest)

/-- `Lexer::scan_identifier` (`lexer.cc:277-288`). -/
def scanIdentifier (cs : List Char) : Token × List Char :=
  let (identifier, rest) := cs.span isAlphaNumeric
  (⟨getKeywordTokenType (String.ofList identifier), String.ofList identifier⟩, rest)

/-- The text of a dollar-quoted string after its opening; `none` when it is not closed. -/
def scanDollarQuoted : List Char → Option (List Char × List Char)
  | [] => none
  | '$' :: '$' :: rest => some ([], rest)
  | c :: rest => (scanDollarQuoted rest).map (fun p => (c :: p.1, p.2))

/-- The `$` case of `scan_token` (`lexer.cc:144-177`). -/
def scanDollar : List Char → Except Exn (Token × List Char)
  | '$' :: rest =>
    match scanDollarQuoted rest with
    | some (value, rest) => .ok (⟨.dollarQuotedString, String.ofList value⟩, rest)
    | none => .error ⟨.parse, "Unclosed dollar-quoted string"⟩
  | cs =>
    match cs.span isDigit with
    | ([], _) => .ok (⟨.unknown, "$"⟩, cs)
    | (digits, rest) => .ok (⟨.parameter, String.ofList ('$' :: digits)⟩, rest)

/-- `Lexer::scan_token` (`lexer.cc:76-181`): one token from its first character `c` and what
    follows it. -/
def scanToken (c : Char) (rest : List Char) : Except Exn (Token × List Char) :=
  if c = '\'' ∨ c = '"' then
    .ok (⟨.string, String.ofList (scanString c rest).1⟩, (scanString c rest).2)
  else if isDigit c then
    .ok (⟨.number, String.ofList (scanNumber (c :: rest)).1⟩, (scanNumber (c :: rest)).2)
  else if isAlpha c then .ok (scanIdentifier (c :: rest))
  else
    match c, rest with
    | '=', _ => .ok (⟨.equal, "="⟩, rest)
    | '<', '=' :: rest => .ok (⟨.lessEqual, "<="⟩, rest)
    | '<', '>' :: rest => .ok (⟨.notEqual, "<>"⟩, rest)
    | '<', _ => .ok (⟨.less, "<"⟩, rest)
    | '>', '=' :: rest => .ok (⟨.greaterEqual, ">="⟩, rest)
    | '>', _ => .ok (⟨.greater, ">"⟩, rest)
    | '!', '=' :: rest => .ok (⟨.notEqual, "!="⟩, rest)
    | '+', _ => .ok (⟨.plus, "+"⟩, rest)
    | '-', _ => .ok (⟨.minus, "-"⟩, rest)
    | '*', _ => .ok (⟨.asterisk, "*"⟩, rest)
    | '/', _ => .ok (⟨.divide, "/"⟩, rest)
    | '%', _ => .ok (⟨.modulo, "%"⟩, rest)
    | '(', _ => .ok (⟨.lparen, "("⟩, rest)
    | ')', _ => .ok (⟨.rparen, ")"⟩, rest)
    | ',', _ => .ok (⟨.comma, ","⟩, rest)
    | '.', _ => .ok (⟨.dot, "."⟩, rest)
    | ';', _ => .ok (⟨.semicolon, ";"⟩, rest)
    | '?', _ => .ok (⟨.parameter, "?"⟩, rest)
    | '$', _ => scanDollar rest
    | _, _ => .ok (⟨.unknown, String.ofList [c]⟩, rest)

/-- The loop of `Lexer::tokenize` (`lexer.cc:53-74`). A round takes at least one character, so
    a bound above the number of characters is never reached. -/
def tokenizeLoop : Nat → List Char → Except Exn (List Token)
  | 0, _ => .ok []
  | n + 1, cs =>
    match cs.dropWhile isSpace with
    | [] => .ok []
    | c :: rest =>
      if c = '-' ∧ rest.head? = some '-' then
        tokenizeLoop n (rest.dropWhile (· ≠ '\n'))
      else do
        let (token, rest) ← scanToken c rest
        return token :: (← tokenizeLoop n rest)

def getAllTokens (input : String) : Except Exn (List Token) :=
  tokenizeLoop (input.toList.length + 1) input.toList

example : getAllTokens "age >= 1.5e+3 -- years" =
    .ok [⟨.identifier, "age"⟩, ⟨.greaterEqual, ">="⟩, ⟨.number, "1.5e+3"⟩] := by
  decide +kernel

end Lexer

end NobugDb
