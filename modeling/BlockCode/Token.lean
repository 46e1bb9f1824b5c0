import BlockCode.Diagnostic

/-! Tokens, their kinds, and the fixed spellings of keywords and symbols. -/

namespace BlockCode

/-- The kinds of token. -/
inductive Kind where
  | kwInt | kwIf | kwElse | kwWhile | kwPrint
  | name | number
  | plus | minus | star | slash | percent
  | assign | equal | notEqual | less | greater | lessEqual | greaterEqual
  | openParen | closeParen | openBrace | closeBrace
  | semicolon
  /-- The end of the source. -/
  | finish
deriving DecidableEq, Repr

namespace Kind

/-- Every kind, in order. -/
def all : List Kind :=
  -- The order is that of the declaration: keywords, names, numbers, signs, the end mark.
  [kwInt, kwIf, kwElse, kwWhile, kwPrint, name, number, plus, minus, star, slash, percent, assign,
    equal, notEqual, less, greater, lessEqual, greaterEqual, openParen, closeParen, openBrace,
    closeBrace, semicolon, finish]

/-- The label of a kind. -/
def label : Kind → String
  -- The labels are shown and sent, so they are fixed.
  | kwInt => "INT"
  | kwIf => "IF"
  | kwElse => "ELSE"
  | kwWhile => "WHILE"
  | kwPrint => "PRINT"
  | name => "IDENT"
  | number => "NUMBER"
  | plus => "PLUS"
  | minus => "MINUS"
  | star => "STAR"
  | slash => "SLASH"
  | percent => "PERCENT"
  | assign => "ASSIGN"
  | equal => "EQ"
  | notEqual => "NEQ"
  | less => "LT"
  | greater => "GT"
  | lessEqual => "LTE"
  | greaterEqual => "GTE"
  | openParen => "LPAREN"
  | closeParen => "RPAREN"
  | openBrace => "LBRACE"
  | closeBrace => "RBRACE"
  | semicolon => "SEMI"
  | finish => "EOF"

/-- The kind with a given label. -/
def ofLabel? (s : String) : Option Kind :=
  all.find? fun k => k.label == s

/-- The words with a meaning of their own. -/
def keywords : List (List Char × Kind) := [
  -- A keyword is compared with the whole word, so that no name is cut.
  (['i', 'n', 't'], kwInt),
  (['i', 'f'], kwIf),
  (['e', 'l', 's', 'e'], kwElse),
  (['w', 'h', 'i', 'l', 'e'], kwWhile),
  (['p', 'r', 'i', 'n', 't'], kwPrint)]

/-- The spellings made of signs. -/
def symbols : List (List Char × Kind) := [
  -- Signs of one and of two characters stand in one table; the longer one is tried first.
  (['+'], plus),
  (['-'], minus),
  (['*'], star),
  (['/'], slash),
  (['%'], percent),
  (['='], assign),
  (['=', '='], equal),
  (['!', '='], notEqual),
  (['<'], less),
  (['>'], greater),
  (['<', '='], lessEqual),
  (['>', '='], greaterEqual),
  (['('], openParen),
  ([')'], closeParen),
  (['\x7b'], openBrace),
  (['\x7d'], closeBrace),
  ([';'], semicolon)]

/-- The kind of a word: a keyword or a name. -/
def ofWord (word : List Char) : Kind :=
  (keywords.lookup word).getD name

/-- The kind of a text made of signs. -/
def ofSymbol? (text : List Char) : Option Kind :=
  symbols.lookup text

/-- The operators that compare. -/
def isComparison : Kind → Bool
  -- All six compare two numbers and give a truth value.
  | equal | notEqual | less | greater | lessEqual | greaterEqual => true
  | _ => false

/-- The operators that add. -/
def isAdditive : Kind → Bool
  -- Sums and differences are read on one level, from the left.
  | plus | minus => true
  | _ => false

/-- The operators that multiply. -/
def isMultiplicative : Kind → Bool
  -- The remainder binds as tightly as the product and the quotient.
  | star | slash | percent => true
  | _ => false

end Kind

/-- A piece of source text with its kind and the place of its first character. -/
structure Token where
  kind : Kind
  lexeme : String
  position : Position
deriving DecidableEq, Repr

/-- How a message names a token that was not expected. -/
def Token.found (t : Token) : String :=
  if t.kind = .finish then "end of input" else s!"'{t.lexeme}'"

end BlockCode
