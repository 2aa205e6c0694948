/-
Tokens.

A token is a kind and a text.  A number, a name, an operation symbol and the keyword
carry what stands in the line; the brackets, the equals sign and the end carry
nothing.  How a token is shown in a message depends on its kind alone, for the
kinds that carry nothing, and is its quoted text for the others.
-/

namespace Calculator

/-- The kinds of token. -/
inductive TokenKind where
  /-- The end of the line. -/
  | stop
  /-- A run of digits. -/
  | number
  /-- A letter, then letters and digits. -/
  | name
  /-- An operation symbol. -/
  | symbol
  | leftParen
  | rightParen
  | equals
  /-- The word that opens a definition. -/
  | keyword
deriving DecidableEq

/-- A piece of a line. -/
structure Token where
  kind : TokenKind
  text : String
deriving DecidableEq

namespace Token

/-- A token that carries no text. -/
def bare (kind : TokenKind) : Token where
  kind := kind
  text := ""

/-- A token is the end of the line. -/
def isStop (t : Token) : Bool :=
  decide (t.kind = .stop)

/-- A token as it is shown in messages. -/
def display (t : Token) : String :=
  match t.kind with
  | .stop => "end of input"
  | .leftParen => "'('"
  | .rightParen => "')'"
  | .equals => "'='"
  | .number | .name | .symbol | .keyword => "'" ++ t.text ++ "'"

end Token

/-- What can go wrong while a line is cut into tokens. -/
inductive TokenError where
  /-- A token was asked for after the end. -/
  | afterEnd (rest : String)
  /-- A letter stands directly after a number; the text is the number with it. -/
  | mergedNumber (text : String)
  /-- A run of operation characters is no symbol. -/
  | unknownSymbol (run : String)
  /-- A character that begins no token; the text is the rest of the line from it on. -/
  | strayCharacter (rest : String)
  /-- The last token was asked for before there was one. -/
  | nothingRead
  /-- A token was to be put back, and none can be. -/
  | cannotPutBack
deriving DecidableEq

/-- The wording of a token error. -/
def TokenError.message : TokenError → String
  | afterEnd rest => "junk unexpected stuff: '" ++ rest ++ "'"
  | mergedNumber text => "number merged with identifier: '" ++ text ++ "'"
  | unknownSymbol run => "illegal operation: '" ++ run ++ "'"
  | strayCharacter rest => "unexpected input: '" ++ rest ++ "'"
  | nothingRead => "no token has been read since the last reset"
  | cannotPutBack => "token push-back requested without a token to re-read"

end Calculator
