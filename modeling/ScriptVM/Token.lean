/-
# Tokens

The words and signs of the language.  A token remembers its text, the byte offset at which the text
starts and the line on which it starts; the end of the source is a token too.  Where no token can be
read, a `ScanError` with the same position stands in its place.
-/

namespace ScriptVM

/-- The kinds of tokens. -/
inductive TokenKind where
  /-- `(` -/
  | leftParen
  /-- `)` -/
  | rightParen
  /-- Opens a block. -/
  | leftBrace
  /-- Closes a block. -/
  | rightBrace
  /-- `[` -/
  | leftBracket
  /-- `]` -/
  | rightBracket
  /-- `,` -/
  | comma
  /-- `.` -/
  | dot
  /-- `-` -/
  | minus
  /-- `+` -/
  | plus
  /-- `;` -/
  | semicolon
  /-- `:` -/
  | colon
  /-- `/` -/
  | slash
  /-- `*` -/
  | asterisk
  /-- `!` -/
  | bang
  /-- `!=` -/
  | bangEqual
  /-- `=` -/
  | equal
  /-- `==` -/
  | equalEqual
  /-- `>` -/
  | greater
  /-- `>=` -/
  | greaterEqual
  /-- `<` -/
  | less
  /-- `<=` -/
  | lessEqual
  /-- `&&` -/
  | andAnd
  /-- `||` -/
  | orOr
  /-- A name. -/
  | identifier
  /-- A text in double quotes. -/
  | string
  /-- A whole or decimal number. -/
  | number
  /-- `class` -/
  | classKw
  /-- `else` -/
  | elseKw
  /-- `false` -/
  | falseKw
  /-- `func` -/
  | funcKw
  /-- `if` -/
  | ifKw
  /-- `nil` -/
  | nilKw
  /-- `print` -/
  | printKw
  /-- `return` -/
  | returnKw
  /-- `self` -/
  | selfKw
  /-- `super` -/
  | superKw
  /-- `true` -/
  | trueKw
  /-- `var` -/
  | varKw
  /-- `while` -/
  | whileKw
  /-- The end of the source. -/
  | eof
deriving DecidableEq, Repr, Inhabited

/-- A token with its place in the source. -/
structure Token where
  /-- What kind of token it is. -/
  kind : TokenKind
  /-- Its text. -/
  lexeme : String
  /-- The byte offset of its text. -/
  start : Nat
  /-- The line on which its text starts, counted from one. -/
  line : Nat
deriving DecidableEq, Repr, Inhabited

namespace Token

/-- The number of bytes of a token's text. -/
def length (token : Token) : Nat :=
  token.lexeme.utf8ByteSize

/-- What a message calls a token. -/
def text (token : Token) : String :=
  if token.kind = .eof then "end" else token.lexeme

end Token

/-- Why no token could be read. -/
inductive ScanCause where
  /-- No token starts with this cluster. -/
  | unknownToken
  /-- A text in double quotes has no closing quote. -/
  | unterminatedString
deriving DecidableEq, Repr, Inhabited

/-- A part of the source that is no token. -/
structure ScanError where
  /-- Why it is none. -/
  cause : ScanCause
  /-- The part of the source. -/
  text : String
  /-- The byte offset of the part. -/
  start : Nat
  /-- The line on which it starts. -/
  line : Nat
deriving DecidableEq, Repr, Inhabited

namespace ScanError

/-- The message about a part of the source that is no token. -/
def message (e : ScanError) : String :=
  match e.cause with
  | .unknownToken => s!"Unknown token {e.text} at line {e.line}"
  | .unterminatedString => s!"Unterminated string {e.text} at line {e.line}"

end ScanError

/-- What the source holds at one place: a token, or something that is none. -/
abbrev ScanItem := Except ScanError Token

end ScriptVM
