/-
# Reading tokens

`scan` turns a source into its tokens.  It works on clusters, so that a letter with a mark is not
the letter; `Text.Cutting.scan` is the same for any other way to cut the source.  At each place it
skips blanks, line ends and comments, and then takes the longest piece that is a token (`munch`);
what is no token becomes an error item, and reading goes on behind it.  The last item is the end
token.
-/
import ScriptVM.Text.Cluster
import ScriptVM.Token

namespace ScriptVM

/-! ## Classes of clusters -/

namespace Text.Cluster

/-- The clusters that end a line. -/
def isNewline (c : String) : Bool :=
  c = "\n" || c = "\r" || c = "\r\n"

/-- The clusters that only separate tokens. -/
def isBlank (c : String) : Bool :=
  c = " " || c = "\t"

/-- The clusters that are one digit. -/
def isDigit (c : String) : Bool :=
  match c.toList with
  | [d] => d.isDigit
  | _ => false

/-- The clusters with which a name can start: a plain letter or the underscore. -/
def isNameStart (c : String) : Bool :=
  match c.toList with
  | [d] => d.isAlpha || d = '_'
  | _ => false

/-- The clusters that can stand in a name. -/
def isNamePart (c : String) : Bool :=
  isNameStart c || isDigit c

end Text.Cluster

open Text

/-! ## Signs and keywords -/

/-- The kind of the sign that consists of one cluster. -/
def TokenKind.ofSign? : String → Option TokenKind
  | "(" => some .leftParen
  | ")" => some .rightParen
  | "\x7b" => some .leftBrace
  | "\x7d" => some .rightBrace
  | "[" => some .leftBracket
  | "]" => some .rightBracket
  | ";" => some .semicolon
  | ":" => some .colon
  | "," => some .comma
  | "." => some .dot
  | "-" => some .minus
  | "+" => some .plus
  | "/" => some .slash
  | "*" => some .asterisk
  | "!" => some .bang
  | "=" => some .equal
  | "<" => some .less
  | ">" => some .greater
  | _ => none

/-- The kind of the sign that consists of two clusters. -/
def TokenKind.ofSigns? : String → String → Option TokenKind
  | "!", "=" => some .bangEqual
  | "=", "=" => some .equalEqual
  | "<", "=" => some .lessEqual
  | ">", "=" => some .greaterEqual
  | "&", "&" => some .andAnd
  | "|", "|" => some .orOr
  | _, _ => none

/-- The kind of a name: a keyword, or an identifier. -/
def TokenKind.ofName : String → TokenKind
  | "class" => .classKw
  | "else" => .elseKw
  | "false" => .falseKw
  | "func" => .funcKw
  | "if" => .ifKw
  | "nil" => .nilKw
  | "print" => .printKw
  | "return" => .returnKw
  | "self" => .selfKw
  | "super" => .superKw
  | "true" => .trueKw
  | "var" => .varKw
  | "while" => .whileKw
  | _ => .identifier

/-! ## One item -/

/-- The piece of the source taken at one place, and what follows it. -/
structure Munch where
  /-- The token's kind, or why the piece is no token. -/
  kind : Except ScanCause TokenKind
  /-- The clusters of the piece. -/
  taken : List String
  /-- The clusters behind it. -/
  rest : List String

namespace Munch

/-- Takes a text in quotes whose opening quote has been read. -/
def string (tail : List String) : Munch :=
  match tail.dropWhile (· ≠ "\"") with
  | quote :: rest => ⟨.ok .string, "\"" :: tail.takeWhile (· ≠ "\"") ++ [quote], rest⟩
  | [] => ⟨.error .unterminatedString, "\"" :: tail, []⟩

/-- Splits the fraction of a number off: a point with the digits behind it, and the rest.  A point
without a digit behind it does not belong to the number. -/
def splitFraction : List String → List String × List String
  | "." :: d :: more =>
    if Cluster.isDigit d then
      ("." :: (d :: more).takeWhile Cluster.isDigit, (d :: more).dropWhile Cluster.isDigit)
    else ([], "." :: d :: more)
  | clusters => ([], clusters)

/-- Takes a number. -/
def number (clusters : List String) : Munch :=
  let (fraction, rest) := splitFraction (clusters.dropWhile Cluster.isDigit)
  ⟨.ok .number, clusters.takeWhile Cluster.isDigit ++ fraction, rest⟩

/-- Takes a name or keyword. -/
def name (clusters : List String) : Munch :=
  let taken := clusters.takeWhile Cluster.isNamePart
  ⟨.ok (.ofName (String.join taken)), taken, clusters.dropWhile Cluster.isNamePart⟩

/-- Takes a piece that does not start with a sign of two clusters. -/
def simple (c : String) (tail : List String) : Munch :=
  match TokenKind.ofSign? c with
  | some kind => ⟨.ok kind, [c], tail⟩
  | none =>
    if c = "\"" then string tail
    else if Cluster.isDigit c then number (c :: tail)
    else if Cluster.isNameStart c then name (c :: tail)
    else ⟨.error .unknownToken, [c], tail⟩

/-! Nothing is lost: what is taken and what is left make up what was there. -/

/-- A text in quotes takes its opening quote and a part of what follows. -/
@[simp] theorem taken_append_rest_string (tail : List String) :
    (string tail).taken ++ (string tail).rest = "\"" :: tail := by
  unfold string
  split
  · next h => simp [← h]
  · simp

/-- A number's fraction and what is behind it make up what was there. -/
@[simp] theorem splitFraction_append (clusters : List String) :
    (splitFraction clusters).1 ++ (splitFraction clusters).2 = clusters := by
  unfold splitFraction
  split
  · split <;> simp
  · simp

@[simp] theorem taken_append_rest_number (clusters : List String) :
    (number clusters).taken ++ (number clusters).rest = clusters := by
  simp [number]

@[simp] theorem taken_append_rest_name (clusters : List String) :
    (name clusters).taken ++ (name clusters).rest = clusters :=
  List.takeWhile_append_dropWhile

/-- A piece without a sign of two clusters loses nothing. -/
@[simp] theorem taken_append_rest_simple (c : String) (tail : List String) :
    (simple c tail).taken ++ (simple c tail).rest = c :: tail := by
  unfold simple
  split
  · rfl
  · split
    · simp_all
    · split
      · simp
      · split <;> simp

end Munch

/-- Takes the piece that starts with the cluster `c`. -/
def munch (c : String) : List String → Munch
  | [] => .simple c []
  | next :: rest =>
    match TokenKind.ofSigns? c next with
    | some kind => ⟨.ok kind, [c, next], rest⟩
    | none => .simple c (next :: rest)

/-- No piece loses anything. -/
@[simp] theorem taken_append_rest_munch (c : String) (tail : List String) :
    (munch c tail).taken ++ (munch c tail).rest = c :: tail := by
  cases tail with
  | nil => simp [munch]
  | cons next rest =>
    simp only [munch]
    split <;> simp

/-! ## The whole source -/

/-- A place in the source. -/
structure Cursor where
  /-- The byte offset of the place. -/
  offset : Nat
  /-- The line of the place, counted from one. -/
  line : Nat
  /-- The clusters from the place on. -/
  rest : List String

namespace Cursor

/-- Skips blanks, line ends and comments; `comment` says whether the place is in a comment. -/
def skip (comment : Bool) (offset line : Nat) : List String → Cursor
  | [] => ⟨offset, line, []⟩
  | c :: rest =>
    if Cluster.isNewline c then skip false (offset + c.utf8ByteSize) (line + 1) rest
    else if comment || Cluster.isBlank c then skip comment (offset + c.utf8ByteSize) line rest
    else if c = "/" && rest.head? = some "/" then skip true (offset + c.utf8ByteSize) line rest
    else ⟨offset, line, c :: rest⟩

/-- The next place at which an item starts. -/
def skipBlanks (cursor : Cursor) : Cursor :=
  skip false cursor.offset cursor.line cursor.rest

/-- The item that a piece taken at this place is. -/
def item (cursor : Cursor) (m : Munch) : ScanItem :=
  let text := String.join m.taken
  match m.kind with
  | .ok kind => .ok ⟨kind, text, cursor.offset, cursor.line⟩
  | .error cause => .error ⟨cause, text, cursor.offset, cursor.line⟩

/-- The place behind a piece taken here. -/
def move (cursor : Cursor) (m : Munch) : Cursor where
  offset := cursor.offset + (String.join m.taken).utf8ByteSize
  line := cursor.line + m.taken.countP Cluster.isNewline
  rest := m.rest

/-- The end token at this place. -/
def endToken (cursor : Cursor) : Token :=
  ⟨.eof, "", cursor.offset, cursor.line⟩

/-- The items from this place on, after those already read; `bound` limits their number. -/
def items (done : Array ScanItem) : Nat → Cursor → Array ScanItem
  | 0, _ => done
  | bound + 1, cursor =>
    let here := cursor.skipBlanks
    match here.rest with
    | [] => done.push (.ok here.endToken)
    | c :: tail =>
      let m := munch c tail
      items (done.push (here.item m)) bound (here.move m)

end Cursor

/-- The items of a source in order, the end token last, as they are read from the pieces into which
the source is cut. -/
def Text.Cutting.scan (cut : Cutting) (source : String) : List ScanItem :=
  let clusters := cut.split source
  (Cursor.items #[] (clusters.length + 1) ⟨0, 1, clusters⟩).toList

/-- The items of a source that is cut into its clusters. -/
def scan (source : String) : List ScanItem :=
  Cluster.cutting.scan source

end ScriptVM
