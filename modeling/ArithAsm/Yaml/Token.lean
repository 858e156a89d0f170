import ArithAsm.Text.Rune

/-!
The tokens of a YAML document. Indentation becomes explicit: a block collection
has a start and an end token. A key is known as such only by the colon after
it, so a scalar or flow collection that may turn out to be a key is remembered
until the colon comes or can no longer come; a key stands on one line and
takes at most 1024 characters.

Anchors, tags, directives and block scalars are not part of the supported
language, and neither is anything after the first document.
-/

namespace ArithAsm.Yaml

inductive Token where
  | documentStart
  | blockSequenceStart
  | blockMappingStart
  | blockEnd
  | flowSequenceStart
  | flowSequenceEnd
  | flowMappingStart
  | flowMappingEnd
  | blockEntry
  | flowEntry
  | key
  | value
  | scalar (text : List Char) (isPlain : Bool)
  deriving DecidableEq, Repr

/-- Why a document cannot be read. -/
inductive Error where
  | encoding
  | controlCharacter
  | unsupported
  | strayCharacter
  | misplacedEntry
  | misplacedKey
  | misplacedValue
  | missingColon
  | tabIndentation
  | unterminatedScalar
  | invalidEscape
  | unexpectedToken
  | duplicateKey
  | wrongType
  deriving DecidableEq, Repr

namespace Token

/-- A place in the document: the characters left and where they start. -/
structure Cursor where
  rest : List Char
  line : Nat := 0
  column : Nat := 0
  index : Nat := 0
  deriving DecidableEq, Repr

def isBlank (c : Char) : Bool :=
  c == ' ' || c == '\t'

def isBreak (c : Char) : Bool :=
  c == '\n' || c == '\r' || c == '\u0085' || c == '\u2028' || c == '\u2029'

/-- Whether a word ends before the given rest of the document. -/
def endsWord : List Char → Bool
  | [] => true
  | c :: _ => isBlank c || isBreak c

namespace Cursor

/-- Passes over `count` characters, none of them a line break. -/
def skip (c : Cursor) (count : Nat) : Cursor :=
  { c with rest := c.rest.drop count, column := c.column + count, index := c.index + count }

/-- Passes over a line break, which may take two characters. -/
def skipLine (c : Cursor) : Cursor :=
  let width := match c.rest with
    | '\r' :: '\n' :: _ => 2
    | _ => 1
  { rest := c.rest.drop width, line := c.line + 1, column := 0, index := c.index + width }

/-- The character a line break stands for. -/
def breakChar (c : Cursor) : Char :=
  match c.rest with
  | '\u2028' :: _ => '\u2028'
  | '\u2029' :: _ => '\u2029'
  | _ => '\n'

def atMarker (mark : Char) (c : Cursor) : Bool :=
  c.column == 0 &&
    match c.rest with
    | a :: b :: d :: rest => a == mark && b == mark && d == mark && endsWord rest
    | _ => false

/-- Whether a document marker stands at the start of the line. -/
def atDocumentMarker (c : Cursor) : Bool :=
  c.atMarker '-' || c.atMarker '.'

end Cursor

/-- White space inside a scalar: blanks on one line, or the line breaks in it. -/
inductive Gap where
  | none
  | blanks (text : List Char)
  | breaks (first : Option Char) (others : List Char)

/-- A single line break counts as a space, and of several the first is
dropped. -/
def Gap.text : Gap → List Char
  | none => []
  | blanks text => text
  | breaks (some '\n') [] => [' ']
  | breaks (some '\n') others => others
  | breaks first others => first.toList ++ others

def Gap.hasBreak : Gap → Bool
  | breaks _ _ => true
  | _ => false

/-- Reads white space. After a line break a tab may not stand before column
`indent`. -/
def gapFrom (indent : Nat) : Nat → Gap → Cursor → Except Error (Gap × Cursor)
  | 0, gap, c => .ok (gap, c)
  | fuel + 1, gap, c =>
      match c.rest with
      | [] => .ok (gap, c)
      | ch :: _ =>
          if isBlank ch then
            match gap with
            | .breaks _ _ =>
                if ch = '\t' ∧ c.column < indent then .error .tabIndentation
                else gapFrom indent fuel gap (c.skip 1)
            | .blanks text => gapFrom indent fuel (.blanks (text ++ [ch])) (c.skip 1)
            | .none => gapFrom indent fuel (.blanks [ch]) (c.skip 1)
          else if isBreak ch then
            match gap with
            | .breaks first others =>
                gapFrom indent fuel (.breaks first (others ++ [c.breakChar])) c.skipLine
            | _ => gapFrom indent fuel (.breaks (some c.breakChar) []) c.skipLine
          else .ok (gap, c)

/-- How many characters of a plain scalar follow without white space. -/
def wordLength (inFlow : Bool) : List Char → Nat
  | [] => 0
  | c :: rest =>
      if isBlank c || isBreak c || (c == ':' && endsWord rest) ||
          (inFlow && (c == ',' || c == '?' || c == '[' || c == ']' || c == '{' || c == '}'))
      then 0
      else wordLength inFlow rest + 1

/-- Reads a plain scalar. It goes on over line breaks while the lines are
indented. The last gap, which belongs to no word, is answered as well. -/
def plainFrom (inFlow : Bool) (indent : Nat) :
    Nat → List Char → Gap → Cursor → Except Error (List Char × Gap × Cursor)
  | 0, text, gap, c => .ok (text, gap, c)
  | fuel + 1, text, gap, c => do
      if c.atDocumentMarker || c.rest.head? = some '#' then return (text, gap, c)
      let width := wordLength inFlow c.rest
      let text := if width = 0 then text else text ++ gap.text ++ c.rest.take width
      let gap := if width = 0 then gap else .none
      let c := c.skip width
      match c.rest with
      | ch :: _ =>
          if isBlank ch || isBreak ch then
            let (gap, c) ← gapFrom indent c.rest.length .none c
            if !inFlow && c.column < indent then return (text, gap, c)
            plainFrom inFlow indent fuel text gap c
          else return (text, gap, c)
      | [] => return (text, gap, c)

/-- The character a one-letter escape stands for. -/
def escape? (c : Char) : Option Char :=
  match c with
  | '0' => some '\x00'
  | 'a' => some '\x07'
  | 'b' => some '\x08'
  | 't' => some '\t'
  | '\t' => some '\t'
  | 'n' => some '\n'
  | 'v' => some '\x0b'
  | 'f' => some '\x0c'
  | 'r' => some '\r'
  | 'e' => some '\x1b'
  | ' ' => some ' '
  | '"' => some '"'
  | '\'' => some '\''
  | '\\' => some '\\'
  | 'N' => some '\u0085'
  | '_' => some '\u00a0'
  | 'L' => some '\u2028'
  | 'P' => some '\u2029'
  | _ => none

def hexValue? (c : Char) : Option Nat :=
  if c.isDigit then some (c.toNat - 48)
  else if 'a' ≤ c ∧ c ≤ 'f' then some (c.toNat - 87)
  else if 'A' ≤ c ∧ c ≤ 'F' then some (c.toNat - 55)
  else none

/-- The character with a code of exactly `count` hexadecimal digits. -/
def codedChar? (count : Nat) (cs : List Char) : Option Char := do
  let digits := cs.take count
  guard (digits.length = count)
  let code ← digits.foldlM (fun n c => (hexValue? c).map (n * 16 + ·)) 0
  guard code.isValidChar
  return Char.ofNat code

/-- An escape after its backslash: the character, and how many characters the
escape takes. -/
def escaped (cs : List Char) : Except Error (Char × Nat) :=
  match cs with
  | [] => .error .invalidEscape
  | c :: rest =>
      let count := if c = 'x' then 2 else if c = 'u' then 4 else if c = 'U' then 8 else 0
      let read := if count = 0 then escape? c else codedChar? count rest
      match read with
      | some ch => .ok (ch, count + 1)
      | none => .error .invalidEscape

/-- Reads the part of a quoted scalar up to white space or the closing quote.
The flag tells whether it ended with an escaped line break. -/
def quotedWord (quote : Char) :
    Nat → List Char → Cursor → Except Error (List Char × Bool × Cursor)
  | 0, text, c => .ok (text, false, c)
  | fuel + 1, text, c =>
      match c.rest with
      | [] => .ok (text, false, c)
      | ch :: rest =>
          if isBlank ch || isBreak ch then .ok (text, false, c)
          else if ch = quote then
            if quote = '\'' ∧ rest.head? = some '\'' then
              quotedWord quote fuel (text ++ ['\'']) (c.skip 2)
            else .ok (text, false, c)
          else if quote = '"' ∧ ch = '\\' then
            match rest with
            | next :: _ =>
                if isBreak next then .ok (text, true, (c.skip 1).skipLine)
                else do
                  let (escape, width) ← escaped rest
                  quotedWord quote fuel (text ++ [escape]) (c.skip (width + 1))
            | [] => .error .invalidEscape
          else quotedWord quote fuel (text ++ [ch]) (c.skip 1)

/-- Reads a quoted scalar after its opening quote, up to and with the closing
one. -/
def quotedFrom (quote : Char) : Nat → List Char → Cursor → Except Error (List Char × Cursor)
  | 0, _, _ => .error .unterminatedScalar
  | fuel + 1, text, c => do
      if c.atDocumentMarker || c.rest.isEmpty then .error .unterminatedScalar
      else
        let (text, joined, c) ← quotedWord quote c.rest.length text c
        if c.rest.head? = some quote then return (text, c.skip 1)
        let (gap, c) ← gapFrom 0 c.rest.length (if joined then .breaks none [] else .none) c
        quotedFrom quote fuel (text ++ gap.text) c

/-- Something that is a key if a colon follows: where its tokens start, where
it stands, and whether nothing but a key may stand there. -/
structure PossibleKey where
  required : Bool
  position : Nat
  line : Nat
  column : Nat
  index : Nat

/-- The state between tokens. `indent` is the column of the innermost block
collection, `outer` those around it; `keys` has the possible key of every open
flow collection, innermost first, and last that of the block level. -/
structure State where
  cursor : Cursor
  tokens : Array Token := #[]
  indent : Int := -1
  outer : List Int := []
  keys : List (Option PossibleKey) := [none]
  keyAllowed : Bool := true

namespace State

def inFlow (s : State) : Bool :=
  s.keys.length > 1

def emit (s : State) (t : Token) : State :=
  { s with tokens := s.tokens.push t }

def setKey (s : State) (key : Option PossibleKey) : State :=
  { s with keys := key :: s.keys.tail }

/-- Gives up the possible key of the innermost level. -/
def dropKey (s : State) : Except Error State :=
  match s.keys.head? with
  | some (some candidate) => if candidate.required then .error .missingColon else .ok (s.setKey none)
  | _ => .ok s

/-- Remembers that a key may start here. -/
def saveKey (s : State) : Except Error State :=
  if s.keyAllowed then do
    let s ← s.dropKey
    return s.setKey (some
      { required := !s.inFlow && s.indent == (s.cursor.column : Int)
        position := s.tokens.size
        line := s.cursor.line
        column := s.cursor.column
        index := s.cursor.index })
  else .ok s

/-- Closes the block collections that are indented more than `column`. -/
def unroll (column : Int) : List Int → State → State
  | [], s => if s.indent > column then { s.emit .blockEnd with indent := -1, outer := [] } else s
  | next :: outer, s =>
      if s.indent > column then unroll column outer { s.emit .blockEnd with indent := next, outer }
      else s

def unrollTo (s : State) (column : Int) : State :=
  if s.inFlow then s else unroll column s.outer s

/-- Opens a block collection at a column, unless one is open there. Its start
goes before the token at `position`. -/
def roll (s : State) (column : Nat) (position : Nat) (start : Token) : State :=
  if !s.inFlow && s.indent < (column : Int) then
    { s with
      indent := column
      outer := s.indent :: s.outer
      tokens := s.tokens.insertIdxIfInBounds position start }
  else s

/-- Passes over blanks, comments and line breaks. Tabs do not count as blanks
where they would indent a line of a block. -/
def skipSpace : Nat → State → State
  | 0, s => s
  | fuel + 1, s =>
      match s.cursor.rest with
      | [] => s
      | c :: _ =>
          if c = ' ' ∨ (c = '\t' ∧ (s.inFlow ∨ ¬ s.keyAllowed)) ∨
              (c = '\ufeff' ∧ s.cursor.column = 0) then
            skipSpace fuel { s with cursor := s.cursor.skip 1 }
          else if c = '#' then
            let width := (s.cursor.rest.takeWhile (!isBreak ·)).length
            skipSpace fuel { s with cursor := s.cursor.skip width }
          else if isBreak c then
            skipSpace fuel
              { s with cursor := s.cursor.skipLine, keyAllowed := s.keyAllowed || !s.inFlow }
          else s

/-- Passes over `count` characters that make up one token. -/
def take (s : State) (count : Nat) (t : Token) : State :=
  { s with cursor := s.cursor.skip count, tokens := s.tokens.push t }

def openFlow (s : State) (t : Token) : Except Error State := do
  let s ← s.saveKey
  return { s.take 1 t with keys := none :: s.keys, keyAllowed := true }

def closeFlow (s : State) (t : Token) : Except Error State := do
  let s ← s.dropKey
  let keys := if s.inFlow then s.keys.tail else s.keys
  return { s.take 1 t with keys, keyAllowed := false }

def flowEntry (s : State) : Except Error State := do
  let s ← s.dropKey
  return { s.take 1 .flowEntry with keyAllowed := true }

def blockEntry (s : State) : Except Error State := do
  if !s.inFlow && !s.keyAllowed then .error .misplacedEntry
  else
    let s := s.roll s.cursor.column s.tokens.size .blockSequenceStart
    let s ← s.dropKey
    return { s.take 1 .blockEntry with keyAllowed := true }

/-- An explicit key. -/
def explicitKey (s : State) : Except Error State := do
  if !s.inFlow && !s.keyAllowed then .error .misplacedKey
  else
    let s := s.roll s.cursor.column s.tokens.size .blockMappingStart
    let s ← s.dropKey
    return { s.take 1 .key with keyAllowed := !s.inFlow }

/-- The possible key that a colon at this place completes. -/
def completedKey (s : State) : Except Error (Option PossibleKey) :=
  match s.keys.head? with
  | some (some candidate) =>
      if candidate.line < s.cursor.line ∨ candidate.index + 1024 < s.cursor.index then
        if candidate.required then .error .missingColon else .ok none
      else .ok (some candidate)
  | _ => .ok none

def value (s : State) : Except Error State := do
  match ← s.completedKey with
  | some start =>
      let s := { s with tokens := s.tokens.insertIdxIfInBounds start.position .key }
      let s := (s.roll start.column start.position .blockMappingStart).setKey none
      return { s.take 1 .value with keyAllowed := false }
  | none =>
      if !s.inFlow && !s.keyAllowed then .error .misplacedValue
      else
        let s := (s.roll s.cursor.column s.tokens.size .blockMappingStart).setKey none
        return { s.take 1 .value with keyAllowed := !s.inFlow }

def quoted (s : State) (quote : Char) : Except Error State := do
  let s ← s.saveKey
  let (text, cursor) ← quotedFrom quote s.cursor.rest.length [] (s.cursor.skip 1)
  return { s.emit (.scalar text false) with cursor, keyAllowed := false }

def plain (s : State) : Except Error State := do
  let s ← s.saveKey
  let indent := (s.indent + 1).toNat
  let (text, gap, cursor) ← plainFrom s.inFlow indent s.cursor.rest.length [] .none s.cursor
  return { s.emit (.scalar text true) with cursor, keyAllowed := gap.hasBreak }

def startsNoPlain (c : Char) : Bool :=
  isBlank c || "-?:,[]\x7b\x7d#&*!|>'\"%@\x60".toList.contains c

/-- Reads the token that starts with the character `c`. -/
def token (s : State) (c : Char) (rest : List Char) : Except Error State :=
  if c = '[' then s.openFlow .flowSequenceStart
  else if c = '{' then s.openFlow .flowMappingStart
  else if c = ']' then s.closeFlow .flowSequenceEnd
  else if c = '}' then s.closeFlow .flowMappingEnd
  else if c = ',' then s.flowEntry
  else if c = '-' ∧ endsWord rest then s.blockEntry
  else if c = '?' ∧ (s.inFlow ∨ endsWord rest) then s.explicitKey
  else if c = ':' ∧ (s.inFlow ∨ endsWord rest) then s.value
  else if c = '\'' ∨ c = '"' then s.quoted c
  else if c = '*' ∨ c = '&' ∨ c = '!' ∨ c = '|' ∨ c = '>' then .error .unsupported
  else if c = '%' ∧ s.cursor.column = 0 then .error .unsupported
  else if !startsNoPlain c || c = '-' || (!s.inFlow && (c = '?' || c = ':')) then s.plain
  else .error .strayCharacter

/-- Closes all that is open in block context at the end of the document. -/
def finish (s : State) : Except Error State :=
  (s.unrollTo (-1)).dropKey

/-- A marker before any other token starts the document. -/
def startMarker (s : State) : Except Error State := do
  let s ← s.finish
  return { s.take 3 .documentStart with keyAllowed := false }

/-- Reads tokens to the end of the first document. Every token takes at least
one character, so the length of the text bounds their number. -/
def tokensFrom : Nat → State → Except Error (List Token)
  | fuel, s => do
      let s := skipSpace s.cursor.rest.length s
      let s := s.unrollTo s.cursor.column
      match s.cursor.rest with
      | [] => return (← s.finish).tokens.toList
      | c :: rest =>
          if s.cursor.atMarker '-' && s.tokens.isEmpty then
            match fuel with
            | 0 => .error .unexpectedToken
            | fuel + 1 => tokensFrom fuel (← s.startMarker)
          else if s.cursor.atDocumentMarker then
            if s.tokens.isEmpty then .error .unexpectedToken
            else return (← s.finish).tokens.toList
          else
            match fuel with
            | 0 => .error .unexpectedToken
            | fuel + 1 => tokensFrom fuel (← s.token c rest)

end State

/-- Characters that may stand in a document. -/
def isAllowed (c : Char) : Bool :=
  let n := c.toNat
  n == 9 || n == 10 || n == 13 || (0x20 ≤ n && n ≤ 0x7E) || n == 0x85 ||
    (0xA0 ≤ n && n ≤ 0xD7FF) || (0xE000 ≤ n && n ≤ 0xFFFD) || 0x10000 ≤ n

/-- The characters without the byte order mark that may precede them. -/
def withoutMark : List Char → List Char
  | '\ufeff' :: cs => cs
  | cs => cs

def ofText (t : Text) : Except Error (List Token) :=
  match t.chars? with
  | none => .error .encoding
  | some cs =>
      if cs.all isAllowed then
        State.tokensFrom (cs.length + 1) { cursor := { rest := withoutMark cs } }
      else .error .controlCharacter

end Token

end ArithAsm.Yaml
