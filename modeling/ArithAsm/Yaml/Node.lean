import ArithAsm.Yaml.Token

/-!
The tree that the tokens of a YAML document describe. A missing value is an
empty plain scalar.
-/

namespace ArithAsm.Yaml

inductive Node where
  | scalar (text : List Char) (isPlain : Bool)
  | sequence (items : List Node)
  | mapping (entries : List (Node × Node))
  deriving Repr

namespace Node

def empty : Node := .scalar [] true

/-- Tokens before which the value of a block key or entry is left out. -/
def endsBlockValue : List Token → Bool
  | [] | .blockEntry :: _ | .key :: _ | .value :: _ | .blockEnd :: _ => true
  | _ => false

mutual

/-- Reads one node. `block` allows block collections, and `indentless` a
sequence whose entries are not indented against the key above them. -/
def node (fuel : Nat) (block indentless : Bool) (ts : List Token) :
    Except Error (Node × List Token) :=
  match fuel with
  | 0 => .error .unexpectedToken
  | fuel + 1 =>
      match ts with
      | .scalar text isPlain :: ts => .ok (.scalar text isPlain, ts)
      | .flowSequenceStart :: ts => do
          let (items, ts) ← flowItems fuel true ts
          return (.sequence items, ts)
      | .flowMappingStart :: ts => do
          let (entries, ts) ← flowEntries fuel true ts
          return (.mapping entries, ts)
      | .blockEntry :: _ =>
          if indentless then do
            let (items, ts) ← blockItems fuel true ts
            return (.sequence items, ts)
          else .error .unexpectedToken
      | .blockSequenceStart :: ts =>
          if block then do
            let (items, ts) ← blockItems fuel false ts
            return (.sequence items, ts)
          else .error .unexpectedToken
      | .blockMappingStart :: ts =>
          if block then do
            let (entries, ts) ← blockEntries fuel ts
            return (.mapping entries, ts)
          else .error .unexpectedToken
      | _ => .error .unexpectedToken

/-- The entries of a block sequence. An indentless one has no end token. -/
def blockItems (fuel : Nat) (indentless : Bool) (ts : List Token) :
    Except Error (List Node × List Token) :=
  match fuel with
  | 0 => .error .unexpectedToken
  | fuel + 1 =>
      match ts with
      | .blockEntry :: ts => do
          let omitted := match ts with
            | .blockEntry :: _ | .blockEnd :: _ => true
            | ts => indentless && endsBlockValue ts
          let (item, ts) ← if omitted then .ok (empty, ts) else node fuel true false ts
          let (items, ts) ← blockItems fuel indentless ts
          return (item :: items, ts)
      | .blockEnd :: rest => if indentless then .ok ([], ts) else .ok ([], rest)
      | ts => if indentless then .ok ([], ts) else .error .unexpectedToken

/-- The value after a block key; there may be none. -/
def blockValue (fuel : Nat) (ts : List Token) :
    Except Error (Node × List Token) :=
  match fuel with
  | 0 => .error .unexpectedToken
  | fuel + 1 =>
      match ts with
      | .value :: .blockEntry :: ts => node fuel true true (.blockEntry :: ts)
      | .value :: ts => if endsBlockValue ts then .ok (empty, ts) else node fuel true true ts
      | ts => .ok (empty, ts)

def blockEntries (fuel : Nat) (ts : List Token) :
    Except Error (List (Node × Node) × List Token) :=
  match fuel with
  | 0 => .error .unexpectedToken
  | fuel + 1 =>
      match ts with
      | .key :: ts => do
          let (key, ts) ← match ts with
            | .blockEntry :: _ => node fuel true true ts
            | ts => if endsBlockValue ts then .ok (empty, ts) else node fuel true true ts
          let (value, ts) ← blockValue fuel ts
          let (entries, ts) ← blockEntries fuel ts
          return ((key, value) :: entries, ts)
      | .blockEnd :: ts => .ok ([], ts)
      | _ => .error .unexpectedToken

/-- The value after a flow key; there may be none. -/
def flowValue (fuel : Nat) (ts : List Token) :
    Except Error (Node × List Token) :=
  match fuel with
  | 0 => .error .unexpectedToken
  | fuel + 1 =>
      match ts with
      | .value :: .flowEntry :: ts => .ok (empty, .flowEntry :: ts)
      | .value :: .flowMappingEnd :: ts => .ok (empty, .flowMappingEnd :: ts)
      | .value :: .flowSequenceEnd :: ts => .ok (empty, .flowSequenceEnd :: ts)
      | .value :: ts => node fuel false false ts
      | ts => .ok (empty, ts)

/-- A key after its mark, and its value. -/
def flowPair (fuel : Nat) (ts : List Token) :
    Except Error ((Node × Node) × List Token) :=
  match fuel with
  | 0 => .error .unexpectedToken
  | fuel + 1 => do
      let (key, ts) ← match ts with
        | .value :: _ | .flowEntry :: _ | .flowMappingEnd :: _ | .flowSequenceEnd :: _ =>
            .ok (empty, ts)
        | ts => node fuel false false ts
      let (value, ts) ← flowValue fuel ts
      return ((key, value), ts)

/-- The items of a flow sequence, with commas between them and maybe one at the
end. A pair among them is a mapping of its own. -/
def flowItems (fuel : Nat) (first : Bool) (ts : List Token) :
    Except Error (List Node × List Token) :=
  match fuel with
  | 0 => .error .unexpectedToken
  | fuel + 1 =>
      match ts with
      | .flowSequenceEnd :: ts => .ok ([], ts)
      | ts => do
          let ts ← match first, ts with
            | true, ts => .ok ts
            | false, .flowEntry :: ts => .ok ts
            | false, _ => .error .unexpectedToken
          match ts with
          | .flowSequenceEnd :: ts => return ([], ts)
          | .key :: ts => do
              let (entry, ts) ← flowPair fuel ts
              let (items, ts) ← flowItems fuel false ts
              return (.mapping [entry] :: items, ts)
          | ts => do
              let (item, ts) ← node fuel false false ts
              let (items, ts) ← flowItems fuel false ts
              return (item :: items, ts)

/-- The entries of a flow mapping. A node without a colon is a key without a
value. -/
def flowEntries (fuel : Nat) (first : Bool) (ts : List Token) :
    Except Error (List (Node × Node) × List Token) :=
  match fuel with
  | 0 => .error .unexpectedToken
  | fuel + 1 =>
      match ts with
      | .flowMappingEnd :: ts => .ok ([], ts)
      | ts => do
          let ts ← match first, ts with
            | true, ts => .ok ts
            | false, .flowEntry :: ts => .ok ts
            | false, _ => .error .unexpectedToken
          match ts with
          | .flowMappingEnd :: ts => return ([], ts)
          | .key :: ts => do
              let (entry, ts) ← flowPair fuel ts
              let (entries, ts) ← flowEntries fuel false ts
              return (entry :: entries, ts)
          | ts => do
              let (key, ts) ← node fuel false false ts
              let (entries, ts) ← flowEntries fuel false ts
              return ((key, empty) :: entries, ts)

end

/-- The root of a document, or nothing if the text holds none. What follows the
root is not looked at. Between two tokens at most two of the functions above
call each other, so twice the number of tokens bounds the depth. -/
def ofTokens (ts : List Token) : Except Error (Option Node) :=
  match ts with
  | [] => .ok none
  | [.documentStart] => .ok (some empty)
  | .documentStart :: ts => do return some (← node (3 * ts.length + 3) true false ts).1
  | ts => do return some (← node (3 * ts.length + 3) true false ts).1

def ofText (t : Text) : Except Error (Option Node) := do
  ofTokens (← Token.ofText t)

end Node

end ArithAsm.Yaml
