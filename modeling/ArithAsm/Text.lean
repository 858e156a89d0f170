/-!
Text is a sequence of bytes. It is usually UTF-8, but nothing here relies on
that: source text and file contents are taken as they come. String literals
stand for their UTF-8 encoding wherever a text is expected.
-/

namespace ArithAsm

abbrev Text := List UInt8

namespace Text

def ofString (s : String) : Text :=
  s.toList.flatMap String.utf8EncodeChar

instance : Coe String Text := ⟨ofString⟩

@[simp] theorem ofString_append (s t : String) :
    ofString (s ++ t) = ofString s ++ ofString t := by
  simp [ofString]

def ofChar (c : Char) : Text :=
  String.utf8EncodeChar c

def newline : UInt8 := 10

/-- The pieces between separators. There is always one piece more than there
are separators, so the empty text is one empty piece. -/
def splitOn (separator : UInt8) : Text → List Text
  | [] => [[]]
  | b :: rest =>
      if b = separator then [] :: splitOn separator rest
      else
        match splitOn separator rest with
        | [] => [[b]]
        | piece :: pieces => (b :: piece) :: pieces

/-- The texts with a separator between neighbours. -/
def joinWith (separator : Text) : List Text → Text
  | [] => []
  | [t] => t
  | t :: rest => t ++ separator ++ joinWith separator rest

def spaces (n : Nat) : Text :=
  List.replicate n 32

/-- ASCII letters in lower case, every other byte as it is. -/
def toLower (t : Text) : Text :=
  t.map fun b => if 65 ≤ b ∧ b ≤ 90 then b + 32 else b

end Text

end ArithAsm
