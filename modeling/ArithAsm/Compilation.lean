import ArithAsm.Lexeme.Lexer
import ArithAsm.Expr.Parser
import ArithAsm.Asm.Listing

/-!
From source text to assembly in one go: lexemes, expression, program, listing.
The first stage that fails decides the error.
-/

namespace ArithAsm

/-- `allowTrailing` ignores lexemes after a complete expression,
`checkedNumbers` refuses numbers that do not fit 64 bits. -/
structure ReadOptions where
  allowTrailing : Bool := false
  checkedNumbers : Bool := false
  deriving DecidableEq, Repr

inductive CompileError where
  | lexing (error : LexError)
  | parsing (error : ParseError)
  | target (error : UnknownTarget)
  | lowering (fault : LoweringFault)
  | listing (fault : ListingFault)
  deriving DecidableEq, Repr

def CompileError.message : CompileError → Text
  | lexing error => "lexing failed: " ++ error.message
  | parsing error => "parsing failed: " ++ error.message
  | target error => "code generation failed: " ++ error.message
  | lowering fault => fault.message
  | listing fault => fault.message

def readLexemes (opts : ReadOptions) (source : Text) : Except CompileError (List Lexeme) :=
  (tokenize opts.checkedNumbers source).mapError .lexing

def readLexemeList (opts : ReadOptions) (ls : List Lexeme) : Except CompileError Expr :=
  (parse opts.allowTrailing ls).mapError .parsing

/-- The expression that a source text spells. -/
def readExpr (opts : ReadOptions) (source : Text) : Except CompileError Expr := do
  readLexemeList opts (← readLexemes opts source)

/-- The products of all stages. -/
structure Compilation where
  source : Text
  target : Target
  lexemes : List Lexeme
  expr : Expr
  program : Program
  assembly : Text
  deriving DecidableEq, Repr

namespace Compilation

def ofExpr (t : Target) (source : Text) (ls : List Lexeme) (e : Expr) :
    Except CompileError Compilation := do
  let program ← (t.lower e).mapError .lowering
  let assembly ← (Listing.render t program).mapError .listing
  return ⟨source, t, ls, e, program, assembly⟩

end Compilation

def compile (t : Target) (opts : ReadOptions) (source : Text) :
    Except CompileError Compilation := do
  let ls ← readLexemes opts source
  let e ← readLexemeList opts ls
  Compilation.ofExpr t source ls e

/-- The same for a target given by its code. A code without a target is noticed
only once the source has been read. -/
def compileForCode (code : Int) (opts : ReadOptions) (source : Text) :
    Except CompileError Compilation := do
  let ls ← readLexemes opts source
  let e ← readLexemeList opts ls
  let t ← (Target.ofCode code).mapError .target
  Compilation.ofExpr t source ls e

end ArithAsm
