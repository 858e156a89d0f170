import ArithAsm.Suite
import ArithAsm.Yaml.Field

/-!
Case files: a record with a list of cases. Fields that are not known are
ignored.
-/

namespace ArithAsm

inductive CaseFileError where
  | malformed (error : Yaml.Error)
  | defects (defects : List CaseDefect)
  deriving DecidableEq, Repr

def CaseFileError.message : CaseFileError → Text
  | malformed _ => "parsing cases"
  | defects found => aggregateMessage (found.map CaseDefect.message)

namespace Suite

open Yaml (Node)

def case? (node : Node) : Except Yaml.Error (Option Case) := do
  match ← node.record? with
  | none => return none
  | some fields =>
      let name ← Node.field fields "name" Node.text?
      let input ← Node.field fields "input" Node.text?
      let status ← Node.field fields "status" Node.integer?
      let error ← Node.field fields "error" Node.boolean?
      return some ⟨name.getD [], input.getD [], status, error.getD false⟩

/-- The cases as the file gives them, in order or not. -/
def decode (t : Text) : Except Yaml.Error (List Case) := do
  match ← Node.ofText t with
  | none => return []
  | some root =>
      match ← root.record? with
      | none => return []
      | some fields =>
          let cases ← Node.field fields "cases" fun node => do
            return some (← node.list case?)
          return cases.getD []

/-- The cases of a file that could be decoded, if they are in order. -/
def accept (decoded : Except Yaml.Error (List Case)) : Except CaseFileError (List Case) := do
  let cases ← decoded.mapError .malformed
  (validate cases).mapError .defects

def ofFile (t : Text) : Except CaseFileError (List Case) :=
  accept (decode t)

end Suite

end ArithAsm
