import ArithAsm.Compilation
import ArithAsm.Expr.Value
import ArithAsm.Machine.Run

/-!
Suites of cases. A case is an expression with the outcome expected of it:
either the exit status of the compiled program, or that compiling fails. Cases
are checked before use, selected by name, and run one by one.
-/

namespace ArithAsm

structure Case where
  name : Text
  input : Text
  status : Option Int
  error : Bool
  deriving DecidableEq, Repr

/-- Several error messages as one. -/
def aggregateMessage (messages : List Text) : Text :=
  (if messages.length = 1 then ("1 error" : Text)
    else Decimal.ofNat messages.length ++ " errors") ++
    " occurred:\n\t" ++ Text.joinWith "\n\t" (messages.map ("* " ++ ·)) ++ "\n\n"

inductive CaseDefect where
  | unnamed (number : Nat)
  | duplicate (name : Text)
  | unclearOutcome (name : Text)
  deriving DecidableEq, Repr

def CaseDefect.message : CaseDefect → Text
  | unnamed number => "case #" ++ Decimal.ofNat number ++ " has no name"
  | duplicate name => "duplicate case " ++ name
  | unclearOutcome name => "case " ++ name ++ " must set exactly one of status and error"

namespace Suite

/-- What is wrong with a case, given its number and the names before it. Only
the first reason counts. -/
def defect? (seen : List Text) (number : Nat) (c : Case) : Option CaseDefect :=
  if c.name = [] then some (.unnamed number)
  else if c.name ∈ seen then some (.duplicate c.name)
  else if c.status.isNone = !c.error then some (.unclearOutcome c.name)
  else none

/-- The defects of cases numbered from `number`, in their order. The name of a
defective case counts as seen as well. -/
def defectsFrom (seen : List Text) (number : Nat) : List Case → List CaseDefect
  | [] => []
  | c :: rest => (defect? seen number c).toList ++ defectsFrom (c.name :: seen) (number + 1) rest

def defects (cases : List Case) : List CaseDefect :=
  defectsFrom [] 1 cases

/-- All cases if every one is in order, all defects otherwise. -/
def validate (cases : List Case) : Except (List CaseDefect) (List Case) :=
  match defects cases with
  | [] => .ok cases
  | found => .error found

/-- An id selects the case of that name, and those whose name continues it
after an underscore. -/
def selects (id : Text) (c : Case) : Bool :=
  c.name == id || (id ++ "_").isPrefixOf c.name

structure UnmatchedId where
  id : Text
  deriving DecidableEq, Repr

def UnmatchedId.message (e : UnmatchedId) : Text :=
  "case not found: " ++ e.id

def selectOne (cases : List Case) (id : Text) : Except UnmatchedId (List Case) :=
  match cases.filter (selects id) with
  | [] => .error ⟨id⟩
  | found => .ok found

/-- The cases that the ids select, id by id. Without ids these are all cases. -/
def select (cases : List Case) (ids : List Text) : Except UnmatchedId (List Case) :=
  if ids = [] then .ok cases else do return (← ids.mapM (selectOne cases)).flatten

end Suite

inductive ExecutionError where
  | canceled
  | failed (message : Text)
  | machine (error : RunError)
  deriving DecidableEq, Repr

def ExecutionError.message : ExecutionError → Text
  | canceled => "context canceled"
  | failed message => message
  | machine error => error.message

/-- A way to run compiled programs, which answers their exit status. -/
abbrev Executor := Compilation → Except ExecutionError Int

namespace Executor

def emulator : Executor := fun c =>
  match c.program.run with
  | .ok value => .ok (exitStatus value)
  | .error e => .error (.machine e)

/-- Fails on every program. -/
def failing (error : ExecutionError) : Executor := fun _ => .error error

end Executor

/-- Why a case has not passed. `noExpectation` is a status with nothing to compare
it with, which only a case with a defect can come to. -/
inductive CaseFailure where
  | missingError (input : Text)
  | compilation (error : CompileError)
  | execution (error : ExecutionError)
  | status (got expected : Int)
  | noExpectation
  deriving DecidableEq, Repr

def CaseFailure.message : CaseFailure → Text
  | missingError input => "expected a compile error for " ++ Quoted.ofText input
  | compilation error => error.message
  | execution error => "execution failed: " ++ error.message
  | status got expected =>
      "exit status " ++ Decimal.ofInt got ++ ", expected " ++ Decimal.ofInt expected
  | noExpectation => "no status expected"

structure CaseResult where
  case : Case
  passed : Bool
  status : Int
  failure : Option CaseFailure
  deriving DecidableEq, Repr

namespace Suite

/-- How cases are compiled and run. -/
structure Plan where
  compile : Text → Except CompileError Compilation
  execute : Executor

/-- Compares the exit status of a program with the one expected. -/
def judge (c : Case) (status : Int) : CaseResult :=
  match c.status with
  | none => ⟨c, false, status, some .noExpectation⟩
  | some expected =>
      if status = expected then ⟨c, true, status, none⟩
      else ⟨c, false, status, some (.status status expected)⟩

def runCase (plan : Plan) (c : Case) : CaseResult :=
  match plan.compile c.input, c.error with
  | .ok _, true => ⟨c, false, 0, some (.missingError c.input)⟩
  | .error _, true => ⟨c, true, 0, none⟩
  | .error e, false => ⟨c, false, 0, some (.compilation e)⟩
  | .ok compiled, false =>
      match plan.execute compiled with
      | .error e => ⟨c, false, 0, some (.execution e)⟩
      | .ok status => judge c status

/-- The failure of a case that has not passed, with the name of the case in
front. -/
def failureText (r : CaseResult) : Option Text :=
  if r.passed then none else r.failure.map fun f => r.case.name ++ ": " ++ f.message

def failures (results : List CaseResult) : List Text :=
  results.filterMap failureText

def run (plan : Plan) (cases : List Case) : List CaseResult :=
  cases.map (runCase plan)

end Suite

end ArithAsm
