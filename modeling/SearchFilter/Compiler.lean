import SearchFilter.Compilation
import SearchFilter.Expression
import SearchFilter.Journal

namespace SearchFilter

/-- The tokens of a filter; a malformed one has none, and that it is dropped is recorded. -/
def tokenizeOrDrop (text : String) : Journaled (List Token) :=
  match tokenize text with
  | .error (.malformed _ _ expected) => do
    Journaled.record (.dropped text expected)
    return []
  | outcome => .ofOutcome outcome

/-- Compiles filters; the clock is read where a filter counts back from now and no other reference
time is given. -/
structure Compiler where
  clock : Moment

namespace Compiler

/-- A new compiler, the record of which names its clock. Without a name the place for one is left
as it is. -/
def create (clock : Moment) (clockName : String := "%r") : Journaled Compiler := do
  Journaled.record (.compilerReady clockName)
  return ⟨clock⟩

/-- Compiles the tokens of a text. Of the failures, only an impossible date is recorded. -/
def finish (compiler : Compiler) (text : String) (tokens : List Token) (now : Option Moment) :
    Journaled String :=
  match compileTokens (now.getD compiler.clock) tokens with
  | .ok filter => ⟨.ok filter, [.compiled text filter]⟩
  | .error (.impossibleDate term position fault) =>
    ⟨.error (.impossibleDate term position fault),
      [.rejected text (.impossibleDate term position fault)]⟩
  | .error failure => ⟨.error failure, []⟩

/-- The backend filter for a text. A malformed text gives an empty one, which means that there is no
filter to apply. -/
def compile (compiler : Compiler) (text : String) (now : Option Moment) : Journaled String := do
  let tokens ← tokenizeOrDrop text
  if tokens.isEmpty then return ""
  else compiler.finish text tokens now

/-- As `compile`, except that a malformed text is a failure. -/
def compileStrictly (compiler : Compiler) (text : String) (now : Option Moment) :
    Journaled String := do
  let tokens ← Journaled.ofOutcome (tokenize text)
  compiler.finish text tokens now

end Compiler

/-- Compiles with the default compiler, whose clock shows the system's time. -/
def compileFilter (systemTime : Moment) (text : String) (now : Option Moment) : Journaled String :=
  (Compiler.mk systemTime).compile text now

end SearchFilter
