import SearchFilter.Failure

namespace SearchFilter

inductive Channel where
  | grammar
  | compiler
  | query
  deriving DecidableEq

inductive Level where
  | debug
  | info
  | warning
  deriving DecidableEq

/-- What is worth a record while filters are compiled. -/
inductive Event where
  | compilerReady (clock : String)
  | dropped (text : String) (expected : Expectation)
  | rejected (text : String) (failure : Failure)
  | compiled (text filter : String)
  | notApplied (text : String)

namespace Event

def channel : Event → Channel
  | compilerReady _ => .compiler
  | dropped _ _ => .grammar
  | rejected _ _ => .compiler
  | compiled _ _ => .compiler
  | notApplied _ => .query

def level : Event → Level
  | compilerReady _ => .info
  | dropped _ _ => .debug
  | rejected _ _ => .warning
  | compiled _ _ => .debug
  | notApplied _ => .debug

def message : Event → String
  | compilerReady clock => "FilterCompiler initialised with clock=" ++ clock
  | dropped text expected => "Dropping filter " ++ quoted text ++ ": " ++ expected.reason
  | rejected text failure => "Rejecting filter " ++ quoted text ++ ": " ++ failure.message
  | compiled text filter => "Compiled filter " ++ quoted text ++ " -> " ++ quoted filter
  | notApplied text => "No filter applied for " ++ quoted text

end Event

/-- What a computation comes to, and the events on the way there. -/
structure Journaled (α : Type) where
  outcome : Except Failure α
  events : List Event

namespace Journaled

def ofOutcome {α : Type} (outcome : Except Failure α) : Journaled α := ⟨outcome, []⟩

def record (event : Event) : Journaled Unit := ⟨.ok (), [event]⟩

instance : Monad Journaled where
  pure value := ⟨.ok value, []⟩
  bind first next :=
    match first.outcome with
    | .error failure => ⟨.error failure, first.events⟩
    | .ok value => ⟨(next value).outcome, first.events ++ (next value).events⟩

end Journaled

end SearchFilter
