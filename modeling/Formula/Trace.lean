/-
What a computation reports on its way, and computations that report.

`Event` lists everything that parsing and evaluation report. `Traced ε α` is an outcome together with the events that led
to it, in order; an error keeps the events before it. `outcome` and `events` turn sequencing into sequencing of outcomes
and appending of events, so results can be reasoned about without the reports.
-/
import Formula.Text.Quoted

namespace Formula

/-- how much a report matters, the most important first -/
inductive Level where
  | warn
  | debug
  | trace
deriving DecidableEq, Repr

namespace Level

def name : Level → String
  | .warn => "WARN"
  | .debug => "DEBUG"
  | .trace => "TRACE"

def rank : Level → Nat
  | .warn => 0
  | .debug => 1
  | .trace => 2

/-- the least important level shown when verbosity was asked for `n` times -/
def ofVerbosity : Nat → Level
  | 0 => .warn
  | 1 => .debug
  | _ => .trace

end Level

/-- something worth reporting -/
inductive Event where
  /-- an evaluation starts on this formula -/
  | evaluating (formula : String)
  /-- an evaluation ended in this value -/
  | result (value : String)
  /-- a tree is built from so many tokens and variables -/
  | parsing (tokens vars : Nat)
  /-- an operator was folded over operands with these tags -/
  | folded (operator left right : String)
  /-- a call was built -/
  | built (function : String) (arguments : Nat)
  /-- a function is called on evaluated arguments -/
  | calling (function : String) (arguments : Nat)
deriving DecidableEq, Repr

namespace Event

def level : Event → Level
  | .evaluating _ | .result _ | .parsing .. | .calling .. => .debug
  | .folded .. | .built .. => .trace

/-- the part of the program that reports -/
def target : Event → String
  | .evaluating _ | .result _ => "infa_expr"
  | .parsing .. | .folded .. | .built .. => "infa_expr::parser"
  | .calling .. => "infa_expr::evaluator"

def message : Event → String
  | .evaluating formula => "evaluating " ++ Text.quoted formula
  | .result value => "result " ++ Text.quoted value
  | .parsing tokens vars =>
    "parsing " ++ toString tokens ++ " tokens with " ++ toString vars ++ " variables"
  | .folded operator left right => "fold " ++ operator ++ " over " ++ left ++ " and " ++ right
  | .built function arguments => "call " ++ function ++ " with " ++ toString arguments ++ " argument(s)"
  | .calling function arguments => "calling " ++ function ++ " with " ++ toString arguments ++ " argument(s)"

end Event

/-- an outcome and the events that led to it -/
structure Traced (ε α : Type) where
  events : List Event
  outcome : Except ε α

namespace Traced

variable {ε δ α β : Type}

/-- one event and no result -/
def report (e : Event) : Traced ε Unit := ⟨[e], .ok ()⟩

/-- an error -/
def fail (e : ε) : Traced ε α := ⟨[], .error e⟩

/-- an outcome without events -/
def ofExcept (r : Except ε α) : Traced ε α := ⟨[], r⟩

/-- the first computation, then the second on its result -/
def andThen (t : Traced ε α) (f : α → Traced ε β) : Traced ε β :=
  match t.outcome with
  | .ok a => ⟨t.events ++ (f a).events, (f a).outcome⟩
  | .error e => ⟨t.events, .error e⟩

/-- the same computation with its error put in other terms -/
def mapError (f : ε → δ) (t : Traced ε α) : Traced δ α := ⟨t.events, t.outcome.mapError f⟩

instance : Monad (Traced ε) where
  pure a := ⟨[], .ok a⟩
  bind := andThen

@[simp]
theorem outcome_pure (a : α) : (pure a : Traced ε α).outcome = .ok a := rfl

@[simp]
theorem events_pure (a : α) : (pure a : Traced ε α).events = [] := rfl

@[simp]
theorem outcome_report (e : Event) : (report e : Traced ε Unit).outcome = .ok () := rfl

@[simp]
theorem outcome_fail (e : ε) : (fail e : Traced ε α).outcome = .error e := rfl

@[simp]
theorem outcome_ofExcept (r : Except ε α) : (ofExcept r).outcome = r := rfl

@[simp]
theorem outcome_mapError (f : ε → δ) (t : Traced ε α) : (t.mapError f).outcome = t.outcome.mapError f := rfl

/-- the outcome of a sequence is the sequence of the outcomes -/
@[simp]
theorem outcome_bind (t : Traced ε α) (f : α → Traced ε β) :
    (t >>= f).outcome = t.outcome >>= fun a => (f a).outcome := by
  rcases t with ⟨events, _ | a⟩ <;> rfl

/-- the events of a sequence: those of the first part, then those of the second if it is reached -/
theorem events_bind (t : Traced ε α) (f : α → Traced ε β) :
    (t >>= f).events = t.events ++ (t.outcome.toOption.map fun a => (f a).events).getD [] := by
  rcases t with ⟨events, _ | a⟩
  · exact (List.append_nil events).symm
  · rfl

end Traced

end Formula
