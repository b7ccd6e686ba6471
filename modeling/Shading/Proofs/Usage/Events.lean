import Shading.Proofs.Outcome
import Shading.Usage.Walk

/-!
# Events of a walk

What a walk over a body comes across, in order: handles that are read or written, calls of helpers,
returns and discards.  The walk is nothing but one step for each event, so that all there is to know
about expressions and statements is said here, and what follows is about lists of events.
-/

namespace Shading.Usage

inductive Event where
  | read (h : Handle)
  | call (helper : String)
  | write (h : Handle)
  | leave (withValue : Bool)
  | discard
  deriving DecidableEq, Repr

namespace Event

mutual

def ofExpr : Expr → List Event
  | .lit _ => []
  | .array _ items => ofExprs items
  | .var h => [.read h]
  | .unary _ a => ofExpr a
  | .binary _ a b => ofExpr a ++ ofExpr b
  | .call (.helper name) args => ofExprs args ++ [.call name]
  | .call _ args => ofExprs args
  | .swizzle a _ => ofExpr a
  | .field a _ => ofExpr a
  | .index a i => ofExpr a ++ ofExpr i

def ofExprs : List Expr → List Event
  | [] => []
  | e :: es => ofExpr e ++ ofExprs es

end

def ofValue : Option Expr → List Event
  | none => []
  | some e => ofExpr e

/-- An assignment writes to the variable that its target is, or is a part of. -/
def ofTarget : Expr → List Event
  | .var h => [.write h]
  | .swizzle a _ => ofTarget a
  | .field a _ => ofTarget a
  | .index a _ => ofTarget a
  | _ => []

/-- Only returns of the entry point itself are events. -/
def ofReturn (own : Bool) (value : Option Expr) : List Event :=
  (if own then [.leave value.isSome] else []) ++ ofValue value

mutual

def ofStatement (own : Bool) : Statement → List Event
  | .declare _ _ init => ofValue init
  | .assign target _ value => ofExpr target ++ (ofExpr value ++ ofTarget target)
  | .leave value => ofReturn own value
  | .skip => []
  | .stop => []
  | .discard => [.discard]
  | .branch condition body rest => ofExpr condition ++ (ofBlock own body ++ ofOtherwise own rest)
  | .forLoop _ _ init condition next body =>
    ofExpr init ++ (ofExpr condition ++ (ofExpr next ++ ofBlock own body))
  | .whileLoop condition body => ofExpr condition ++ ofBlock own body
  | .raw .. => []

def ofBlock (own : Bool) : List Statement → List Event
  | [] => []
  | s :: ss => ofStatement own s ++ ofBlock own ss

def ofOtherwise (own : Bool) : Otherwise → List Event
  | .nothing => []
  | .always body => ofBlock own body
  | .test condition body rest => ofExpr condition ++ (ofBlock own body ++ ofOtherwise own rest)

end

def ofHelper (h : Helper) : List Event :=
  ofBlock false h.body ++ ofValue (h.result.map Term.expr)

theorem ofTarget_eq : ∀ target : Expr, ofTarget target = target.root?.toList.map .write
  | .var _ => rfl
  | .swizzle a _ => ofTarget_eq a
  | .field a _ => ofTarget_eq a
  | .index a _ => ofTarget_eq a
  | .lit _ => rfl
  | .array .. => rfl
  | .unary .. => rfl
  | .binary .. => rfl
  | .call .. => rfl

end Event

/-! ### One step for each event -/

namespace Walk

def event (stage : Stage) (onHandle : Handle → Walk Unit) (onCall : String → Walk Unit) :
    Event → Walk Unit
  | .read h => onHandle h
  | .call name => onCall name
  | .write h => modify (·.addWrite h)
  | .leave withValue => modify (·.addReturn withValue)
  | .discard =>
    if stage = .fragment then modify fun u ↦ { u with discards := true }
    else throw (.foreignDiscard stage)

def events (step : Event → Walk Unit) : List Event → Walk Unit
  | [] => pure ()
  | e :: es => do
    step e
    events step es

theorem events_singleton (step : Event → Walk Unit) (e : Event) :
    events step [e] = step e :=
  bind_pure_unit

theorem events_append (step : Event → Walk Unit) (es es' : List Event) :
    events step (es ++ es') = (events step es >>= fun _ ↦ events step es') := by
  induction es with
  | nil => exact (pure_bind _ _).symm
  | cons e es ih => simp only [List.cons_append, events, ih, bind_assoc]

variable (stage : Stage) {onHandle : Handle → Walk Unit} {onCall : String → Walk Unit}

mutual

theorem expr_eq_events : ∀ e : Expr,
    expr onHandle onCall e = events (event stage onHandle onCall) (Event.ofExpr e)
  | .lit _ => by
    rw [expr, Event.ofExpr, events]
  | .array _ items => by
    rw [expr, Event.ofExpr, exprs_eq_events items]
  | .var h => by
    rw [expr, Event.ofExpr, events_singleton, event]
  | .unary _ a => by
    rw [expr, Event.ofExpr, expr_eq_events a]
  | .binary _ a b => by
    rw [expr, Event.ofExpr, events_append, expr_eq_events a, expr_eq_events b]
  | .call callee args => by
    have hargs := exprs_eq_events args
    cases callee with
    | helper name =>
        rw [expr, Event.ofExpr, events_append, hargs, events_singleton, event]
    | _ =>
        rw [expr, Event.ofExpr, hargs, bind_pure_unit]
        all_goals
          intro name hname
          cases hname
  | .swizzle a _ => by
    rw [expr, Event.ofExpr, expr_eq_events a]
  | .field a _ => by
    rw [expr, Event.ofExpr, expr_eq_events a]
  | .index a i => by
    rw [expr, Event.ofExpr, events_append, expr_eq_events a, expr_eq_events i]

theorem exprs_eq_events : ∀ es : List Expr,
    exprs onHandle onCall es = events (event stage onHandle onCall) (Event.ofExprs es)
  | [] => by
    rw [exprs, Event.ofExprs, events]
  | e :: es => by
    rw [exprs, Event.ofExprs, events_append, expr_eq_events e, exprs_eq_events es]

end

theorem leave_eq_events (own : Bool) (value : Option Expr) :
    leave (expr onHandle onCall) (!own) value =
      events (event stage onHandle onCall) (Event.ofReturn own value) := by
  have hvalue : (match value with
      | none => pure ()
      | some e => expr onHandle onCall e) =
        events (event stage onHandle onCall) (Event.ofValue value) := by
    cases value with
    | none => rfl
    | some e => exact expr_eq_events stage e
  unfold leave
  rw [Event.ofReturn, events_append, ← hvalue]
  cases own with
  | false => rfl
  | true =>
      have hleave := events_singleton (event stage onHandle onCall) (.leave value.isSome)
      exact congrArg (· >>= _) hleave.symm

theorem target_eq_events (target : Expr) :
    (match target.root? with
      | none => pure ()
      | some h => modify (·.addWrite h)) =
      events (event stage onHandle onCall) (Event.ofTarget target) := by
  rw [Event.ofTarget_eq]
  cases target.root? with
  | none => rfl
  | some h => exact (events_singleton (event stage onHandle onCall) (.write h)).symm

mutual

theorem statement_eq_events (own : Bool) : ∀ s : Statement,
    statement stage (!own) (expr onHandle onCall) s =
      events (event stage onHandle onCall) (Event.ofStatement own s)
  | .declare _ _ none => by
    rw [statement, Event.ofStatement, Event.ofValue, events]
  | .declare _ _ (some e) => by
    rw [statement, Event.ofStatement, Event.ofValue, expr_eq_events stage e]
  | .assign target _ value => by
    rewrite [statement, Event.ofStatement, events_append, events_append,
      expr_eq_events stage target, expr_eq_events stage value, ← target_eq_events]
    rfl
  | .leave value => by
    rw [statement, Event.ofStatement, leave_eq_events stage]
  | .skip => by
    rw [statement, Event.ofStatement, events]
  | .stop => by
    rw [statement, Event.ofStatement, events]
  | .discard => by
    rw [statement, Event.ofStatement, events_singleton, event]
  | .branch condition body rest => by
    rw [statement, Event.ofStatement, events_append, events_append, expr_eq_events stage condition,
      statements_eq_events own body, otherwise_eq_events own rest]
  | .forLoop _ _ init condition next body => by
    rw [statement, Event.ofStatement, events_append, events_append, events_append,
      expr_eq_events stage init, expr_eq_events stage condition, expr_eq_events stage next,
      statements_eq_events own body]
  | .whileLoop condition body => by
    rw [statement, Event.ofStatement, events_append, expr_eq_events stage condition,
      statements_eq_events own body]
  | .raw .. => by
    rw [statement, Event.ofStatement, events]

theorem statements_eq_events (own : Bool) : ∀ ss : List Statement,
    statements stage (!own) (expr onHandle onCall) ss =
      events (event stage onHandle onCall) (Event.ofBlock own ss)
  | [] => by
    rw [statements, Event.ofBlock, events]
  | s :: ss => by
    rw [statements, Event.ofBlock, events_append, statement_eq_events own s,
      statements_eq_events own ss]

theorem otherwise_eq_events (own : Bool) : ∀ o : Otherwise,
    otherwise stage (!own) (expr onHandle onCall) o =
      events (event stage onHandle onCall) (Event.ofOtherwise own o)
  | .nothing => by
    rw [otherwise, Event.ofOtherwise, events]
  | .always body => by
    rw [otherwise, Event.ofOtherwise, statements_eq_events own body]
  | .test condition body rest => by
    rw [otherwise, Event.ofOtherwise, events_append, events_append, expr_eq_events stage condition,
      statements_eq_events own body, otherwise_eq_events own rest]

end

/-- A helper is walked along its body and then its result. -/
theorem helper_eq_events (onHandle : Handle → Walk Unit) (onCall : String → Walk Unit) (h : Helper)
    (next : Walk Unit) :
    (do
      statements stage true (expr onHandle onCall) h.body
      leave (expr onHandle onCall) true (h.result.map Term.expr)
      next) = (do
      events (event stage onHandle onCall) (Event.ofHelper h)
      next) := by
  have hresult : Event.ofReturn false (h.result.map Term.expr) =
      Event.ofValue (h.result.map Term.expr) :=
    List.nil_append _
  rw [Event.ofHelper, ← hresult, events_append, bind_assoc, ← leave_eq_events,
    ← statements_eq_events]
  rfl

end Walk

end Shading.Usage
