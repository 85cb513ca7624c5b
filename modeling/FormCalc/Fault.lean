import FormCalc.Text.Span

/-!
# Faults

A fault is what went wrong together with the stretch of script to blame.  Each stage has
its own causes; a later stage takes over the faults of an earlier one with `Fault.map`,
which leaves the place alone.
-/

namespace FormCalc

/-- A cause and the span of the script that it is about. -/
structure Fault (α : Type) where
  cause : α
  span : Span
  deriving DecidableEq, Repr

namespace Fault

/-- The same place with the cause seen in another way. -/
def map {α β : Type} (f : α → β) (fault : Fault α) : Fault β := ⟨f fault.cause, fault.span⟩

@[simp] theorem map_span {α β : Type} (f : α → β) (fault : Fault α) :
    (fault.map f).span = fault.span := rfl

@[simp] theorem map_cause {α β : Type} (f : α → β) (fault : Fault α) :
    (fault.map f).cause = f fault.cause := rfl

end Fault

end FormCalc
