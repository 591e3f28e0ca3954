import SealedMail.Event

/-!
# Computations with events

A traced computation is a result together with the events reported on the way. Sequencing runs the
second part only after a success and appends its events, so the events before a failure are kept.

Main statements: `bind_pure`, `bind_assoc`.
-/

namespace SealedMail

/-- A result and the events on the way to it. -/
structure Traced (ε α : Type) where
  events : List Event
  result : Except ε α

namespace Traced

variable {ε ε' α β : Type}

/-- A value without events. -/
def pure (value : α) : Traced ε α := ⟨[], .ok value⟩

/-- Continue after a success. -/
def bind (first : Traced ε α) (next : α → Traced ε β) : Traced ε β :=
  match first.result with
  | .ok value => ⟨first.events ++ (next value).events, (next value).result⟩
  | .error e => ⟨first.events, .error e⟩

instance : Monad (Traced ε) where
  pure := pure
  bind := bind

/-- A result without events. -/
def ofExcept (result : Except ε α) : Traced ε α := ⟨[], result⟩

/-- Report an event. -/
def emit (event : Event) : Traced ε Unit := ⟨[event], .ok ()⟩

/-- Change the failure. -/
def mapError (f : ε → ε') (t : Traced ε α) : Traced ε' α := ⟨t.events, t.result.mapError f⟩

/-- Report an event about a failure, if there is one. -/
def emitOnError (report : ε → Event) (t : Traced ε α) : Traced ε α :=
  match t.result with
  | .ok _ => t
  | .error e => ⟨t.events ++ [report e], .error e⟩

theorem bind_pure (t : Traced ε α) : bind t pure = t := by
  rcases t with ⟨events, _ | _⟩ <;> simp [bind, pure]

theorem bind_assoc {γ : Type} (t : Traced ε α) (f : α → Traced ε β) (g : β → Traced ε γ) :
    bind (bind t f) g = bind t fun x => bind (f x) g := by
  rcases t with ⟨events, e | a⟩
  · rfl
  · simp only [bind]
    cases (f a).result <;> simp

instance : LawfulMonad (Traced ε) :=
  LawfulMonad.mk' _ bind_pure (fun x f => by show bind (pure x) f = f x; simp [bind, pure])
    bind_assoc

end Traced

end SealedMail
