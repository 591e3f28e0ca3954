import SealedMail.Traced

/-!
# Sequences of steps that may fail

The library writes a computation as steps of which the first failure is the outcome. These
equations open such a sequence: a success is passed on, a failure ends it (`ok_bind`, `error_bind`),
and the whole succeeds exactly if each step does (`bind_eq_ok_iff`). The result of a traced
computation is the sequence of the results of its steps, whatever it reports (`Traced.result_bind`).
-/

namespace SealedMail

section Except

variable {ε ε' α β : Type}

@[simp] theorem ok_bind (value : α) (next : α → Except ε β) :
    (Except.ok value >>= next) = next value := rfl

@[simp] theorem error_bind (e : ε) (next : α → Except ε β) :
    (Except.error e >>= next) = .error e := rfl

@[simp] theorem pure_eq_ok (value : α) : (pure value : Except ε α) = .ok value := rfl

theorem bind_eq_ok_iff {first : Except ε α} {next : α → Except ε β} {result : β} :
    (first >>= next) = .ok result ↔ ∃ value, first = .ok value ∧ next value = .ok result := by
  cases first <;> simp

theorem bind_eq_error_iff {first : Except ε α} {next : α → Except ε β} {e : ε} :
    (first >>= next) = .error e ↔
      first = .error e ∨ ∃ value, first = .ok value ∧ next value = .error e := by
  cases first <;> simp

@[simp] theorem mapError_ok (f : ε → ε') (value : α) :
    (Except.ok value : Except ε α).mapError f = .ok value := rfl

@[simp] theorem mapError_error (f : ε → ε') (e : ε) :
    (Except.error e : Except ε α).mapError f = .error (f e) := rfl

@[simp] theorem mapError_eq_ok_iff {f : ε → ε'} {result : Except ε α} {value : α} :
    result.mapError f = .ok value ↔ result = .ok value := by
  cases result <;> simp

@[simp] theorem map_ok (f : α → β) (value : α) :
    (Except.ok value : Except ε α).map f = .ok (f value) := rfl

@[simp] theorem map_error (f : α → β) (e : ε) :
    (Except.error e : Except ε α).map f = .error e := rfl

theorem map_eq_ok_iff {f : α → β} {result : Except ε α} {image : β} :
    result.map f = .ok image ↔ ∃ value, result = .ok value ∧ f value = image := by
  cases result <;> simp

@[simp] theorem map_eq_error_iff {f : α → β} {result : Except ε α} {e : ε} :
    result.map f = .error e ↔ result = .error e := by
  cases result <;> simp

theorem mapError_eq_error_iff {f : ε → ε'} {result : Except ε α} {e' : ε'} :
    result.mapError f = .error e' ↔ ∃ e, result = .error e ∧ f e = e' := by
  cases result <;> simp

theorem map_eq_bind (f : α → β) (result : Except ε α) :
    result.map f = result >>= fun value => .ok (f value) := by
  cases result <;> rfl

theorem exists_eq_ok_of_isSome {result : Except ε α} (h : result.toOption.isSome = true) :
    ∃ value, result = .ok value := by
  cases result with
  | error e => cases h
  | ok value => exact ⟨value, rfl⟩

theorem exists_eq_ok_of_map_eq_some {result : Except ε α} {f : α → β} {image : β}
    (h : result.toOption.map f = some image) : ∃ value, result = .ok value ∧ f value = image := by
  cases result with
  | error e => cases h
  | ok value => exact ⟨value, rfl, Option.some.inj h⟩

end Except

namespace Traced

variable {ε ε' α β : Type}

@[simp] theorem result_pure (value : α) : (Pure.pure value : Traced ε α).result = .ok value := rfl

@[simp] theorem result_ofExcept (result : Except ε α) : (ofExcept result).result = result := rfl

@[simp] theorem result_emit (event : Event) : (emit event : Traced ε Unit).result = .ok () := rfl

@[simp] theorem result_mapError (f : ε → ε') (t : Traced ε α) :
    (t.mapError f).result = t.result.mapError f := rfl

@[simp] theorem result_bind (t : Traced ε α) (next : α → Traced ε β) :
    (t >>= next).result = t.result >>= fun value => (next value).result := by
  change (Traced.bind t next).result = _
  unfold Traced.bind
  cases t.result <;> rfl

@[simp] theorem result_emitOnError (report : ε → Event) (t : Traced ε α) :
    (t.emitOnError report).result = t.result := by
  unfold emitOnError
  cases h : t.result <;> simp [h]

end Traced

end SealedMail
