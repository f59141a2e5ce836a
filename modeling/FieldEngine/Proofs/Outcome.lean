/-!
# Operations that fail

An operation that can fail gives an error or a result, and beside it the state that it leaves. What
it has changed before it fails stays changed, so that a failure does no harm is a fact about the
operation (`Harmless`). Callers split on it:

    Harmless s r → (∃ e, r = (.error e, s)) ∨ ∃ a t, r = (.ok a, t)               (Harmless.cases)
-/

namespace FieldEngine

/-- If the operation has failed, the state is as it was. -/
def Harmless {ε σ α : Type} (s : σ) (r : Except ε α × σ) : Prop :=
  ∀ e, r.1 = .error e → r.2 = s

namespace Harmless

variable {ε σ τ α : Type} {s t : σ} {r : Except ε α × σ}

theorem ok (a : α) : Harmless s ((.ok a, t) : Except ε α × σ) := by
  intro e h
  cases h

theorem error (e : ε) : Harmless s ((.error e, s) : Except ε α × σ) :=
  fun _ _ => rfl

theorem eq (h : Harmless s r) {e : ε} (hr : r = (.error e, t)) : t = s := by
  subst hr
  exact h e rfl

/-- Of a part, put back into the whole. -/
theorem within {part : τ} {q : Except ε α × τ} (h : Harmless part q) (put : τ → σ)
    (hput : put part = s) : Harmless s (q.1, put q.2) := by
  intro e he
  rw [h e he, hput]

theorem cases (h : Harmless s r) : (∃ e, r = (.error e, s)) ∨ ∃ a t, r = (.ok a, t) := by
  obtain ⟨result, t⟩ := r
  cases result with
  | error e => exact .inl ⟨e, by rw [h.eq rfl]⟩
  | ok a => exact .inr ⟨a, t, rfl⟩

end Harmless

end FieldEngine
