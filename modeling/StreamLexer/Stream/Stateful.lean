/-!
# Stateful actions that keep their state when they fail

The streams and scanners of this library are state transformers whose state survives a failure:
what a failed step has consumed stays consumed. `Shrinks` says that an action never increases a
size of its state, whether it fails or not, and is closed under the ways in which actions are put
together. It is what makes the loops over a stream end.
-/

set_option autoImplicit false

namespace StreamLexer

universe u

abbrev Stateful (ε σ α : Type u) : Type u := EStateM ε σ α

namespace Stateful

variable {ε σ α β : Type u}

def after : EStateM.Result ε σ α → σ
  | .ok _ s => s
  | .error _ s => s

@[simp] theorem after_ok (a : α) (s : σ) : after (.ok a s : EStateM.Result ε σ α) = s := rfl

@[simp] theorem after_error (e : ε) (s : σ) : after (.error e s : EStateM.Result ε σ α) = s := rfl

/-- The action never increases `size`. -/
def Shrinks (size : σ → Nat) (m : Stateful ε σ α) : Prop :=
  ∀ s, size (after (m s)) ≤ size s

namespace Shrinks

variable {size : σ → Nat}

theorem pure (a : α) : Shrinks size (Pure.pure a : Stateful ε σ α) :=
  fun _ => Nat.le_refl _

theorem throw (e : ε) : Shrinks size (MonadExcept.throw e : Stateful ε σ α) :=
  fun _ => Nat.le_refl _

theorem get : Shrinks size (MonadState.get : Stateful ε σ σ) :=
  fun _ => Nat.le_refl _

theorem bind {m : Stateful ε σ α} {k : α → Stateful ε σ β} (hm : Shrinks size m)
    (hk : ∀ a, Shrinks size (k a)) : Shrinks size (m >>= k) := by
  intro s
  have hms := hm s
  change size (after (EStateM.bind m k s)) ≤ size s
  simp only [EStateM.bind]
  split
  · rename_i a s' h
    rw [h] at hms
    exact Nat.le_trans (hk a s') hms
  · rename_i e s' h
    rw [h] at hms
    exact hms

/-- An action that makes the state smaller keeps it so before one that never increases it. -/
theorem bind_lt {m : Stateful ε σ α} {k : α → Stateful ε σ β} {s : σ}
    (hm : size (after (m s)) < size s) (hk : ∀ a, Shrinks size (k a)) :
    size (after ((m >>= k) s)) < size s := by
  change size (after (EStateM.bind m k s)) < size s
  simp only [EStateM.bind]
  split
  · rename_i a s' h
    rw [h] at hm
    exact Nat.lt_of_le_of_lt (hk a s') hm
  · rename_i e s' h
    rw [h] at hm
    exact hm

end Shrinks

end Stateful

end StreamLexer
