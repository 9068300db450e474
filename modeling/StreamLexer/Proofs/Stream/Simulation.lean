import StreamLexer.Stream.Stateful

/-! # Actions that agree on related states

Two actions simulate each other along a relation between their states when related states give the
same outcome and leave related states behind. The notion is closed under the ways in which actions
are put together, so a whole reader is compared with another by comparing their single reads.
-/

set_option autoImplicit false

namespace StreamLexer.Stateful

universe u

variable {ε σ τ α β : Type u} {R : σ → τ → Prop}

theorem bind_of_ok {m : Stateful ε σ α} {k : α → Stateful ε σ β} {s t : σ} {a : α}
    (h : m s = .ok a t) : (m >>= k) s = k a t := by
  change EStateM.bind m k s = _
  simp only [EStateM.bind, h]

theorem bind_of_error {m : Stateful ε σ α} {k : α → Stateful ε σ β} {s t : σ} {e : ε}
    (h : m s = .error e t) : (m >>= k) s = .error e t := by
  change EStateM.bind m k s = _
  simp only [EStateM.bind, h]

theorem bind_congr_at {m n : Stateful ε σ α} (k : α → Stateful ε σ β) {s : σ} (h : m s = n s) :
    (m >>= k) s = (n >>= k) s := by
  cases hm : m s with
  | ok a t => rw [bind_of_ok hm, bind_of_ok (h.symm.trans hm)]
  | error e t => rw [bind_of_error hm, bind_of_error (h.symm.trans hm)]

/-- The same outcome, in states that `R` relates. -/
inductive Matches (R : σ → τ → Prop) : EStateM.Result ε σ α → EStateM.Result ε τ α → Prop where
  | ok (a : α) {s : σ} {t : τ} (h : R s t) : Matches R (.ok a s) (.ok a t)
  | error (e : ε) {s : σ} {t : τ} (h : R s t) : Matches R (.error e s) (.error e t)

def Simulates (R : σ → τ → Prop) (m : Stateful ε σ α) (n : Stateful ε τ α) : Prop :=
  ∀ s t, R s t → Matches R (m s) (n t)

namespace Simulates

theorem pure (a : α) :
    Simulates R (Pure.pure a : Stateful ε σ α) (Pure.pure a : Stateful ε τ α) :=
  fun _ _ h => .ok a h

theorem throw (e : ε) :
    Simulates R (MonadExcept.throw e : Stateful ε σ α) (MonadExcept.throw e : Stateful ε τ α) :=
  fun _ _ h => .error e h

theorem bind {m : Stateful ε σ α} {n : Stateful ε τ α} {k : α → Stateful ε σ β}
    {l : α → Stateful ε τ β} (hm : Simulates R m n) (hk : ∀ a, Simulates R (k a) (l a)) :
    Simulates R (m >>= k) (n >>= l) := by
  intro s t hst
  have hmatch := hm s t hst
  generalize hx : m s = x at hmatch
  generalize hy : n t = y at hmatch
  cases hmatch with
  | ok a h =>
    rw [bind_of_ok hx, bind_of_ok hy]
    exact hk a _ _ h
  | error e h =>
    rw [bind_of_error hx, bind_of_error hy]
    exact .error e h

end Simulates

end StreamLexer.Stateful
