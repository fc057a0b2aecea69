/-
Transactions that only read, while others commit.

Under READ COMMITTED such a transaction holds no locks and nobody waits for it. All that
can happen to it is that the database moves on between two of its statements. So what it
returns is decided by what its statements see, and `Watching` says of a program what holds
when it ends, whichever moments these are: each one is the same as the moment of the
statement before, or a later one.

`R` says which moments may follow which, and `view` what is seen of one.
-/
import Conductor.Lib.ReadCommitted

set_option autoImplicit false

namespace Txn

variable {σ D ε α β : Type} {R : σ → σ → Prop} {view : σ → D} {s : σ}

/-- Whatever the statements see from the moment `s` on, the program writes nothing and
ends with `Q`, which is told the moment of the last statement. -/
def Watching (R : σ → σ → Prop) (view : σ → D) :
    Prog D ε α → σ → (σ → Except ε α → Prop) → Prop
  | .ret a, s, Q => Q s (.ok a)
  | .raise e, s, Q => Q s (.error e)
  | .read k, s, Q => ∀ s', R s s' → Watching R view (k (view s')) s' Q
  | .write _ _ _ _, _, _ => False

namespace Watching

/-- What is concluded may be weakened. -/
theorem mono {Q Q' : σ → Except ε α → Prop} {p : Prog D ε α} (h : Watching R view p s Q)
    (hQ : ∀ s r, Q s r → Q' s r) : Watching R view p s Q' := by
  induction p generalizing s with
  | ret a => exact hQ _ _ h
  | raise e => exact hQ _ _ h
  | read k ih => exact fun s' hs' => ih (view s') (h s' hs')
  | write kind stmt handler k => exact h.elim

/-- One program after the other. -/
theorem bind {Q : σ → Except ε β → Prop} {x : Prog D ε α} {f : α → Prog D ε β}
    (h : Watching R view x s (fun s' r => match r with
      | .ok a => Watching R view (f a) s' Q
      | .error e => Q s' (.error e))) : Watching R view (x >>= f) s Q := by
  induction x generalizing s with
  | ret a => exact h
  | raise e => exact h
  | read k ih => exact fun s' hs' => ih (view s') (h s' hs')
  | write kind stmt handler k => exact h.elim

theorem lift {Q : σ → Except ε α → Prop} (x : Except ε α) (h : Q s x) :
    Watching R view (Prog.lift x) s Q := by
  cases x with
  | ok a => exact h
  | error e => exact h

end Watching

end Txn
