/-
Database transactions as programs.

A transaction is a tree of statements (`Prog`): a read sees the database as the
transaction sees it, a write is a function from that view to the rows it writes,
and a statement that breaks a constraint raises. The tree is written once and
read twice:

* `exec` runs it as one atomic step, which is what "each transaction atomic"
  means and what the functional model of a repository is;
* `ReadCommitted` (the sibling file) runs it one statement at a time, interleaved
  with other transactions.

Nothing here knows what a database is. `Store` is the interface both readings
need: how written rows are laid over a database, which rows a statement locks,
and when a write is refused.
-/
import Mathlib.Data.List.Basic

set_option autoImplicit false

namespace Txn

/-- How a write meets rows that another open transaction has locked: an `UPDATE`
waits for them, `FOR UPDATE SKIP LOCKED` steps over them, an `INSERT` waits for
the fate of an equal key. -/
inductive Kind where
  | update
  | skipLocked
  | insert
deriving DecidableEq

/-- A transaction over databases `D`, raising `ε` and returning `α`.

The `D → D` of a write maps the transaction's view to the rows it writes; its
continuation gets the rows actually written (`RETURNING`, `rowcount`). The
`handler` is the `except` clause around the statement: it renames the exception,
because after a refused statement a transaction can do nothing but fail. -/
inductive Prog (D ε α : Type) : Type where
  | ret (a : α)
  | raise (e : ε)
  | read (k : D → Prog D ε α)
  | write (kind : Kind) (stmt : D → D) (handler : ε → ε) (k : D → Prog D ε α)

namespace Prog

variable {D ε α β : Type}

def bind : Prog D ε α → (α → Prog D ε β) → Prog D ε β
  | .ret a, f => f a
  | .raise e, _ => .raise e
  | .read k, f => .read (fun v => (k v).bind f)
  | .write kind stmt h k, f => .write kind stmt h (fun d => (k d).bind f)

instance : Monad (Prog D ε) where
  pure := .ret
  bind := bind

@[simp] theorem pure_eq (a : α) : (pure a : Prog D ε α) = .ret a := rfl

@[simp] theorem ret_bind (a : α) (f : α → Prog D ε β) : (Prog.ret a >>= f) = f a := rfl

@[simp] theorem raise_bind (e : ε) (f : α → Prog D ε β) :
    ((Prog.raise e : Prog D ε α) >>= f) = .raise e := rfl

@[simp] theorem read_bind (k : D → Prog D ε α) (f : α → Prog D ε β) :
    (Prog.read k >>= f) = .read (fun v => k v >>= f) := rfl

@[simp] theorem write_bind (kind : Kind) (stmt : D → D) (h : ε → ε) (k : D → Prog D ε α)
    (f : α → Prog D ε β) :
    (Prog.write kind stmt h k >>= f) = .write kind stmt h (fun d => k d >>= f) := rfl

/-- A computation that may raise, inside a transaction. -/
def lift : Except ε α → Prog D ε α
  | .ok a => .ret a
  | .error e => .raise e

end Prog

/-- Every write statement of the program, on a view `v`, writes rows `d` with
`P v d`. -/
inductive Prog.Writes {D ε α : Type} (P : D → D → Prop) : Prog D ε α → Prop where
  | ret (a : α) : Writes P (.ret a)
  | raise (e : ε) : Writes P (.raise e)
  | read {k : D → Prog D ε α} (h : ∀ v, Writes P (k v)) : Writes P (.read k)
  | write {kind : Kind} {stmt : D → D} {handler : ε → ε} {k : D → Prog D ε α}
      (hstmt : ∀ v, P v (stmt v)) (h : ∀ d, Writes P (k d)) : Writes P (.write kind stmt handler k)

/-- What both parts of a program write. -/
theorem Prog.Writes.bind {D ε α β : Type} {P : D → D → Prop} {x : Prog D ε α}
    {f : α → Prog D ε β} (hx : x.Writes P) (hf : ∀ a, (f a).Writes P) : (x >>= f).Writes P := by
  induction hx with
  | ret a => exact hf a
  | raise e => exact .raise e
  | read _ ih => exact .read ih
  | write hstmt _ ih => exact .write hstmt ih

theorem Prog.Writes.mono {D ε α : Type} {P P' : D → D → Prop} {x : Prog D ε α} (hx : x.Writes P)
    (h : ∀ v d, P v d → P' v d) : x.Writes P' := by
  induction hx with
  | ret a => exact .ret a
  | raise e => exact .raise e
  | read _ ih => exact .read ih
  | write hstmt _ ih => exact .write (fun v => h _ _ (hstmt v)) ih

theorem Prog.Writes.lift {D ε α : Type} {P : D → D → Prop} (x : Except ε α) :
    (Prog.lift x : Prog D ε α).Writes P := by
  cases x with
  | ok a => exact .ret a
  | error e => exact .raise e

/-- `E` holds of whatever the computation raises. -/
def Raising {ε α : Type} (E : ε → Prop) (x : Except ε α) : Prop := ∀ e, x = .error e → E e

theorem Raising.ok {ε α : Type} {E : ε → Prop} (a : α) : Raising E (.ok a) := by
  intro e h
  cases h

theorem Raising.error {ε α : Type} {E : ε → Prop} {e : ε} (he : E e) :
    Raising E (.error e : Except ε α) := by
  intro e' h
  cases h
  exact he

/-- What comes of two steps that may raise. -/
theorem Raising.bind {ε α β : Type} {E : ε → Prop} {x : Except ε α} {f : α → Except ε β}
    (hx : Raising E x) (hf : ∀ a, Raising E (f a)) : Raising E (x >>= f) := by
  cases x with
  | ok a => exact hf a
  | error e => exact .error (hx e rfl)

/-- `E` holds of whatever the program raises of itself, and no `except` clause
leads out of `E`. -/
inductive Prog.Raises {D ε α : Type} (E : ε → Prop) : Prog D ε α → Prop where
  | ret (a : α) : Raises E (.ret a)
  | raise {e : ε} (h : E e) : Raises E (.raise e)
  | read {k : D → Prog D ε α} (h : ∀ v, Raises E (k v)) : Raises E (.read k)
  | write {kind : Kind} {stmt : D → D} {handler : ε → ε} {k : D → Prog D ε α}
      (hhandler : ∀ e, E e → E (handler e)) (h : ∀ d, Raises E (k d)) :
      Raises E (.write kind stmt handler k)

/-- What both parts of a program raise. -/
theorem Prog.Raises.bind {D ε α β : Type} {E : ε → Prop} {x : Prog D ε α} {f : α → Prog D ε β}
    (hx : x.Raises E) (hf : ∀ a, (f a).Raises E) : (x >>= f).Raises E := by
  induction hx with
  | ret a => exact hf a
  | raise h => exact .raise h
  | read _ ih => exact .read ih
  | write hhandler _ ih => exact .write hhandler ih

theorem Prog.Raises.lift {D ε α : Type} {E : ε → Prop} {x : Except ε α} (hx : Raising E x) :
    (Prog.lift x : Prog D ε α).Raises E := by
  cases x with
  | ok a => exact .ret a
  | error e => exact .raise (hx e rfl)

/-- What a database has to offer to run transactions on it.

`overlay d db` reads the written rows `d` on top of `db`, and a set of written
rows is itself a `D`. `locks d` are the rows (and unique-index entries) `d`
holds, `keep p d` the part of `d` whose locks pass `p`, and `validate` the
constraint a write breaks, if it breaks one. -/
structure Store (D ε κ : Type) where
  empty : D
  overlay : D → D → D
  locks : D → List κ
  keep : (κ → Bool) → D → D
  validate : Kind → D → D → Option ε
  empty_overlay : ∀ d, overlay empty d = d
  overlay_overlay : ∀ d e f, overlay d (overlay e f) = overlay (overlay d e) f

section Exec

variable {D ε κ α β : Type} (S : Store D ε κ)

/-- A transaction run alone: the database and the result, or the exception that
rolled it back. -/
def exec : Prog D ε α → D → Except ε (D × α)
  | .ret a, db => .ok (db, a)
  | .raise e, _ => .error e
  | .read k, db => exec (k db) db
  | .write kind stmt h k, db =>
      match S.validate kind db (stmt db) with
      | some e => .error (h e)
      | none => exec (k (stmt db)) (S.overlay (stmt db) db)

@[simp] theorem exec_ret (a : α) (db : D) : exec S (.ret a) db = .ok (db, a) := rfl

@[simp] theorem exec_raise (e : ε) (db : D) : exec S (.raise e : Prog D ε α) db = .error e := rfl

@[simp] theorem exec_read (k : D → Prog D ε α) (db : D) :
    exec S (.read k) db = exec S (k db) db := rfl

/-- Sequencing: the second program runs on what the first one left. -/
theorem exec_bind (x : Prog D ε α) (f : α → Prog D ε β) (db : D) :
    exec S (x >>= f) db = (exec S x db).bind (fun r => exec S (f r.2) r.1) := by
  induction x generalizing db with
  | ret a => rfl
  | raise e => rfl
  | read k ih => simpa using ih db db
  | write kind stmt h k ih =>
      simp only [Prog.write_bind, exec]
      cases S.validate kind db (stmt db) with
      | some e => rfl
      | none => exact ih _ _

/-- A sequence returns exactly when both parts do. -/
theorem exec_bind_ok {x : Prog D ε α} {f : α → Prog D ε β} {db : D} {r : D × β} :
    exec S (x >>= f) db = .ok r ↔
      ∃ db₁ a, exec S x db = .ok (db₁, a) ∧ exec S (f a) db₁ = .ok r := by
  rw [exec_bind]
  cases h : exec S x db with
  | error e => simp [Except.bind]
  | ok p =>
      obtain ⟨db₁, a⟩ := p
      simp [Except.bind]

/-- A sequence can return when its parts can, one after the other. -/
theorem exec_bind_isOk {x : Prog D ε α} {f : α → Prog D ε β} {db : D} :
    (∃ r, exec S (x >>= f) db = .ok r) ↔
      ∃ db₁ a, exec S x db = .ok (db₁, a) ∧ ∃ r, exec S (f a) db₁ = .ok r := by
  constructor
  · rintro ⟨r, h⟩
    obtain ⟨db₁, a, hx, hf⟩ := (exec_bind_ok S).mp h
    exact ⟨db₁, a, hx, r, hf⟩
  · rintro ⟨db₁, a, hx, r, hf⟩
    exact ⟨r, (exec_bind_ok S).mpr ⟨db₁, a, hx, hf⟩⟩

/-- A write that returns passed its constraints. -/
theorem exec_write_ok {kind : Kind} {stmt : D → D} {h : ε → ε} {k : D → Prog D ε α} {db : D}
    {r : D × α} :
    exec S (.write kind stmt h k) db = .ok r ↔
      S.validate kind db (stmt db) = none ∧
        exec S (k (stmt db)) (S.overlay (stmt db) db) = .ok r := by
  cases hv : S.validate kind db (stmt db) <;> simp [exec, hv]

@[simp] theorem exec_lift_ok {x : Except ε α} {db : D} {r : D × α} :
    exec S (Prog.lift x) db = .ok r ↔ ∃ a, x = .ok a ∧ r = (db, a) := by
  cases x with
  | error e => simp [Prog.lift]
  | ok a => simp [Prog.lift, eq_comm]

/-- What every write of a program keeps, the program keeps. -/
theorem Prog.Writes.exec {P : D → D → Prop} {I : D → Prop} {p : Prog D ε α} (h : p.Writes P)
    (hkeep : ∀ v d, I v → P v d → I (S.overlay d v)) {db db' : D} {a : α} (hdb : I db)
    (hexec : exec S p db = .ok (db', a)) : I db' := by
  induction h generalizing db with
  | ret b =>
      rw [exec_ret] at hexec
      cases hexec
      exact hdb
  | raise e => cases hexec
  | read _ ih => exact ih db hdb hexec
  | write hstmt _ ih =>
      obtain ⟨-, hrest⟩ := (exec_write_ok S).mp hexec
      exact ih _ (hkeep _ _ hdb (hstmt db)) hrest

/-- **What a transaction can fail with**: what it raises of itself, and what the
store refuses of the rows it writes. -/
theorem Prog.Raises.exec {E : ε → Prop} {P : D → D → Prop} {I : D → Prop} {p : Prog D ε α}
    (hr : p.Raises E) (hw : p.Writes P) (hkeep : ∀ v d, I v → P v d → I (S.overlay d v))
    (hrefuse : ∀ kind v d e, I v → P v d → S.validate kind v d = some e → E e) {db : D}
    (hdb : I db) {e : ε} (hexec : Txn.exec S p db = .error e) : E e := by
  induction hr generalizing db with
  | ret a => cases hexec
  | raise h =>
      cases hexec
      exact h
  | read _ ih =>
      cases hw with
      | read hw => exact ih db (hw db) hdb hexec
  | @write kind stmt handler k hhandler _ ih =>
      cases hw with
      | write hstmt hw =>
          simp only [Txn.exec] at hexec
          cases hv : S.validate kind db (stmt db) with
          | some e' =>
              rw [hv] at hexec
              cases hexec
              exact hhandler e' (hrefuse kind db (stmt db) e' hdb (hstmt db) hv)
          | none =>
              rw [hv] at hexec
              exact ih (stmt db) (hw (stmt db)) (hkeep db (stmt db) hdb (hstmt db)) hexec

/-! ## A store that refuses more -/

/-- The store with one more reason to refuse a write. -/
def Store.refusing (bad : D → Option ε) : Store D ε κ where
  empty := S.empty
  overlay := S.overlay
  locks := S.locks
  keep := S.keep
  validate kind v d := (bad d).or (S.validate kind v d)
  empty_overlay := S.empty_overlay
  overlay_overlay := S.overlay_overlay

variable {bad : D → Option ε} {I : D → Prop} {db db' : D} {a : α} {p : Prog D ε α}

/-- A write is carried out if neither the store nor the refusal objects. -/
theorem exec_refusing_write {kind : Kind} {stmt : D → D} {h : ε → ε} {k : D → Prog D ε α}
    {r : D × α} :
    exec (S.refusing bad) (.write kind stmt h k) db = .ok r ↔
      bad (stmt db) = none ∧ S.validate kind db (stmt db) = none ∧
        exec (S.refusing bad) (k (stmt db)) (S.overlay (stmt db) db) = .ok r := by
  rw [exec_write_ok]
  show (bad (stmt db)).or (S.validate kind db (stmt db)) = none ∧ _ ↔ _
  rw [Option.or_eq_none_iff, and_assoc]
  rfl

/-- What it lets through is done as without the further reason. -/
theorem exec_of_refusing {r : D × α} (h : exec (S.refusing bad) p db = .ok r) :
    exec S p db = .ok r := by
  induction p generalizing db with
  | ret b => exact h
  | raise e => cases h
  | read k ih => exact ih db h
  | write kind stmt handler k ih =>
      obtain ⟨-, hvalid, hrest⟩ := (exec_refusing_write S).mp h
      exact (exec_write_ok S).mpr ⟨hvalid, ih (stmt db) hrest⟩

/-- What holds of a database when nothing refused is laid over it goes on to hold. -/
theorem exec_refusing_keeps (hkeep : ∀ v d, I v → bad d = none → I (S.overlay d v)) (hdb : I db)
    (h : exec (S.refusing bad) p db = .ok (db', a)) : I db' := by
  induction p generalizing db with
  | ret b =>
      cases h
      exact hdb
  | raise e => cases h
  | read k ih => exact ih db hdb h
  | write kind stmt handler k ih =>
      obtain ⟨hbad, -, hrest⟩ := (exec_refusing_write S).mp h
      exact ih (stmt db) (hkeep db (stmt db) hdb hbad) hrest

/-- **A program that writes nothing refused** does not see the difference. -/
theorem Prog.Writes.exec_refusing (hw : p.Writes (fun v d => I v → bad d = none))
    (hkeep : ∀ v d, I v → bad d = none → I (S.overlay d v)) (hdb : I db) :
    Txn.exec (S.refusing bad) p db = Txn.exec S p db := by
  induction hw generalizing db with
  | ret b => rfl
  | raise e => rfl
  | read _ ih => exact ih db hdb
  | @write kind stmt handler k hstmt _ ih =>
      have hfine := hstmt db hdb
      have hsame : (S.refusing bad).validate kind db (stmt db) = S.validate kind db (stmt db) := by
        show (bad (stmt db)).or (S.validate kind db (stmt db)) = _
        rw [hfine, Option.none_or]
      simp only [Txn.exec, hsame]
      cases S.validate kind db (stmt db) with
      | some e => rfl
      | none => exact ih (stmt db) (hkeep db (stmt db) hdb hfine)

end Exec

end Txn
