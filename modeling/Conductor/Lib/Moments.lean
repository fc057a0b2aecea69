/-
Two moments of one interleaving, and transactions that nobody interrupts.

The committed database changes at commits only, so a relation that is reflexive and
transitive holds between any two moments as soon as every commit keeps it:
`Discipline.between`. What a commit is laid over and what it lays are described by the
discipline.

A transaction that runs alone is an interleaving too. All other sessions are broken off,
its statements follow one another, and it commits: what `exec` says of it is then what
becomes of the committed database (`Sys.Leads.alone`).
-/
import Conductor.Lib.ReadCommitted

set_option autoImplicit false

namespace Txn

section Moments

variable {D ε κ α γ : Type} [DecidableEq κ] {S : Store D ε κ} {body : γ → Prog D ε α}
  {s s' s'' : Sys D ε α γ}

/-- The system goes on from `s` to `s'`. -/
def Sys.Leads (S : Store D ε κ) (body : γ → Prog D ε α) (s : Sys D ε α γ) :
    Sys D ε α γ → Prop :=
  Lts.Reach (· = s) (fun s l s' => s.step S body l = s')

namespace Sys.Leads

theorem refl (s : Sys D ε α γ) : Sys.Leads S body s s := .start rfl

theorem step (s : Sys D ε α γ) (l : Label γ κ) : Sys.Leads S body s (s.step S body l) :=
  Lts.Reach.next (Leads.refl s) rfl

theorem trans (h : Sys.Leads S body s s') (h' : Sys.Leads S body s' s'') :
    Sys.Leads S body s s'' := by
  induction h' with
  | start hi => rwa [hi]
  | next _ _ hstep ih => exact Lts.Reach.next ih hstep

/-- What is reached from a state that is reached, is reached. -/
theorem reach {init : Sys D ε α γ → Prop} (h : Sys.Leads S body s s')
    (hs : Lts.Reach init (fun s l s' => s.step S body l = s') s) :
    Lts.Reach init (fun s l s' => s.step S body l = s') s' := by
  induction h with
  | start hi => rwa [hi]
  | next _ _ hstep ih => exact Lts.Reach.next ih hstep

end Sys.Leads

/-! ## What every commit keeps -/

/-- **Between two moments.** A discipline without conditions goes on to hold, and what all
its commits keep holds of the two databases. -/
theorem Discipline.between (d : Discipline S body (fun _ _ => True) (fun _ _ _ _ => True)
    (fun _ _ _ _ => True)) (hS : S.Lawful) {R : D → D → Prop} (hrefl : ∀ db, R db db)
    (htrans : ∀ {a b c}, R a b → R b c → R a c)
    (hcommit : ∀ db call a own trace, d.I db → d.J db own trace → d.Q call a own trace →
      R db (S.overlay own db))
    (hsafe : d.Safe s) (h : Sys.Leads S body s s') :
    d.Safe s' ∧ R s.committed s'.committed := by
  induction h with
  | start hi =>
      rw [hi]
      exact ⟨hsafe, hrefl _⟩
  | @next s₁ s₂ l _ _ hstep ih =>
      obtain ⟨hsafe₁, hR⟩ := ih
      rw [← hstep]
      refine ⟨d.safe_step hS hsafe₁ (stepMeets_any S s₁ l), htrans hR ?_⟩
      rcases s₁.step_commits S body l with hsame | ⟨i, t, a, -, ht, hrest, hlaid⟩
      · rw [hsame]
        exact hrefl _
      · rw [hlaid]
        have ht' := hsafe₁.session i t ht
        have houtline := ht'.outline
        rw [hrest] at houtline
        exact hcommit _ _ a _ _ hsafe₁.committed ht'.own houtline

end Moments

/-! ## A transaction alone -/

section Alone

variable {D ε κ α γ : Type} [DecidableEq κ] {S : Store D ε κ} {body : γ → Prog D ε α}
  {s : Sys D ε α γ}

/-- Nothing is left out of a database when all of its rows may stay. -/
def Store.KeepsAll (S : Store D ε κ) : Prop :=
  ∀ p d, (∀ l ∈ S.locks d, p l = true) → S.keep p d = d

/-- A read is always done. -/
theorem Session.next_read {t : Session D ε α γ} {k : D → Prog D ε α} (hrest : t.rest = .read k)
    (db : D) (held : List κ) (skip : κ → Bool) :
    t.next S db held skip = some
      { t with
        rest := k (t.view S db)
        trace := .saw (t.view S db) :: t.trace
        started := none } := by
  unfold next
  rw [hrest]

/-- A write statement that nobody else meets writes what it says. -/
theorem written_alone (hkeep : S.KeepsAll) (kind : Kind) (stmt : D → D) (view : D)
    {free : κ → Bool} (hfree : ∀ l, free l = true) :
    written S kind stmt view view free = stmt view := by
  cases kind with
  | update => exact hkeep _ _ (fun l hl => decide_eq_true hl)
  | skipLocked => exact congrArg stmt (hkeep _ _ (fun l _ => hfree l))
  | insert => rfl

/-- It is done when it passes the constraints. -/
theorem Session.next_write (hkeep : S.KeepsAll) {t : Session D ε α γ} {kind : Kind}
    {stmt : D → D} {handler : ε → ε} {k : D → Prog D ε α}
    (hrest : t.rest = .write kind stmt handler k) {db : D}
    (hstarted : t.started = some (t.view S db))
    (hvalid : S.validate kind (t.view S db) (stmt (t.view S db)) = none) :
    t.next S db [] (fun _ => false) = some
      { t with
        rest := k (stmt (t.view S db))
        own := S.overlay (stmt (t.view S db)) t.own
        trace := .wrote (stmt (t.view S db)) :: t.trace
        started := none } := by
  have hwritten : written S kind stmt (t.view S db) (t.view S db)
      (fun l => l ∉ ([] : List κ) && !false) = stmt (t.view S db) :=
    written_alone hkeep kind stmt (t.view S db) (fun l => by simp)
  have hfree : (S.locks (stmt (t.view S db))).any (fun l => l ∈ ([] : List κ)) = false := by
    simp
  unfold next
  rw [hrest, hstarted]
  dsimp only
  rw [hwritten, hfree, hvalid]
  rfl

/-- Only session `i` is open. -/
def Sys.Alone (s : Sys D ε α γ) (i : ℕ) : Prop := ∀ j, j ≠ i → s.session j = none

omit [DecidableEq κ] in
theorem Sys.Alone.held {i : ℕ} (h : s.Alone i) : s.held S i = [] := by
  refine List.flatMap_eq_nil_iff.mpr (fun j _ => ?_)
  by_cases hj : j = i
  · exact if_pos hj
  · rw [if_neg hj, h j hj]
    rfl

theorem Sys.Alone.put {i : ℕ} (h : s.Alone i) (x : Option (Session D ε α γ)) :
    (s.put i x).Alone i := by
  intro j hj
  cases hu : (s.put i x).session j with
  | none => rfl
  | some u =>
      rcases Sys.session_put hu with ⟨hij, -⟩ | ⟨-, hold⟩
      · exact absurd hij.symm hj
      · rw [h j hj] at hold
        cases hold

/-- A session that is put in a place is there. -/
theorem Sys.session_put_self {i : ℕ} {t u : Session D ε α γ} (h : s.session i = some t) :
    (s.put i (some u)).session i = some u := by
  have hlt : i < s.sessions.length := by
    by_contra hge
    rw [session, List.getElem?_eq_none (by omega)] at h
    cases h
  rw [session, put, List.getElem?_set_self hlt]
  rfl

/-- A step of a session is a step of the system. -/
theorem Sys.Leads.next {i : ℕ} {t t' : Session D ε α γ} {skip : κ → Bool}
    (ht : s.session i = some t) (h : t.next S s.committed (s.held S i) skip = some t') :
    Sys.Leads S body s (s.put i (some t')) := by
  have hstep : Sys.Leads S body s (s.step S body (.next i skip)) := .step s _
  simpa only [Sys.step, ht, Option.elim_some, h] using hstep

theorem Sys.Leads.start {i : ℕ} {t : Session D ε α γ} (ht : s.session i = some t) :
    Sys.Leads S body s (s.put i (some (t.start S s.committed))) := by
  have hstep : Sys.Leads S body s (s.step S body (.start i)) := .step s _
  simpa only [Sys.step, ht, Option.elim_some] using hstep

/-- The statements of a session that is alone, to the end of its program. -/
theorem Sys.Leads.statements (hkeep : S.KeepsAll) {i : ℕ} {p : Prog D ε α} {db' : D} {a : α}
    {t : Session D ε α γ} (halone : s.Alone i) (ht : s.session i = some t) (hrest : t.rest = p)
    (hstarted : t.started = none) (h : exec S p (t.view S s.committed) = .ok (db', a)) :
    ∃ s' t', Sys.Leads S body s s' ∧ s'.committed = s.committed ∧ s'.session i = some t' ∧
      t'.rest = .ret a ∧ t'.view S s'.committed = db' := by
  induction p generalizing s t with
  | ret b =>
      cases h
      exact ⟨s, t, .refl s, rfl, ht, hrest, rfl⟩
  | raise e => cases h
  | read k ih =>
      have hread := Session.next_read (S := S) hrest s.committed (s.held S i) (fun _ => false)
      obtain ⟨s', t', hleads, hcommitted, hlast⟩ := ih (t.view S s.committed) (t :=
        { t with
          rest := k (t.view S s.committed)
          trace := .saw (t.view S s.committed) :: t.trace
          started := none })
        (halone.put _) (Sys.session_put_self ht) rfl rfl h
      exact ⟨s', t', (Sys.Leads.next ht hread).trans hleads, hcommitted, hlast⟩
  | write kind stmt handler k ih =>
      obtain ⟨hvalid, hrun⟩ := (exec_write_ok S).mp h
      -- The statement starts and ends on the same view.
      have hstart : t.start S s.committed = { t with started := some (t.view S s.committed) } := by
        unfold Session.start
        rw [hrest, hstarted]
      have hleads : Sys.Leads S body s (s.put i (some (t.start S s.committed))) := .start ht
      rw [hstart] at hleads
      have ht₁ : (s.put i (some { t with started := some (t.view S s.committed) })).session i
          = some { t with started := some (t.view S s.committed) } := Sys.session_put_self ht
      have hnext := Session.next_write (t := { t with started := some (t.view S s.committed) })
        hkeep hrest rfl hvalid
      rw [← (halone.put (some { t with started := some (t.view S s.committed) })).held (S := S)]
        at hnext
      have hview : S.overlay (S.overlay (stmt (t.view S s.committed)) t.own) s.committed
          = S.overlay (stmt (t.view S s.committed)) (t.view S s.committed) :=
        (S.overlay_overlay _ _ _).symm
      rw [← hview] at hrun
      obtain ⟨s', t', hleads', hcommitted, hlast⟩ := ih (stmt (t.view S s.committed)) (t :=
        { t with
          rest := k (stmt (t.view S s.committed))
          own := S.overlay (stmt (t.view S s.committed)) t.own
          trace := .wrote (stmt (t.view S s.committed)) :: t.trace
          started := none })
        ((halone.put _).put _) (Sys.session_put_self ht₁) rfl rfl hrun
      exact ⟨s', t', (hleads.trans (Sys.Leads.next ht₁ hnext)).trans hleads', hcommitted, hlast⟩

/-- Everybody is broken off. -/
theorem Sys.Leads.abort_all (S : Store D ε κ) (body : γ → Prog D ε α) (s : Sys D ε α γ) :
    ∃ s', Sys.Leads S body s s' ∧ s'.committed = s.committed ∧ ∀ i, s'.session i = none := by
  suffices h : ∀ n, ∃ s', Sys.Leads S body s s' ∧ s'.committed = s.committed ∧
      s'.sessions.length = s.sessions.length ∧ ∀ i < n, s'.session i = none by
    obtain ⟨s', hleads, hcommitted, hlength, hnone⟩ := h s.sessions.length
    refine ⟨s', hleads, hcommitted, fun i => ?_⟩
    by_cases hi : i < s.sessions.length
    · exact hnone i hi
    · rw [session, List.getElem?_eq_none (by omega)]
      rfl
  intro n
  induction n with
  | zero => exact ⟨s, .refl s, rfl, rfl, fun i hi => by omega⟩
  | succ n ih =>
      obtain ⟨s', hleads, hcommitted, hlength, hnone⟩ := ih
      refine ⟨s'.put n none, hleads.trans (Leads.step s' (.abort n)), hcommitted, ?_,
        fun i hi => ?_⟩
      · rw [put, List.length_set]
        exact hlength
      · cases hu : (s'.put n none).session i with
        | none => rfl
        | some u =>
            rcases Sys.session_put hu with ⟨-, hnew⟩ | ⟨hne, hold⟩
            · cases hnew
            · rw [hnone i (by omega)] at hold
              cases hold

/-- **A transaction alone.** What a call comes to when it is run as one atomic step, it
comes to in the system too, whatever was going on there. -/
theorem Sys.Leads.alone (hkeep : S.KeepsAll) (s : Sys D ε α γ) {call : γ} {db' : D} {a : α}
    (h : exec S (body call) s.committed = .ok (db', a)) :
    ∃ s', Sys.Leads S body s s' ∧ s'.committed = db' := by
  obtain ⟨s₀, hleads₀, hcommitted₀, hnone⟩ := Sys.Leads.abort_all S body s
  have ht : (s₀.step S body (.begin call)).session s₀.sessions.length
      = some ⟨call, body call, S.empty, [], none⟩ := by
    rw [Sys.session, Sys.step, List.getElem?_append_right (Nat.le_refl _), Nat.sub_self]
    rfl
  have halone : (s₀.step S body (.begin call)).Alone s₀.sessions.length := by
    intro j hj
    cases hu : (s₀.step S body (.begin call)).session j with
    | none => rfl
    | some u =>
        rcases Sys.session_append hu with ⟨hlast, -⟩ | ⟨-, hold⟩
        · exact absurd hlast hj
        · rw [hnone j] at hold
          cases hold
  obtain ⟨s₁, t₁, hleads₁, hcommitted₁, ht₁, hrest₁, hview₁⟩ := Sys.Leads.statements hkeep
    halone ht rfl rfl (by
      show exec S (body call) (S.overlay S.empty s₀.committed) = _
      rw [S.empty_overlay, hcommitted₀]
      exact h)
  refine ⟨s₁.step S body (.commit s₀.sessions.length),
    ((hleads₀.trans (Leads.step s₀ _)).trans hleads₁).trans (Leads.step s₁ _), ?_⟩
  simp only [Sys.step, ht₁, Option.elim_some, hrest₁]
  exact hview₁

end Alone

end Txn
