/-
What each kind of call may write, in every interleaving.

A `Discipline` has one assertion for the rows of all sessions. A `Contract` adds one
for each call: every write statement of the call's program is of a kind `P`, and what
statements of that kind leave in the session's rows is related to the committed
database by `K`, which the commit of another session does not disturb. There is no
program to follow here: the rule looks at one write statement at a time, wherever in
the program it stands.

With `Discipline.logged` one speaks about the sessions that have ended; the rule at
the end of this file does the same with `K` at hand.
-/
import Conductor.Lib.Outcomes

set_option autoImplicit false

namespace Txn

section Sessions

variable {D ε κ α γ : Type} [DecidableEq κ] {S : Store D ε κ} {body : γ → Prog D ε α}
  {s : Sys D ε α γ} {u : Session D ε α γ} {j : ℕ}

/-- An open session after a step has just begun, has started or run a statement, or
is as it was. -/
theorem Sys.session_step (l : Label γ κ) (h : (s.step S body l).session j = some u) :
    (∃ call, l = .begin call ∧ u = ⟨call, body call, S.empty, [], none⟩) ∨
    ∃ t, s.session j = some t ∧ ((u = t.start S s.committed ∧ l = .start j) ∨
      (∃ skip, l = .next j skip ∧ t.next S s.committed (s.held S j) skip = some u) ∨ u = t) := by
  cases l with
  | begin call =>
      rcases Sys.session_append h with ⟨-, hnew⟩ | ⟨-, hold⟩
      · exact Or.inl ⟨call, rfl, (Option.some.inj hnew).symm⟩
      · exact Or.inr ⟨u, hold, Or.inr (Or.inr rfl)⟩
  | start i =>
      cases ht : s.session i with
      | none =>
          simp only [step, ht, Option.elim_none] at h
          exact Or.inr ⟨u, h, Or.inr (Or.inr rfl)⟩
      | some t =>
          simp only [step, ht, Option.elim_some] at h
          rcases Sys.session_put h with ⟨rfl, hnew⟩ | ⟨-, hold⟩
          · exact Or.inr ⟨t, ht, Or.inl ⟨(Option.some.inj hnew).symm, rfl⟩⟩
          · exact Or.inr ⟨u, hold, Or.inr (Or.inr rfl)⟩
  | next i skip =>
      cases ht : s.session i with
      | none =>
          simp only [step, ht, Option.elim_none] at h
          exact Or.inr ⟨u, h, Or.inr (Or.inr rfl)⟩
      | some t =>
          simp only [step, ht, Option.elim_some] at h
          rcases Sys.session_put h with ⟨rfl, hnew⟩ | ⟨-, hold⟩
          · exact Or.inr ⟨t, ht, Or.inr (Or.inl ⟨skip, rfl, hnew⟩)⟩
          · exact Or.inr ⟨u, hold, Or.inr (Or.inr rfl)⟩
  | commit i =>
      cases ht : s.session i with
      | none =>
          simp only [step, ht, Option.elim_none] at h
          exact Or.inr ⟨u, h, Or.inr (Or.inr rfl)⟩
      | some t =>
          simp only [step, ht, Option.elim_some] at h
          split at h
          · rcases Sys.session_put (x := none) h with ⟨-, hnone⟩ | ⟨-, hold⟩
            · cases hnone
            · exact Or.inr ⟨u, hold, Or.inr (Or.inr rfl)⟩
          · exact Or.inr ⟨u, h, Or.inr (Or.inr rfl)⟩
  | abort i =>
      rcases Sys.session_put h with ⟨-, hnone⟩ | ⟨-, hold⟩
      · cases hnone
      · exact Or.inr ⟨u, hold, Or.inr (Or.inr rfl)⟩

/-- The committed database after a step is the one before it, or another session has
laid its rows over it. -/
theorem Sys.committed_cases (l : Label γ κ) (h : (s.step S body l).session j = some u) :
    (s.step S body l).committed = s.committed ∨
      ∃ i t, i ≠ j ∧ s.session i = some t ∧ s.session j = some u ∧
        (s.step S body l).committed = S.overlay t.own s.committed := by
  rcases s.step_commits S body l with hsame | ⟨i, t, a, rfl, ht, hrest, hlaid⟩
  · exact Or.inl hsame
  · simp only [step, ht, hrest, Option.elim_some] at h
    rcases Sys.session_put (x := none) h with ⟨-, hnone⟩ | ⟨hij, hold⟩
    · cases hnone
    · exact Or.inr ⟨i, t, hij, ht, hold, hlaid⟩

/-- A logged run has a first state. -/
theorem Recorded.exists_start {init : Sys D ε α γ → Prop} {C : Sys D ε α γ → Label γ κ → Prop}
    {s : Logged D ε α γ} (h : Recorded S body init C s) :
    ∃ s₀, init s₀ ∧ Recorded S body (· = s₀) C s := by
  induction h with
  | @start s hi => exact ⟨s.sys, hi.1, .start ⟨rfl, hi.2⟩⟩
  | next _ hc hstep ih =>
      obtain ⟨s₀, hi, hreach⟩ := ih
      exact ⟨s₀, hi, .next hreach hc hstep⟩

end Sessions

/-! ## Contracts -/

section Rule

variable {D ε κ α γ : Type} [DecidableEq κ] {S : Store D ε κ} {body : γ → Prog D ε α}
  {B : D → γ → Prop} {M : γ → List (Event D) → D → D → Prop}
  {N : γ → D → D → List (Event D) → Prop}

/-- What the sessions of each call write, and how it stays related to the committed
database. -/
structure Contract (d : Discipline S body B M N) where
  P : γ → D → D → Prop
  K : γ → D → D → Prop
  writes : ∀ call, (body call).Writes (P call)
  empty : ∀ call db, K call db S.empty
  write : ∀ call db own trace kind stmt started free, d.I db → d.J db own trace →
    (∀ v, P call v (stmt v)) → K call db own →
    K call db (S.overlay (written S kind stmt started (S.overlay own db) free) own)
  /-- The commit of another session, whose rows are others, is not felt. -/
  stable : ∀ call db own trace own' trace', d.I db → d.J db own trace → d.J db own' trace' →
    (∀ l ∈ S.locks own, l ∉ S.locks own') → K call db own → K call (S.overlay own' db) own

namespace Contract

variable {d : Discipline S body B M N} (c : Contract d) {s : Sys D ε α γ}

/-- What holds of one session. -/
structure Kept (db : D) (t : Session D ε α γ) : Prop where
  rest : t.rest.Writes (c.P t.call)
  own : c.K t.call db t.own

variable {c}

/-- One statement keeps the contract of its session. -/
theorem Kept.next {db : D} {t t' : Session D ε α γ} (ht : c.Kept db t) (hsafe : d.SafeSession db t)
    (hI : d.I db) {held : List κ} {skip : κ → Bool} (h : t.next S db held skip = some t') :
    c.Kept db t' := by
  rcases Session.next_cases h with rfl | ⟨k, hrest, rfl⟩ |
    ⟨kind, stmt, handler, k, started, free, rows, hrest, -, rfl, -, -, rfl⟩
  · exact ht
  · have hwrites := ht.rest
    rw [hrest] at hwrites
    cases hwrites with
    | read hk => exact ⟨hk _, ht.own⟩
  · have hwrites := ht.rest
    rw [hrest] at hwrites
    cases hwrites with
    | write hstmt hk =>
        exact ⟨hk _, c.write _ db t.own t.trace kind stmt started free hI hsafe.own hstmt ht.own⟩

/-- **One step keeps every contract.** -/
theorem Kept.step (hsafe : d.Safe s) (hs : ∀ j t, s.session j = some t → c.Kept s.committed t)
    (l : Label γ κ) {j : ℕ} {u : Session D ε α γ} (hu : (s.step S body l).session j = some u) :
    c.Kept (s.step S body l).committed u := by
  rcases Sys.committed_cases l hu with hsame | ⟨i, t, hij, ht, hold, hcommitted⟩
  · rw [hsame]
    rcases Sys.session_step l hu with ⟨call, -, rfl⟩ | ⟨t, ht, hstep⟩
    · exact ⟨c.writes call, c.empty call _⟩
    · rcases hstep with ⟨rfl, -⟩ | ⟨skip, -, hnext⟩ | rfl
      · rcases Session.start_cases (S := S) s.committed t with he | ⟨-, he⟩
        · rw [he]
          exact hs j t ht
        · rw [he]
          exact ⟨(hs j t ht).rest, (hs j t ht).own⟩
      · exact (hs j t ht).next (hsafe.session j t ht) hsafe.committed hnext
      · exact hs j u ht
  · -- Another session has committed; its rows are none of this session's.
    rw [hcommitted]
    refine ⟨(hs j u hold).rest, ?_⟩
    exact c.stable _ _ _ _ _ _ hsafe.committed (hsafe.session j u hold).own
      (hsafe.session i t ht).own (hsafe.disjoint j i u t hij.symm hold ht) (hs j u hold).own

/-- **The rule.** In every state of every interleaving, every session keeps the contract of
its call. -/
theorem kept (c : Contract d) (hS : S.Lawful) {init : Sys D ε α γ → Prop}
    (hinit : ∀ s, init s → d.I s.committed ∧ s.sessions = [])
    (h : Lts.ReachVia init (fun s l s' => s.step S body l = s') (StepMeets S B M N) s) {j : ℕ}
    {t : Session D ε α γ} (ht : s.session j = some t) : c.Kept s.committed t := by
  induction h generalizing j t with
  | start hi =>
      rw [Sys.session, (hinit _ hi).2] at ht
      cases ht
  | next hreach hl hstep ih =>
      rw [← hstep] at ht ⊢
      exact Kept.step (d.safe hS hinit hreach) (fun j t ht => ih ht) _ ht

/-- What holds at the start, of the database and an empty log, and is kept by every
session that ends, by a commit as its discipline and its contract describe it. -/
theorem logged (c : Contract d) (hS : S.Lawful) {init : Sys D ε α γ → Prop}
    (hinit : ∀ s, init s → d.I s.committed ∧ s.sessions = [])
    {P : D → List (Record D ε α γ) → Prop} (hstart : ∀ s, init s → P s.committed [])
    (hother : ∀ db log r, P db log → (∀ a rows, r.ending ≠ .committed a rows) → P db (log ++ [r]))
    (hcommit : ∀ db log i call a rows trace, d.I db → d.J db rows trace → d.Q call a rows trace →
      c.K call db rows → N call db rows trace → P db log →
      P (S.overlay rows db) (log ++ [⟨i, call, .committed a rows⟩]))
    {s : Logged D ε α γ} (h : Recorded S body init (StepMeets S B M N) s) :
    P s.sys.committed s.log := by
  induction h with
  | start hi =>
      rw [hi.2]
      exact hstart _ hi.1
  | @next s s' l hreach hl hstep ih =>
      have hsafe : d.Safe s.sys := d.safe hS hinit (Recorded.reach hreach)
      rw [← hstep]
      simp only [Logged.step, Sys.committed_step]
      cases hended : s.sys.ended S l with
      | none => simpa using ih
      | some r =>
          obtain ⟨i, call, ending⟩ := r
          cases ending with
          | committed a rows =>
              obtain ⟨t, rfl, ht, rfl, hrest, rfl⟩ := Sys.ended_committed hended rfl
              have hN : N t.call s.sys.committed t.own t.trace := by
                simpa only [StepMeets, ht, hrest] using hl
              have hresult : t.result = some a := by rw [Session.result, hrest]
              exact hcommit _ _ _ _ _ _ t.trace hsafe.committed (hsafe.session i t ht).own
                (hsafe.post ht hresult) (c.kept hS hinit (Recorded.reach hreach) ht).own hN ih
          | failed e => exact hother _ _ _ ih (fun a rows he => by cases he)
          | lost => exact hother _ _ _ ih (fun a rows he => by cases he)

end Contract

end Rule

end Txn
