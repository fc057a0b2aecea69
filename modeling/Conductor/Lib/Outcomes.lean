/-
What becomes of the transactions of an interleaved system.

`Logged` is a `Sys` that writes down how each session ends: committed, with what it
returned and wrote; failed, with the exception that rolled it back; or lost, when
the process or its connection is gone before there is an answer. The log is only
written, so a logged run is a run of the system.

Two rules speak about logs. `Discipline.logged` proves something of the committed
database and the log together, one ended session at a time. `Progress` is the
total side of a `Discipline`: annotations under which no session fails at all.

At the end, a store that refuses more: calls that write nothing it refuses run there as
they do on the store that would let everything through.
-/
import Conductor.Lib.ReadCommitted

set_option autoImplicit false

namespace Txn

/-- How a session ends. -/
inductive Ending (D ε α : Type) where
  | committed (a : α) (rows : D)
  | failed (e : ε)
  | lost

/-- The end of one session. -/
structure Record (D ε α γ : Type) where
  session : ℕ
  call : γ
  ending : Ending D ε α

/-- A system and the ends of its sessions, the earliest first. -/
structure Logged (D ε α γ : Type) where
  sys : Sys D ε α γ
  log : List (Record D ε α γ)

section Semantics

variable {D ε κ α γ : Type} [DecidableEq κ] (S : Store D ε κ)

/-- The exception of a session whose next statement is refused. -/
def Session.refusal (db : D) (held : List κ) (skip : κ → Bool) (t : Session D ε α γ) : Option ε :=
  match t.rest, t.started with
  | .write kind stmt handler _, some started =>
      let rows := written S kind stmt started (t.view S db) (fun l => l ∉ held && !skip l)
      if (S.locks rows).any (fun l => l ∈ held) then none
      else (S.validate kind (t.view S db) rows).map handler
  | _, _ => none

/-- How a session that is broken off ends: one that has raised fails with what it
raised. -/
def Session.broken (t : Session D ε α γ) : Ending D ε α :=
  match t.rest with
  | .raise e => .failed e
  | _ => .lost

/-- The session that a step ends, if it ends one. -/
def Sys.ended (s : Sys D ε α γ) : Label γ κ → Option (Record D ε α γ)
  | .next i skip => (s.session i).bind (fun t =>
      (t.refusal S s.committed (s.held S i) skip).map (fun e => ⟨i, t.call, .failed e⟩))
  | .commit i => (s.session i).bind (fun t =>
      t.result.map (fun a => ⟨i, t.call, .committed a t.own⟩))
  | .abort i => (s.session i).map (fun t => ⟨i, t.call, t.broken⟩)
  | _ => none

def Logged.step (body : γ → Prog D ε α) (s : Logged D ε α γ) (l : Label γ κ) : Logged D ε α γ :=
  ⟨s.sys.step S body l, s.log ++ (s.sys.ended S l).toList⟩

end Semantics

section Runs

variable {D ε κ α γ : Type} [DecidableEq κ] {S : Store D ε κ} {body : γ → Prog D ε α}
  {init : Sys D ε α γ → Prop} {C : Sys D ε α γ → Label γ κ → Prop}

/-- States of a logged system. -/
def Recorded (S : Store D ε κ) (body : γ → Prog D ε α) (init : Sys D ε α γ → Prop)
    (C : Sys D ε α γ → Label γ κ → Prop) : Logged D ε α γ → Prop :=
  Lts.ReachVia (fun s => init s.sys ∧ s.log = []) (fun s l s' => s.step S body l = s')
    (fun s l => C s.sys l)

/-- The log changes nothing. -/
theorem Recorded.reach {s : Logged D ε α γ} (h : Recorded S body init C s) :
    Lts.ReachVia init (fun s l s' => s.step S body l = s') C s.sys := by
  induction h with
  | start hi => exact .start hi.1
  | next _ hc hstep ih =>
      rw [← hstep]
      exact .next ih hc rfl

theorem Recorded.mono {C' : Sys D ε α γ → Label γ κ → Prop} (hC : ∀ s l, C s l → C' s l)
    {s : Logged D ε α γ} (h : Recorded S body init C s) : Recorded S body init C' s :=
  Lts.ReachVia.mono (fun (s : Logged D ε α γ) l => hC s.sys l) h

/-- What a refused statement was. -/
theorem Session.refusal_cases {t : Session D ε α γ} {db : D} {held : List κ} {skip : κ → Bool}
    {e : ε} (h : t.refusal S db held skip = some e) :
    ∃ kind stmt handler k started free rows e', t.rest = .write kind stmt handler k ∧
      t.started = some started ∧ rows = written S kind stmt started (t.view S db) free ∧
      S.validate kind (t.view S db) rows = some e' ∧ e = handler e' := by
  unfold refusal at h
  split at h
  · rename_i kind stmt handler k started hrest hstarted
    dsimp only at h
    split at h
    · cases h
    · obtain ⟨e', hvalid, he⟩ := Option.map_eq_some_iff.mp h
      exact ⟨kind, stmt, handler, k, started, _, _, e', hrest, hstarted, rfl, hvalid, he.symm⟩
  · cases h

/-- A session that is refused is gone. -/
theorem Session.next_of_refusal {t : Session D ε α γ} {db : D} {held : List κ} {skip : κ → Bool}
    {e : ε} (h : t.refusal S db held skip = some e) : t.next S db held skip = none := by
  obtain ⟨call, rest, own, trace, started⟩ := t
  unfold refusal at h
  split at h
  · rename_i kind stmt handler k started hrest hstarted
    cases hrest
    cases hstarted
    dsimp only at h
    split at h
    · cases h
    · rename_i hfree
      obtain ⟨e', hvalid, -⟩ := Option.map_eq_some_iff.mp h
      simp only [next, if_neg hfree, hvalid]
  · cases h

/-- What a step does to the committed database, by the session it ends. -/
theorem Sys.committed_step {s : Sys D ε α γ} (l : Label γ κ) :
    (s.step S body l).committed =
      match s.ended S l with
      | some ⟨_, _, .committed _ rows⟩ => S.overlay rows s.committed
      | _ => s.committed := by
  cases l with
  | begin call => rfl
  | start i => cases h : s.session i <;> simp only [step, ended, h] <;> rfl
  | next i skip =>
      cases h : s.session i with
      | none => simp only [step, ended, h]; rfl
      | some t =>
          simp only [step, ended, h, Option.elim_some, Option.bind_some]
          cases t.refusal S s.committed (s.held S i) skip <;> rfl
  | commit i =>
      cases h : s.session i with
      | none => simp only [step, ended, h]; rfl
      | some t =>
          simp only [step, ended, h, Option.elim_some, Option.bind_some, Session.result]
          split <;> rfl
  | abort i =>
      cases h : s.session i with
      | none => simp only [step, ended, h]; rfl
      | some t =>
          simp only [step, ended, h, Option.map_some, Session.broken]
          split
          · rename_i heq
            split at heq <;> cases heq
          · rfl

/-- A committed record is that of a session that came to its end. -/
theorem Sys.ended_committed {s : Sys D ε α γ} {l : Label γ κ} {r : Record D ε α γ} {a : α}
    {rows : D} (h : s.ended S l = some r) (hr : r.ending = .committed a rows) :
    ∃ t, l = .commit r.session ∧ s.session r.session = some t ∧ t.call = r.call ∧ t.rest = .ret a ∧
      rows = t.own := by
  cases l with
  | begin call => cases h
  | start i => cases h
  | next i skip =>
      obtain ⟨t, -, h⟩ := Option.bind_eq_some_iff.mp h
      obtain ⟨e, -, rfl⟩ := Option.map_eq_some_iff.mp h
      cases hr
  | commit i =>
      obtain ⟨t, ht, h⟩ := Option.bind_eq_some_iff.mp h
      obtain ⟨b, hresult, rfl⟩ := Option.map_eq_some_iff.mp h
      unfold Session.result at hresult
      split at hresult
      · rename_i hrest
        cases hresult
        cases hr
        exact ⟨t, rfl, ht, rfl, hrest, rfl⟩
      · cases hresult
  | abort i =>
      obtain ⟨t, -, rfl⟩ := Option.map_eq_some_iff.mp h
      unfold Session.broken at hr
      split at hr <;> cases hr

/-- A failed record is that of a session that had raised, or was refused. -/
theorem Sys.ended_failed {s : Sys D ε α γ} {l : Label γ κ} {r : Record D ε α γ} {e : ε}
    (h : s.ended S l = some r) (hr : r.ending = .failed e) :
    ∃ t, s.session r.session = some t ∧ (t.rest = .raise e ∨
      ∃ skip, l = .next r.session skip ∧
        t.refusal S s.committed (s.held S r.session) skip = some e) := by
  cases l with
  | begin call => cases h
  | start i => cases h
  | next i skip =>
      obtain ⟨t, ht, h⟩ := Option.bind_eq_some_iff.mp h
      obtain ⟨e', hrefusal, rfl⟩ := Option.map_eq_some_iff.mp h
      cases hr
      exact ⟨t, ht, Or.inr ⟨skip, rfl, hrefusal⟩⟩
  | commit i =>
      obtain ⟨t, -, h⟩ := Option.bind_eq_some_iff.mp h
      obtain ⟨b, -, rfl⟩ := Option.map_eq_some_iff.mp h
      cases hr
  | abort i =>
      obtain ⟨t, ht, rfl⟩ := Option.map_eq_some_iff.mp h
      unfold Session.broken at hr
      split at hr
      · rename_i hrest
        cases hr
        exact ⟨t, ht, Or.inl hrest⟩
      · cases hr

/-- The session of a record was open, and is not after it. -/
theorem Sys.ended_session {s : Sys D ε α γ} {l : Label γ κ} {r : Record D ε α γ}
    (h : s.ended S l = some r) :
    (∃ t, s.session r.session = some t) ∧ (s.step S body l).session r.session = none := by
  have hput : ∀ i, (s.put i none).session i = none := by
    intro i
    cases hsession : (s.put i none).session i with
    | none => rfl
    | some u =>
        rcases Sys.session_put hsession with ⟨-, hnone⟩ | ⟨hne, -⟩
        · cases hnone
        · exact absurd rfl hne
  -- Whichever step writes the record also puts nothing in the place of the session.
  cases l with
  | begin call => cases h
  | start i => cases h
  | next i skip =>
      obtain ⟨t, ht, h⟩ := Option.bind_eq_some_iff.mp h
      obtain ⟨e, hrefusal, rfl⟩ := Option.map_eq_some_iff.mp h
      refine ⟨⟨t, ht⟩, ?_⟩
      simp only [step, ht, Option.elim_some, Session.next_of_refusal hrefusal]
      exact hput i
  | commit i =>
      obtain ⟨t, ht, h⟩ := Option.bind_eq_some_iff.mp h
      obtain ⟨b, hresult, rfl⟩ := Option.map_eq_some_iff.mp h
      refine ⟨⟨t, ht⟩, ?_⟩
      unfold Session.result at hresult
      split at hresult
      · rename_i hrest
        simp only [step, ht, Option.elim_some, hrest]
        exact hput i
      · cases hresult
  | abort i =>
      obtain ⟨t, ht, rfl⟩ := Option.map_eq_some_iff.mp h
      exact ⟨⟨t, ht⟩, hput i⟩

omit [DecidableEq κ] in
theorem Sys.lt_of_session {s : Sys D ε α γ} {i : ℕ} {t : Session D ε α γ}
    (h : s.session i = some t) : i < s.sessions.length := by
  by_contra hge
  rw [session, List.getElem?_eq_none (Nat.le_of_not_lt hge)] at h
  cases h

omit [DecidableEq κ] in
theorem Sys.mem_of_session {s : Sys D ε α γ} {i : ℕ} {t : Session D ε α γ}
    (h : s.session i = some t) : some t ∈ s.sessions :=
  List.mem_of_getElem? (Option.join_eq_some_iff.mp h)

theorem Sys.length_step (s : Sys D ε α γ) (l : Label γ κ) :
    s.sessions.length ≤ (s.step S body l).sessions.length := by
  cases l with
  | begin call => simp [step]
  | start i => cases h : s.session i <;> simp [step, h, put]
  | next i skip => cases h : s.session i <;> simp [step, h, put]
  | commit i =>
      cases h : s.session i with
      | none => simp [step, h]
      | some t =>
          simp only [step, h, Option.elim_some]
          split <;> simp [put]
  | abort i => simp [step, put]

/-- A session that is not open stays so. -/
theorem Sys.closed_step {s : Sys D ε α γ} {i : ℕ} (hlt : i < s.sessions.length)
    (hclosed : s.session i = none) (l : Label γ κ) : (s.step S body l).session i = none := by
  have hput : ∀ j x, (x ≠ none → s.session j ≠ none) → (s.put j x).session i = none := by
    intro j x hx
    cases hsession : (s.put j x).session i with
    | none => rfl
    | some u =>
        rcases Sys.session_put hsession with ⟨rfl, rfl⟩ | ⟨-, hopen⟩
        · exact absurd hclosed (hx (by simp))
        · rw [hclosed] at hopen
          cases hopen
  -- A new session is appended; the others are written to only where one is open.
  cases l with
  | begin call =>
      cases hsession : (s.step S body (.begin call)).session i with
      | none => rfl
      | some u =>
          rcases Sys.session_append hsession with ⟨hi, -⟩ | ⟨-, hopen⟩
          · omega
          · rw [hclosed] at hopen
            cases hopen
  | start j =>
      cases hj : s.session j with
      | none => simpa only [step, hj, Option.elim_none] using hclosed
      | some t =>
          simp only [step, hj, Option.elim_some]
          exact hput j _ (fun _ => by rw [hj]; simp)
  | next j skip =>
      cases hj : s.session j with
      | none => simpa only [step, hj, Option.elim_none] using hclosed
      | some t =>
          simp only [step, hj, Option.elim_some]
          exact hput j _ (fun _ => by rw [hj]; simp)
  | commit j =>
      cases hj : s.session j with
      | none => simpa only [step, hj, Option.elim_none] using hclosed
      | some t =>
          simp only [step, hj, Option.elim_some]
          split
          · exact hput j none (fun h => absurd rfl h)
          · exact hclosed
  | abort j => exact hput j none (fun h => absurd rfl h)

/-- **A session ends once.** -/
theorem Recorded.once {s : Logged D ε α γ} (h : Recorded S body init C s) :
    (s.log.map Record.session).Nodup := by
  suffices hinv : (s.log.map Record.session).Nodup ∧
      ∀ r ∈ s.log, r.session < s.sys.sessions.length ∧ s.sys.session r.session = none from hinv.1
  induction h with
  | start hi =>
      rw [hi.2]
      exact ⟨List.nodup_nil, fun r hr => absurd hr List.not_mem_nil⟩
  | @next s s' l _ _ hstep ih =>
      obtain ⟨hnodup, hclosed⟩ := ih
      rw [← hstep]
      have hlen : _ ≤ (s.sys.step S body l).sessions.length := s.sys.length_step l
      have hkept : ∀ r ∈ s.log, r.session < (s.sys.step S body l).sessions.length ∧
          (s.sys.step S body l).session r.session = none :=
        fun r hr => ⟨Nat.lt_of_lt_of_le (hclosed r hr).1 hlen,
          Sys.closed_step (hclosed r hr).1 (hclosed r hr).2 l⟩
      simp only [Logged.step]
      cases hended : s.sys.ended S l with
      | none => simpa using ⟨hnodup, hkept⟩
      | some r =>
          obtain ⟨⟨t, ht⟩, hgone⟩ :
              _ ∧ (s.sys.step S body l).session r.session = none := Sys.ended_session hended
          -- The session was open, hence in no earlier record.
          have hnew : r.session ∉ s.log.map Record.session := by
            intro hmem
            obtain ⟨r', hr', he⟩ := List.mem_map.mp hmem
            rw [← he, (hclosed r' hr').2] at ht
            cases ht
          refine ⟨?_, fun r' hr' => ?_⟩
          · rw [Option.toList_some, List.map_append, List.map_singleton]
            exact List.nodup_append.mpr ⟨hnodup, List.pairwise_singleton _ _,
              fun a ha b hb hab => hnew (by rw [← List.mem_singleton.mp hb, ← hab]; exact ha)⟩
          · rcases List.mem_append.mp hr' with hr' | hr'
            · exact hkept r' hr'
            · rw [List.mem_singleton.mp hr']
              exact ⟨Nat.lt_of_lt_of_le (Sys.lt_of_session ht) hlen, hgone⟩

end Runs

/-! ## Proving something of the log -/

section Rules

variable {D ε κ α γ : Type} [DecidableEq κ] {S : Store D ε κ} {body : γ → Prog D ε α}
  {B : D → γ → Prop} {M : γ → List (Event D) → D → D → Prop}
  {N : γ → D → D → List (Event D) → Prop} {init : Sys D ε α γ → Prop}

/-- What holds at the start, of the database and an empty log, and is kept by every
session that ends, by a commit as its annotations describe it. -/
theorem Discipline.logged (d : Discipline S body B M N) (hS : S.Lawful)
    (hinit : ∀ s, init s → d.I s.committed ∧ s.sessions = [])
    {P : D → List (Record D ε α γ) → Prop} (hstart : ∀ s, init s → P s.committed [])
    (hother : ∀ db log r, P db log → (∀ a rows, r.ending ≠ .committed a rows) → P db (log ++ [r]))
    (hcommit : ∀ db log i call a rows trace, d.I db → d.J db rows trace → d.Q call a rows trace →
      N call db rows trace → P db log →
      P (S.overlay rows db) (log ++ [⟨i, call, .committed a rows⟩]))
    {s : Logged D ε α γ} (h : Recorded S body init (StepMeets S B M N) s) :
    P s.sys.committed s.log := by
  induction h with
  | start hi =>
      rw [hi.2]
      exact hstart _ hi.1
  | @next s s' l hreach hl hstep ih =>
      have hsafe : d.Safe s.sys := d.safe hS hinit (Recorded.reach hreach)
      rw [← hstep]
      simp only [Logged.step, Sys.committed_step]
      cases hended : s.sys.ended S l with
      | none => simpa using ih
      | some r =>
          obtain ⟨i, call, ending⟩ := r
          cases ending with
          | committed a rows =>
              obtain ⟨t, rfl, ht, rfl, hrest, rfl⟩ := Sys.ended_committed hended rfl
              have hN : N t.call s.sys.committed t.own t.trace := by
                simpa only [StepMeets, ht, hrest] using hl
              have hresult : t.result = some a := by rw [Session.result, hrest]
              exact hcommit _ _ _ _ _ _ t.trace hsafe.committed (hsafe.session i t ht).own
                (hsafe.post ht hresult) hN ih
          | failed e => exact hother _ _ _ ih (fun a rows he => by cases he)
          | lost => exact hother _ _ _ ih (fun a rows he => by cases he)

/-! ## Proving that no session fails -/

variable (S) in
/-- A program that does not fail: no statement of it is refused, it raises nothing,
and it returns with `Q`. `F` is what may be assumed of the committed database at any
statement; the other annotations are those of `Outline`. -/
def Unfailing (I : D → Prop) (J : D → D → List (Event D) → Prop)
    (M : List (Event D) → D → D → Prop) (F : D → Prop) {α : Type}
    (Q : α → D → List (Event D) → Prop) : Prog D ε α → D → List (Event D) → Prop
  | .ret a, own, trace => Q a own trace
  | .raise _, _, _ => False
  | .read k, own, trace => ∀ db, I db → J db own trace → F db →
      Unfailing I J M F Q (k (S.overlay own db)) own (.saw (S.overlay own db) :: trace)
  | .write kind stmt _ k, own, trace => ∀ db₀ db free rows,
      I db₀ → J db₀ own trace → I db → J db own trace → F db →
      M trace (S.overlay own db₀) (S.overlay own db) →
      rows = written S kind stmt (S.overlay own db₀) (S.overlay own db) free →
      S.validate kind (S.overlay own db) rows = none ∧
        Unfailing I J M F Q (k rows) (S.overlay rows own) (.wrote rows :: trace)

/-- Programs in sequence. -/
theorem Unfailing.bind {I : D → Prop} {J : D → D → List (Event D) → Prop}
    {M : List (Event D) → D → D → Prop} {F : D → Prop} {α β : Type}
    {Q : α → D → List (Event D) → Prop} {Q' : β → D → List (Event D) → Prop} {p : Prog D ε α}
    {f : α → Prog D ε β} {own : D} {trace : List (Event D)}
    (hp : Unfailing S I J M F Q p own trace)
    (hf : ∀ a own trace, Q a own trace → Unfailing S I J M F Q' (f a) own trace) :
    Unfailing S I J M F Q' (p >>= f) own trace := by
  induction p generalizing own trace with
  | ret a => exact hf a own trace hp
  | raise e => exact hp.elim
  | read k ih =>
      intro db hI hJ hF
      exact ih _ (hp db hI hJ hF)
  | write kind stmt handler k ih =>
      intro db₀ db free rows hI₀ hJ₀ hI hJ hF hM hrows
      obtain ⟨hvalid, hrest⟩ := hp db₀ db free rows hI₀ hJ₀ hI hJ hF hM hrows
      exact ⟨hvalid, ih _ hrest⟩

/-- A weaker postcondition. -/
theorem Unfailing.mono {I : D → Prop} {J : D → D → List (Event D) → Prop}
    {M : List (Event D) → D → D → Prop} {F : D → Prop} {α : Type}
    {Q Q' : α → D → List (Event D) → Prop} {p : Prog D ε α} {own : D} {trace : List (Event D)}
    (hp : Unfailing S I J M F Q p own trace)
    (hQ : ∀ a own trace, Q a own trace → Q' a own trace) :
    Unfailing S I J M F Q' p own trace := by
  induction p generalizing own trace with
  | ret a => exact hQ a own trace hp
  | raise e => exact hp.elim
  | read k ih =>
      intro db hI hJ hF
      exact ih _ (hp db hI hJ hF)
  | write kind stmt handler k ih =>
      intro db₀ db free rows hI₀ hJ₀ hI hJ hF hM hrows
      obtain ⟨hvalid, hrest⟩ := hp db₀ db free rows hI₀ hJ₀ hI hJ hF hM hrows
      exact ⟨hvalid, ih _ hrest⟩

/-- A program that does not fail also meets the postconditions of its outlines. -/
theorem Unfailing.with_outline {I : D → Prop} {J : D → D → List (Event D) → Prop}
    {M : List (Event D) → D → D → Prop} {F : D → Prop} {α : Type}
    {Q Q' : α → D → List (Event D) → Prop} {p : Prog D ε α} {own : D} {trace : List (Event D)}
    (hp : Unfailing S I J M F Q p own trace) (ho : Outline S I J M Q' p own trace) :
    Unfailing S I J M F (fun a own trace => Q a own trace ∧ Q' a own trace) p own trace := by
  induction p generalizing own trace with
  | ret a => exact ⟨hp, ho⟩
  | raise e => exact hp.elim
  | read k ih =>
      intro db hI hJ hF
      exact ih _ (hp db hI hJ hF) (ho db hI hJ).2
  | write kind stmt handler k ih =>
      intro db₀ db free rows hI₀ hJ₀ hI hJ hF hM hrows
      obtain ⟨hvalid, hrest⟩ := hp db₀ db free rows hI₀ hJ₀ hI hJ hF hM hrows
      exact ⟨hvalid, ih _ hrest (ho db₀ db free rows hI₀ hJ₀ hI hJ hM hrows hvalid).2⟩

/-- The obligations of a proof that no session fails. -/
structure Progress (d : Discipline S body B M N) where
  /-- What a call relies on. -/
  F : γ → D → Prop
  /-- How calls differ that are open at once. -/
  R : γ → γ → Prop
  begins : ∀ db call, d.I db → B db call → F call db →
    Unfailing S d.I d.J (M call) (F call) (fun _ _ _ => True) (body call) S.empty []
  /-- The commit of another call leaves a call what it relies on. -/
  stable : ∀ db call call' a own trace, d.I db → F call db → R call call' →
    d.J db own trace → d.Q call' a own trace → F call (S.overlay own db)

namespace Progress

variable {d : Discipline S body B M N} (p : Progress d)

/-- The condition on the beginning of a call. -/
def Admits (s : Sys D ε α γ) : Label γ κ → Prop
  | .begin call => p.F call s.committed ∧
      ∀ i t, s.session i = some t → p.R call t.call ∧ p.R t.call call
  | _ => True

/-- What holds of one session. -/
structure SoundSession (db : D) (t : Session D ε α γ) : Prop where
  relies : p.F t.call db
  unfailing :
    Unfailing S d.I d.J (M t.call) (p.F t.call) (fun _ _ _ => True) t.rest t.own t.trace

structure Sound (s : Sys D ε α γ) : Prop where
  session : ∀ i t, s.session i = some t → p.SoundSession s.committed t
  apart : ∀ i j t u, i ≠ j → s.session i = some t → s.session j = some u → p.R t.call u.call

variable {p} {s : Sys D ε α γ} {t t' : Session D ε α γ} {i : ℕ} {db : D} {held : List κ}
  {skip : κ → Bool}

/-- One statement keeps its session sound. -/
theorem SoundSession.next (ht : p.SoundSession db t) (hsafe : d.SafeSession db t) (hI : d.I db)
    (hM : ∀ started, t.started = some started → M t.call t.trace started (t.view S db))
    (h : t.next S db held skip = some t') : t'.call = t.call ∧ p.SoundSession db t' := by
  rcases Session.next_cases h with rfl | ⟨k, hrest, rfl⟩ |
    ⟨kind, stmt, handler, k, started, free, rows, hrest, hstarted, hrows, -, -, rfl⟩
  · exact ⟨rfl, ht⟩
  · have hunfailing := ht.unfailing
    rw [hrest] at hunfailing
    exact ⟨rfl, ht.relies, hunfailing db hI hsafe.own ht.relies⟩
  · have hunfailing := ht.unfailing
    rw [hrest] at hunfailing
    obtain ⟨db₀, hI₀, hJ₀, rfl⟩ := hsafe.started started hstarted
    exact ⟨rfl, ht.relies, (hunfailing db₀ db free rows hI₀ hJ₀ hI hsafe.own ht.relies
      (hM _ hstarted) hrows).2⟩

/-- Its statement is not refused. -/
theorem SoundSession.refusal (ht : p.SoundSession db t) (hsafe : d.SafeSession db t) (hI : d.I db)
    (hM : ∀ started, t.started = some started → M t.call t.trace started (t.view S db)) :
    t.refusal S db held skip = none := by
  cases h : t.refusal S db held skip with
  | none => rfl
  | some e =>
      obtain ⟨kind, stmt, handler, k, started, free, rows, e', hrest, hstarted, hrows, hvalid, -⟩ :=
        Session.refusal_cases h
      have hunfailing := ht.unfailing
      rw [hrest] at hunfailing
      obtain ⟨db₀, hI₀, hJ₀, rfl⟩ := hsafe.started started hstarted
      have hnone := (hunfailing db₀ db free rows hI₀ hJ₀ hI hsafe.own ht.relies
        (hM _ hstarted) hrows).1
      rw [show S.validate kind (S.overlay t.own db) rows = some e' from hvalid] at hnone
      cases hnone

/-- Replacing one session by a sound one of the same call. -/
theorem Sound.put (hs : p.Sound s) {x : Option (Session D ε α γ)}
    (hx : ∀ t', x = some t' → ∃ t, s.session i = some t ∧ t'.call = t.call ∧
      p.SoundSession s.committed t') : p.Sound (s.put i x) := by
  -- Every session has the call of a session of before.
  have hcall : ∀ j u, (s.put i x).session j = some u →
      p.SoundSession s.committed u ∧ ∃ u', s.session j = some u' ∧ u.call = u'.call := by
    intro j u hu
    rcases Sys.session_put hu with ⟨rfl, hxu⟩ | ⟨-, hu⟩
    · obtain ⟨t, ht, hcall, hsound⟩ := hx u hxu
      exact ⟨hsound, t, ht, hcall⟩
    · exact ⟨hs.session j u hu, u, hu, rfl⟩
  refine ⟨fun j u hu => (hcall j u hu).1, fun j k u v hjk hu hv => ?_⟩
  obtain ⟨-, u', hu', hcallu⟩ := hcall j u hu
  obtain ⟨-, v', hv', hcallv⟩ := hcall k v hv
  rw [hcallu, hcallv]
  exact hs.apart j k u' v' hjk hu' hv'

/-- A new session starts on what it relies on, apart from the others. -/
theorem Sound.begin (hs : p.Sound s) (hsafe : d.Safe s) {call : γ} (hB : B s.committed call)
    (hadmits : p.Admits s (.begin call)) : p.Sound (s.step S body (.begin call)) := by
  obtain ⟨hF, hR⟩ := hadmits
  refine ⟨fun j u hu => ?_, fun j k u v hjk hu hv => ?_⟩
  · rcases Sys.session_append hu with ⟨-, hnew⟩ | ⟨-, hu⟩
    · cases hnew
      exact ⟨hF, p.begins s.committed call hsafe.committed hB hF⟩
    · exact hs.session j u hu
  · rcases Sys.session_append hu with ⟨hj, hnew⟩ | ⟨-, hu⟩
    · rcases Sys.session_append hv with ⟨hk, -⟩ | ⟨-, hv⟩
      · exact absurd (hj.trans hk.symm) hjk
      · cases hnew
        exact (hR k v hv).1
    · rcases Sys.session_append hv with ⟨-, hnew⟩ | ⟨-, hv⟩
      · cases hnew
        exact (hR j u hu).2
      · exact hs.apart j k u v hjk hu hv

/-- A commit leaves the other sessions what they rely on. -/
theorem Sound.commit (hs : p.Sound s) (hsafe : d.Safe s) (ht : s.session i = some t) {a : α}
    (hresult : t.result = some a) :
    p.Sound { (s.put i none) with committed := t.view S s.committed } := by
  have hother : ∀ {j u}, Sys.session { (s.put i none) with committed := t.view S s.committed } j
      = some u → i ≠ j ∧ s.session j = some u := by
    intro j u hu
    rcases Sys.session_put (x := none) hu with ⟨-, hnone⟩ | hu
    · cases hnone
    · exact hu
  refine ⟨fun j u hu => ?_, fun j k u v hjk hu hv => ?_⟩
  · obtain ⟨hij, hu⟩ := hother hu
    have hsound := hs.session j u hu
    refine ⟨?_, hsound.unfailing⟩
    exact p.stable _ _ _ _ _ _ hsafe.committed hsound.relies (hs.apart j i u t hij.symm hu ht)
      (hsafe.session i t ht).own (hsafe.post ht hresult)
  · exact hs.apart j k u v hjk (hother hu).2 (hother hv).2

omit [DecidableEq κ] in
/-- The condition that a step puts on the statement it ends. -/
theorem meets_next {l : Label γ κ} (hl : StepMeets S B M N s l) (hi : l = .next i skip)
    (ht : s.session i = some t) :
    ∀ started, t.started = some started → M t.call t.trace started (t.view S s.committed) := by
  intro started hstarted
  subst hi
  simpa only [StepMeets, ht, hstarted] using hl

/-- **One step keeps everything sound.** -/
theorem Sound.step (hs : p.Sound s) (hsafe : d.Safe s) {l : Label γ κ}
    (hl : StepMeets S B M N s l) (hadmits : p.Admits s l) : p.Sound (s.step S body l) := by
  cases l with
  | begin call => exact hs.begin hsafe hl hadmits
  | start i =>
      cases ht : s.session i with
      | none => simpa only [Sys.step, ht, Option.elim_none] using hs
      | some t =>
          simp only [Sys.step, ht, Option.elim_some]
          refine hs.put (fun t' hx => ⟨t, ht, ?_⟩)
          have hsound := hs.session i t ht
          obtain rfl := Option.some.inj hx
          rcases Session.start_cases (S := S) s.committed t with he | ⟨-, he⟩
          · rw [he]
            exact ⟨rfl, hsound⟩
          · rw [he]
            exact ⟨rfl, hsound.relies, hsound.unfailing⟩
  | next i skip =>
      cases ht : s.session i with
      | none => simpa only [Sys.step, ht, Option.elim_none] using hs
      | some t =>
          simp only [Sys.step, ht, Option.elim_some]
          refine hs.put (fun t' hx => ⟨t, ht, ?_⟩)
          exact (hs.session i t ht).next (hsafe.session i t ht) hsafe.committed
            (meets_next hl rfl ht) hx
  -- The one step that changes what the others find.
  | commit i =>
      cases ht : s.session i with
      | none => simpa only [Sys.step, ht, Option.elim_none] using hs
      | some t =>
          simp only [Sys.step, ht, Option.elim_some]
          split
          · rename_i a hrest
            exact hs.commit hsafe ht (by rw [Session.result, hrest])
          · exact hs
  | abort i => exact hs.put (fun t' hx => by cases hx)

/-- A step that meets the conditions fails no session. -/
theorem not_failed (hs : p.Sound s) (hsafe : d.Safe s) {l : Label γ κ} (hl : StepMeets S B M N s l)
    {r : Record D ε α γ} (hr : s.ended S l = some r) (e : ε) : r.ending ≠ .failed e := by
  intro he
  obtain ⟨t, ht, hraised | ⟨skip, hnext, hrefusal⟩⟩ := Sys.ended_failed hr he
  · have hunfailing := (hs.session _ t ht).unfailing
    rw [hraised] at hunfailing
    exact hunfailing
  · rw [(hs.session _ t ht).refusal (hsafe.session _ t ht) hsafe.committed
      (meets_next hl hnext ht)] at hrefusal
    cases hrefusal

/-- **The rule.** Every interleaving whose steps meet the conditions stays sound. -/
theorem sound (p : Progress d) (hS : S.Lawful)
    (hinit : ∀ s, init s → d.I s.committed ∧ s.sessions = [])
    (h : Lts.ReachVia init (fun s l s' => s.step S body l = s')
      (fun s l => StepMeets S B M N s l ∧ p.Admits s l) s) : d.Safe s ∧ p.Sound s := by
  induction h with
  | @start s hi =>
      have hnone : ∀ i, s.session i = none := by
        intro i
        rw [Sys.session, (hinit _ hi).2]
        rfl
      refine ⟨d.safe hS hinit (.start hi : Lts.ReachVia init _ _ s), fun i t ht => ?_,
        fun i j t u _ ht => ?_⟩
      · rw [hnone] at ht
        cases ht
      · rw [hnone] at ht
        cases ht
  | @next s s' l _ hl hstep ih =>
      obtain ⟨hsafe, hsound⟩ := ih
      rw [← hstep]
      exact ⟨d.safe_step hS hsafe hl.1, hsound.step hsafe hl.1 hl.2⟩

/-- No session fails in such an interleaving. -/
theorem unfailing (p : Progress d) (hS : S.Lawful)
    (hinit : ∀ s, init s → d.I s.committed ∧ s.sessions = []) {s : Logged D ε α γ}
    (h : Recorded S body init (fun s l => StepMeets S B M N s l ∧ p.Admits s l) s) :
    ∀ r ∈ s.log, ∀ e, r.ending ≠ .failed e := by
  induction h with
  | start hi =>
      intro r hr
      rw [hi.2] at hr
      cases hr
  | @next s s' l hreach hl hstep ih =>
      obtain ⟨hsafe, hsound⟩ := p.sound hS hinit (Recorded.reach hreach)
      intro r hr e
      rw [← hstep] at hr
      rcases List.mem_append.mp hr with hr | hr
      · exact ih r hr e
      · exact not_failed hsound hsafe hl.1 (Option.mem_toList.mp hr) e

end Progress

end Rules

/-! ## A store that refuses more -/

section Refusing

variable {D ε κ α γ : Type} [DecidableEq κ] {S : Store D ε κ} {bad : D → Option ε}
  {body : γ → Prog D ε α}

variable (S bad) in
/-- What is not refused can be laid over each other and cut down. -/
structure Store.Spares : Prop where
  empty : bad S.empty = none
  overlay : ∀ d e, bad d = none → bad e = none → bad (S.overlay d e) = none
  keep : ∀ p d, bad d = none → bad (S.keep p d) = none

variable (bad) in
/-- A write that turns what is not refused into what is not. -/
abbrev Harmless (v d : D) : Prop := bad v = none → bad d = none

variable (bad) in
/-- A session that writes nothing refused, and goes on to. -/
structure Session.Spared (t : Session D ε α γ) : Prop where
  own : bad t.own = none
  rest : t.rest.Writes (Harmless bad)
  started : ∀ v, t.started = some v → bad v = none

variable (bad) in
/-- Nothing refused is committed, or will be. -/
structure Sys.Spared (s : Sys D ε α γ) : Prop where
  committed : bad s.committed = none
  session : ∀ i t, s.session i = some t → t.Spared bad

variable {s : Sys D ε α γ} {t t' : Session D ε α γ} {db : D}

variable (S) in
omit [DecidableEq κ] in
theorem Store.refusing_validate {kind : Kind} {v d : D} (h : bad d = none) :
    (S.refusing bad).validate kind v d = S.validate kind v d := by
  show (bad d).or _ = _
  rw [h, Option.none_or]

/-- The rows of a harmless statement. -/
theorem Store.Spares.written (hS : S.Spares bad) {stmt : D → D}
    (hstmt : ∀ v, Harmless bad v (stmt v)) (kind : Kind) {started view : D} (free : κ → Bool)
    (hview : bad view = none) : bad (Txn.written S kind stmt started view free) = none := by
  cases kind with
  | update => exact hS.keep _ _ (hstmt _ hview)
  | skipLocked => exact hstmt _ (hS.keep _ _ hview)
  | insert => exact hstmt _ hview

/-- Such a session is not refused anything more. -/
theorem Session.Spared.refusal (ht : t.Spared bad) (hS : S.Spares bad) (hdb : bad db = none)
    (held : List κ) (skip : κ → Bool) :
    t.refusal (S.refusing bad) db held skip = t.refusal S db held skip := by
  obtain ⟨call, rest, own, trace, started⟩ := t
  cases rest with
  | write kind stmt handler k =>
      cases started with
      | none => rfl
      | some v =>
          cases ht.rest with
          | write hstmt _ =>
              have hfine : bad (Txn.written (S.refusing bad) kind stmt v (view (S.refusing bad)
                  ⟨call, .write kind stmt handler k, own, trace, some v⟩ db)
                  (fun l => l ∉ held && !skip l)) = none :=
                hS.written hstmt kind _ (hS.overlay _ _ ht.own hdb)
              unfold refusal
              dsimp only
              rw [S.refusing_validate hfine]
              rfl
  | _ => rfl

/-- It goes on in the same way, and stays such a session. -/
theorem Session.Spared.next (ht : t.Spared bad) (hS : S.Spares bad) (hdb : bad db = none)
    (held : List κ) (skip : κ → Bool) :
    t.next (S.refusing bad) db held skip = t.next S db held skip ∧
      ∀ t', t.next S db held skip = some t' → t'.Spared bad := by
  have hview : bad (t.view S db) = none := hS.overlay _ _ ht.own hdb
  refine ⟨?_, fun t' ht' => ?_⟩
  · obtain ⟨call, rest, own, trace, started⟩ := t
    cases rest with
    | write kind stmt handler k =>
        cases started with
        | none => rfl
        | some v =>
            cases ht.rest with
            | write hstmt _ =>
                have hfine : bad (Txn.written (S.refusing bad) kind stmt v (view (S.refusing bad)
                    ⟨call, .write kind stmt handler k, own, trace, some v⟩ db)
                    (fun l => l ∉ held && !skip l)) = none := hS.written hstmt kind _ hview
                unfold next
                dsimp only
                rw [S.refusing_validate hfine]
                rfl
    | _ => rfl
  · have hrest := ht.rest
    rcases Session.next_cases ht' with rfl | ⟨k, hread, rfl⟩ |
      ⟨kind, stmt, handler, k, started, free, rows, hwrite, hstarted, rfl, -, -, rfl⟩
    · exact ht
    · rw [hread] at hrest
      cases hrest with
      | read h => exact ⟨ht.own, h _, fun v hv => by cases hv⟩
    · rw [hwrite] at hrest
      cases hrest with
      | write hstmt h =>
          exact ⟨hS.overlay _ _ (hS.written hstmt kind free hview) ht.own, h _,
            fun v hv => by cases hv⟩

theorem Sys.Spared.put (hs : s.Spared bad) {i : ℕ} {x : Option (Session D ε α γ)}
    (hx : ∀ t, x = some t → t.Spared bad) : (s.put i x).Spared bad := by
  refine ⟨hs.committed, fun j u hu => ?_⟩
  rcases Sys.session_put hu with ⟨-, hxu⟩ | ⟨-, hu⟩
  · exact hx u hxu
  · exact hs.session j u hu

/-- **One step.** Where the calls that begin are harmless, nothing more is refused. -/
theorem Sys.Spared.step (hs : s.Spared bad) (hS : S.Spares bad) (l : Label γ κ)
    (hbegin : ∀ call, l = .begin call → (body call).Writes (Harmless bad)) :
    s.step (S.refusing bad) body l = s.step S body l ∧
      s.ended (S.refusing bad) l = s.ended S l ∧ (s.step S body l).Spared bad := by
  cases l with
  | begin call =>
      refine ⟨rfl, rfl, hs.committed, fun i t ht => ?_⟩
      rcases Sys.session_append ht with ⟨-, hnew⟩ | ⟨-, ht⟩
      · cases hnew
        exact ⟨hS.empty, hbegin call rfl, fun v hv => by cases hv⟩
      · exact hs.session i t ht
  | start i =>
      refine ⟨rfl, rfl, ?_⟩
      cases ht : s.session i with
      | none => simpa only [Sys.step, ht, Option.elim_none] using hs
      | some t =>
          simp only [Sys.step, ht, Option.elim_some]
          refine hs.put (fun t' hx => ?_)
          have hspared := hs.session i t ht
          obtain rfl := Option.some.inj hx
          rcases Session.start_cases (S := S) s.committed t with he | ⟨-, he⟩
          · rw [he]
            exact hspared
          · rw [he]
            refine ⟨hspared.own, hspared.rest, fun v hv => ?_⟩
            obtain rfl := Option.some.inj hv
            exact hS.overlay _ _ hspared.own hs.committed
  | next i skip =>
      cases ht : s.session i with
      | none =>
          refine ⟨?_, ?_, ?_⟩
          · simp only [Sys.step, ht, Option.elim_none]
          · simp only [Sys.ended, ht, Option.bind_none]
          · simpa only [Sys.step, ht, Option.elim_none] using hs
      | some t =>
          have hspared := hs.session i t ht
          obtain ⟨hnext, hkeeps⟩ := hspared.next hS hs.committed (s.held S i) skip
          have hrefusal := hspared.refusal hS hs.committed (s.held S i) skip
          refine ⟨?_, ?_, ?_⟩
          · simp only [Sys.step, ht, Option.elim_some]
            exact congrArg (s.put i) hnext
          · simp only [Sys.ended, ht, Option.bind_some]
            exact congrArg _ hrefusal
          · simp only [Sys.step, ht, Option.elim_some]
            exact hs.put hkeeps
  | commit i =>
      refine ⟨rfl, rfl, ?_⟩
      cases ht : s.session i with
      | none => simpa only [Sys.step, ht, Option.elim_none] using hs
      | some t =>
          simp only [Sys.step, ht, Option.elim_some]
          split
          · have hput := hs.put (i := i) (x := none) (fun t hx => by cases hx)
            exact ⟨hS.overlay _ _ (hs.session i t ht).own hs.committed, hput.session⟩
          · exact hs
  | abort i => exact ⟨rfl, rfl, hs.put (fun t hx => by cases hx)⟩

/-- **A run of harmless calls** is one of the store that refuses less, with the same log. -/
theorem Recorded.of_refusing (hS : S.Spares bad) {init : Sys D ε α γ → Prop}
    {C : Sys D ε α γ → Label γ κ → Prop}
    (hinit : ∀ s, init s → bad s.committed = none ∧ s.sessions = [])
    (hbegin : ∀ s call, C s (.begin call) → (body call).Writes (Harmless bad))
    {s : Logged D ε α γ} (h : Recorded (S.refusing bad) body init C s) :
    Recorded S body init C s ∧ s.sys.Spared bad := by
  induction h with
  | @start s hi =>
      refine ⟨.start hi, (hinit _ hi.1).1, fun i t ht => ?_⟩
      rw [Sys.session, (hinit _ hi.1).2] at ht
      cases ht
  | @next s s' l _ hl hstep ih =>
      obtain ⟨hrecorded, hspared⟩ := ih
      obtain ⟨hsys, hended, hspared'⟩ := hspared.step hS l
        (fun call hcall => hbegin s.sys call (hcall ▸ hl))
      have hsame : s.step S body l = s' := by
        rw [← hstep, Logged.step, Logged.step, hsys, hended]
      refine ⟨.next hrecorded hl hsame, ?_⟩
      rw [← hsame]
      exact hspared'

end Refusing

end Txn
