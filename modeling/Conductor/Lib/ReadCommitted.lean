/-
Transactions interleaved at their statements under READ COMMITTED.

A system is one committed database and the sessions on it. A session runs a
`Prog` one statement at a time and keeps the rows it has written to itself until
it commits:

* every statement sees what is committed when it starts, with the session's own
  rows laid over it;
* an `UPDATE` chooses its rows when it starts, waits while another session holds
  one of them, and looks at the newest committed version of each row again before
  it writes it. Start and end are therefore two steps, and others may commit
  between them;
* `FOR UPDATE SKIP LOCKED` leaves out the rows that others hold. It may leave out
  more: a row can be locked by a statement that is only half done;
* an `INSERT` waits for the fate of an equal key;
* a refused statement, a deadlock or a crash ends a session without a trace.

Sessions also remember what their statements saw and wrote. Nothing they do
depends on it; it is there to speak about a run.

The second half is the proof rule. Every program is annotated once, as if it were
alone (`Outline`), with an assertion about the committed database that others
keep, an assertion about the session's own rows that the commits of others do not
disturb, and a postcondition. `Discipline.safe` is the induction over all
interleavings.
-/
import Conductor.Lib.Txn
import Conductor.Lib.Runs

set_option autoImplicit false

namespace Txn

/-- What one statement showed its session. -/
inductive Event (D : Type) where
  | saw (view : D)
  | wrote (rows : D)

/-- The view of the latest read. -/
def lastSeen {D : Type} : List (Event D) → Option D
  | [] => none
  | .saw view :: _ => some view
  | .wrote _ :: rest => lastSeen rest

/-- An open transaction. -/
structure Session (D ε α γ : Type) where
  call : γ
  /-- The statements that are left. -/
  rest : Prog D ε α
  /-- The rows written so far. -/
  own : D
  /-- What the statements so far saw and wrote, the latest first. -/
  trace : List (Event D)
  /-- The view at the start of the write statement under way. -/
  started : Option D

structure Sys (D ε α γ : Type) where
  committed : D
  sessions : List (Option (Session D ε α γ))

inductive Label (γ κ : Type) where
  | begin (call : γ)
  /-- A write statement starts. -/
  | start (i : ℕ)
  /-- A read, or the end of a write statement; `skip` are the rows that
  `SKIP LOCKED` passes over besides those that others hold. -/
  | next (i : ℕ) (skip : κ → Bool)
  | commit (i : ℕ)
  | abort (i : ℕ)

/-- A read of session `i`, or the end of its write statement. -/
def proceed {γ κ : Type} (i : ℕ) : Label γ κ := .next i (fun _ => false)

/-- A write statement of session `i` with nobody in between. -/
def writeAt {γ κ : Type} (i : ℕ) : List (Label γ κ) := [.start i, proceed i]

section Semantics

variable {D ε κ α γ : Type} [DecidableEq κ] (S : Store D ε κ)

/-- The rows a write statement writes: it started on the view `started`, ends on
`view`, and `free` are the rows it can lock at once. -/
def written (kind : Kind) (stmt : D → D) (started view : D) (free : κ → Bool) : D :=
  match kind with
  | .update => S.keep (fun l => l ∈ S.locks (stmt started)) (stmt view)
  | .skipLocked => stmt (S.keep free view)
  | .insert => stmt view

/-- The view of a session. -/
def Session.view (t : Session D ε α γ) (db : D) : D := S.overlay t.own db

/-- What a session that has come to its end returns. -/
def Session.result (t : Session D ε α γ) : Option α :=
  match t.rest with
  | .ret a => some a
  | _ => none

/-- The session when its next statement has started. -/
def Session.start (db : D) (t : Session D ε α γ) : Session D ε α γ :=
  match t.rest, t.started with
  | .write .., none => { t with started := some (t.view S db) }
  | _, _ => t

/-- The session after its next statement: as it was if the statement has to wait
for rows in `held`, gone if the statement is refused. -/
def Session.next (db : D) (held : List κ) (skip : κ → Bool) (t : Session D ε α γ) :
    Option (Session D ε α γ) :=
  match t.rest, t.started with
  | .read k, _ => some
      { t with
        rest := k (t.view S db)
        trace := .saw (t.view S db) :: t.trace
        started := none }
  | .write kind stmt _ k, some started =>
      let rows := written S kind stmt started (t.view S db) (fun l => l ∉ held && !skip l)
      if (S.locks rows).any (fun l => l ∈ held) then some t
      else
        match S.validate kind (t.view S db) rows with
        | some _ => none
        | none => some
            { t with
              rest := k rows
              own := S.overlay rows t.own
              trace := .wrote rows :: t.trace
              started := none }
  | _, _ => some t

namespace Sys

variable (s : Sys D ε α γ)

def session (i : ℕ) : Option (Session D ε α γ) := (s.sessions[i]?).join

def put (i : ℕ) (t : Option (Session D ε α γ)) : Sys D ε α γ :=
  { s with sessions := s.sessions.set i t }

/-- The rows that sessions other than `i` hold. -/
def held (i : ℕ) : List κ :=
  (List.range s.sessions.length).flatMap (fun j =>
    if j = i then [] else (s.session j).elim [] (fun t => S.locks t.own))

/-- No transaction is open. -/
def Quiet : Prop := ∀ t ∈ s.sessions, t.isNone = true

instance : Decidable s.Quiet := by unfold Quiet; infer_instance

/-- One step of the system. A label whose session cannot take it changes nothing. -/
def step (body : γ → Prog D ε α) (s : Sys D ε α γ) : Label γ κ → Sys D ε α γ
  | .begin call => { s with sessions := s.sessions ++ [some ⟨call, body call, S.empty, [], none⟩] }
  | .start i => (s.session i).elim s (fun t => s.put i (some (t.start S s.committed)))
  | .next i skip =>
      (s.session i).elim s (fun t => s.put i (t.next S s.committed (s.held S i) skip))
  | .commit i => (s.session i).elim s (fun t =>
      match t.rest with
      | .ret _ => { (s.put i none) with committed := t.view S s.committed }
      | _ => s)
  | .abort i => s.put i none

end Sys

end Semantics

/-! ## Sessions -/

section Sessions

variable {D ε κ α γ : Type} [DecidableEq κ] {S : Store D ε κ} {s : Sys D ε α γ}
  {t u : Session D ε α γ} {i j : ℕ}

omit [DecidableEq κ] in
/-- A session after a session was replaced: the new one, or an old one elsewhere. -/
theorem Sys.session_put {x : Option (Session D ε α γ)} (h : (s.put i x).session j = some u) :
    (i = j ∧ x = some u) ∨ (i ≠ j ∧ s.session j = some u) := by
  unfold session put at h
  rw [List.getElem?_set] at h
  by_cases hij : i = j
  · refine Or.inl ⟨hij, ?_⟩
    rw [if_pos hij] at h
    split at h
    · exact h
    · cases h
  · rw [if_neg hij] at h
    exact Or.inr ⟨hij, h⟩

omit [DecidableEq κ] in
theorem Sys.session_append {x : Option (Session D ε α γ)}
    (h : Sys.session { s with sessions := s.sessions ++ [x] } j = some u) :
    (j = s.sessions.length ∧ x = some u) ∨ (j ≠ s.sessions.length ∧ s.session j = some u) := by
  unfold session at h
  by_cases hlt : j < s.sessions.length
  · rw [List.getElem?_append_left hlt] at h
    exact Or.inr ⟨by omega, h⟩
  · rw [List.getElem?_append_right (by omega)] at h
    by_cases hj : j - s.sessions.length = 0
    · rw [hj] at h
      exact Or.inl ⟨by omega, h⟩
    · rw [List.getElem?_eq_none (by simp; omega)] at h
      cases h

omit [DecidableEq κ] in
theorem Sys.mem_held {l : κ} (hj : s.session j = some u) (hij : j ≠ i) (hl : l ∈ S.locks u.own) :
    l ∈ s.held S i := by
  have hlt : j < s.sessions.length := by
    by_contra hge
    rw [session, List.getElem?_eq_none (by omega)] at hj
    cases hj
  refine List.mem_flatMap.mpr ⟨j, List.mem_range.mpr hlt, ?_⟩
  rw [if_neg hij, hj]
  exact hl

omit [DecidableEq κ] in
/-- Starting a statement is the only thing `start` does. -/
theorem Session.start_cases (db : D) (t : Session D ε α γ) :
    t.start S db = t ∨
      (t.started = none ∧ t.start S db = { t with started := some (t.view S db) }) := by
  unfold start
  split
  · rename_i hstarted
    exact Or.inr ⟨hstarted, rfl⟩
  · exact Or.inl rfl

/-- What one statement does to its session. -/
theorem Session.next_cases {db : D} {held : List κ} {skip : κ → Bool} {t' : Session D ε α γ}
    (h : t.next S db held skip = some t') :
    t' = t ∨
    (∃ k, t.rest = .read k ∧
      t' = { t with
        rest := k (t.view S db)
        trace := .saw (t.view S db) :: t.trace
        started := none }) ∨
    ∃ kind stmt handler k started free rows, t.rest = .write kind stmt handler k ∧
      t.started = some started ∧ rows = written S kind stmt started (t.view S db) free ∧
      (∀ l ∈ S.locks rows, l ∉ held) ∧ S.validate kind (t.view S db) rows = none ∧
      t' = { t with
        rest := k rows
        own := S.overlay rows t.own
        trace := .wrote rows :: t.trace
        started := none } := by
  unfold next at h
  split at h
  · rename_i k hrest
    exact Or.inr (Or.inl ⟨k, hrest, (Option.some.inj h).symm⟩)
  · rename_i kind stmt handler k started hrest hstarted
    dsimp only at h
    split at h
    · exact Or.inl (Option.some.inj h).symm
    · rename_i hfree
      split at h
      · cases h
      · rename_i hvalid
        refine Or.inr (Or.inr ⟨kind, stmt, handler, k, started, _, _, hrest, hstarted, rfl, ?_,
          hvalid, (Option.some.inj h).symm⟩)
        intro l hl hheld
        exact hfree (List.any_eq_true.mpr ⟨l, hl, decide_eq_true hheld⟩)
  · exact Or.inl (Option.some.inj h).symm

/-- One step leaves the database as it is, or commits a session that has come to its end. -/
theorem Sys.step_commits (S : Store D ε κ) (body : γ → Prog D ε α) (s : Sys D ε α γ)
    (l : Label γ κ) :
    (s.step S body l).committed = s.committed ∨
      ∃ i t a, l = .commit i ∧ s.session i = some t ∧ t.rest = .ret a ∧
        (s.step S body l).committed = S.overlay t.own s.committed := by
  cases l with
  | commit i =>
      cases ht : s.session i with
      | none => exact Or.inl (by simp only [step, ht, Option.elim_none])
      | some t =>
          simp only [step, ht, Option.elim_some]
          split
          · rename_i a hrest
            exact Or.inr ⟨i, t, a, rfl, ht, hrest, rfl⟩
          · exact Or.inl rfl
  | begin call => exact Or.inl rfl
  | start i => cases hi : s.session i <;> exact Or.inl (by simp only [step, hi]; rfl)
  | next i skip => cases hi : s.session i <;> exact Or.inl (by simp only [step, hi]; rfl)
  | abort i => exact Or.inl rfl

end Sessions

/-! ## Proving something of all interleavings -/

/-- What locks have to do with overlays. -/
structure Store.Lawful {D ε κ : Type} (S : Store D ε κ) : Prop where
  locks_empty : S.locks S.empty = []
  locks_overlay : ∀ d e l, l ∈ S.locks (S.overlay d e) → l ∈ S.locks d ∨ l ∈ S.locks e

section Rule

variable {D ε κ α γ : Type} [DecidableEq κ] (S : Store D ε κ)

/-- An annotated program.

`I` is what holds of the committed database between the steps of anybody, `J` what
holds of it and the rows and trace of this session, `M` what may be assumed of a
write statement by its trace and the views it starts and ends on, `Q` the
postcondition. The program is followed statement by statement, each on a database
that others may have changed in the meantime. -/
def Outline (I : D → Prop) (J : D → D → List (Event D) → Prop)
    (M : List (Event D) → D → D → Prop) (Q : α → D → List (Event D) → Prop) :
    Prog D ε α → D → List (Event D) → Prop
  | .ret a, own, trace => Q a own trace
  | .raise _, _, _ => True
  | .read k, own, trace => ∀ db, I db → J db own trace →
      J db own (.saw (S.overlay own db) :: trace) ∧
        Outline I J M Q (k (S.overlay own db)) own (.saw (S.overlay own db) :: trace)
  | .write kind stmt _ k, own, trace => ∀ db₀ db free rows,
      I db₀ → J db₀ own trace → I db → J db own trace →
      M trace (S.overlay own db₀) (S.overlay own db) →
      rows = written S kind stmt (S.overlay own db₀) (S.overlay own db) free →
      S.validate kind (S.overlay own db) rows = none →
      J db (S.overlay rows own) (.wrote rows :: trace) ∧
        Outline I J M Q (k rows) (S.overlay rows own) (.wrote rows :: trace)

/-- A weaker postcondition. -/
theorem Outline.mono {I : D → Prop} {J : D → D → List (Event D) → Prop}
    {M : List (Event D) → D → D → Prop} {Q Q' : α → D → List (Event D) → Prop} {p : Prog D ε α}
    {own : D} {trace : List (Event D)} (hp : Outline S I J M Q p own trace)
    (hQ : ∀ a own trace, Q a own trace → Q' a own trace) : Outline S I J M Q' p own trace := by
  induction p generalizing own trace with
  | ret a => exact hQ a own trace hp
  | raise e => trivial
  | read k ih =>
      intro db hI hJ
      obtain ⟨hJ', hrest⟩ := hp db hI hJ
      exact ⟨hJ', ih _ hrest⟩
  | write kind stmt handler k ih =>
      intro db₀ db free rows hI₀ hJ₀ hI hJ hM hrows hvalid
      obtain ⟨hJ', hrest⟩ := hp db₀ db free rows hI₀ hJ₀ hI hJ hM hrows hvalid
      exact ⟨hJ', ih _ hrest⟩

/-- Programs in sequence. -/
theorem Outline.bind {β : Type} {I : D → Prop} {J : D → D → List (Event D) → Prop}
    {M : List (Event D) → D → D → Prop} {Q : α → D → List (Event D) → Prop}
    {Q' : β → D → List (Event D) → Prop} {p : Prog D ε α} {f : α → Prog D ε β} {own : D}
    {trace : List (Event D)} (hp : Outline S I J M Q p own trace)
    (hf : ∀ a own trace, Q a own trace → Outline S I J M Q' (f a) own trace) :
    Outline S I J M Q' (p >>= f) own trace := by
  induction p generalizing own trace with
  | ret a => exact hf a own trace hp
  | raise e => trivial
  | read k ih =>
      intro db hI hJ
      obtain ⟨hJ', hrest⟩ := hp db hI hJ
      exact ⟨hJ', ih _ hrest⟩
  | write kind stmt handler k ih =>
      intro db₀ db free rows hI₀ hJ₀ hI hJ hM hrows hvalid
      obtain ⟨hJ', hrest⟩ := hp db₀ db free rows hI₀ hJ₀ hI hJ hM hrows hvalid
      exact ⟨hJ', ih _ hrest⟩

/-- A computation that may raise. -/
theorem Outline.lift {I : D → Prop} {J : D → D → List (Event D) → Prop}
    {M : List (Event D) → D → D → Prop} {Q : α → D → List (Event D) → Prop} {x : Except ε α}
    {own : D} {trace : List (Event D)} (h : ∀ a, x = .ok a → Q a own trace) :
    Outline S I J M Q (Prog.lift x) own trace := by
  cases x with
  | ok a => exact h a rfl
  | error e => trivial

/-- The conditions on a step: of the database a call begins on, of the views a write
statement starts and ends on, of the database a session commits to. -/
def StepMeets (B : D → γ → Prop) (M : γ → List (Event D) → D → D → Prop)
    (N : γ → D → D → List (Event D) → Prop) (s : Sys D ε α γ) : Label γ κ → Prop
  | .begin call => B s.committed call
  | .next i _ =>
      match s.session i with
      | none => True
      | some t =>
          match t.started with
          | none => True
          | some started => M t.call t.trace started (t.view S s.committed)
  | .commit i =>
      match s.session i with
      | none => True
      | some t =>
          match t.rest with
          | .ret _ => N t.call s.committed t.own t.trace
          | _ => True
  | _ => True

instance (B : D → γ → Prop) (M : γ → List (Event D) → D → D → Prop)
    (N : γ → D → D → List (Event D) → Prop) [∀ db call, Decidable (B db call)]
    [∀ call trace v v', Decidable (M call trace v v')]
    [∀ call db own trace, Decidable (N call db own trace)] (s : Sys D ε α γ) (l : Label γ κ) :
    Decidable (StepMeets S B M N s l) := by
  unfold StepMeets
  repeat' split
  all_goals infer_instance

omit [DecidableEq κ] in
/-- A step without conditions. -/
theorem stepMeets_any (s : Sys D ε α γ) (l : Label γ κ) :
    StepMeets S (fun _ _ => True) (fun _ _ _ _ => True) (fun _ _ _ _ => True) s l := by
  unfold StepMeets
  repeat' split
  all_goals trivial

/-- The obligations of a proof about all interleavings. -/
structure Discipline (body : γ → Prog D ε α) (B : D → γ → Prop)
    (M : γ → List (Event D) → D → D → Prop) (N : γ → D → D → List (Event D) → Prop) where
  I : D → Prop
  J : D → D → List (Event D) → Prop
  Q : γ → α → D → List (Event D) → Prop
  begins : ∀ db call, I db → B db call → J db S.empty [] ∧
    Outline S I J (M call) (Q call) (body call) S.empty []
  commits : ∀ db call a own trace, I db → J db own trace → Q call a own trace →
    N call db own trace → I (S.overlay own db)
  /-- The commit of another session, whose rows are others, is not felt. -/
  stable : ∀ db own trace own' trace', I db → J db own trace → J db own' trace' →
    (∀ l ∈ S.locks own, l ∉ S.locks own') → J (S.overlay own' db) own trace

variable {S} {body : γ → Prog D ε α} {B : D → γ → Prop} {M : γ → List (Event D) → D → D → Prop}
  {N : γ → D → D → List (Event D) → Prop}

/-- What holds of one session. -/
structure Discipline.SafeSession (d : Discipline S body B M N) (db : D)
    (t : Session D ε α γ) : Prop where
  own : d.J db t.own t.trace
  outline : Outline S d.I d.J (M t.call) (d.Q t.call) t.rest t.own t.trace
  /-- The statement under way started on such a database too. -/
  started : ∀ v, t.started = some v →
    ∃ db₀, d.I db₀ ∧ d.J db₀ t.own t.trace ∧ v = S.overlay t.own db₀

structure Discipline.Safe (d : Discipline S body B M N) (s : Sys D ε α γ) : Prop where
  committed : d.I s.committed
  session : ∀ i t, s.session i = some t → d.SafeSession s.committed t
  /-- No row is held twice. -/
  disjoint : ∀ i j t u, i ≠ j → s.session i = some t → s.session j = some u →
    ∀ l ∈ S.locks t.own, l ∉ S.locks u.own

namespace Discipline

variable (d : Discipline S body B M N) {s : Sys D ε α γ} {t : Session D ε α γ} {i : ℕ}

/-- One statement keeps its session safe, and takes no row that another holds. -/
theorem safe_next (hS : S.Lawful) {db : D} {held : List κ} {skip : κ → Bool}
    (hI : d.I db) (ht : d.SafeSession db t)
    (hM : ∀ started, t.started = some started → M t.call t.trace started (t.view S db))
    {t' : Session D ε α γ} (h : t.next S db held skip = some t') :
    d.SafeSession db t' ∧ ∀ l ∈ S.locks t'.own, l ∈ S.locks t.own ∨ l ∉ held := by
  rcases Session.next_cases h with rfl | ⟨k, hrest, rfl⟩ |
    ⟨kind, stmt, handler, k, started, free, rows, hrest, hstarted, hrows, hfree, hvalid, rfl⟩
  · exact ⟨ht, fun l hl => Or.inl hl⟩
  · -- A read: only the trace grows.
    have houtline := ht.outline
    rw [hrest] at houtline
    obtain ⟨hJ, hrest'⟩ := houtline db hI ht.own
    exact ⟨⟨hJ, hrest', by simp⟩, fun l hl => Or.inl hl⟩
  · have houtline := ht.outline
    rw [hrest] at houtline
    obtain ⟨db₀, hI₀, hJ₀, rfl⟩ := ht.started started hstarted
    obtain ⟨hJ, hrest'⟩ := houtline db₀ db free rows hI₀ hJ₀ hI ht.own (hM _ hstarted) hrows hvalid
    refine ⟨⟨hJ, hrest', by simp⟩, fun l hl => ?_⟩
    rcases hS.locks_overlay rows t.own l hl with hl | hl
    · exact Or.inr (hfree l hl)
    · exact Or.inl hl

/-- Replacing one session by a safe one, which took no row that another holds. -/
theorem safe_put (hs : d.Safe s) {x : Option (Session D ε α γ)}
    (hx : ∀ t', x = some t' → d.SafeSession s.committed t' ∧ ∃ t, s.session i = some t ∧
      ∀ l ∈ S.locks t'.own, l ∈ S.locks t.own ∨ l ∉ s.held S i) : d.Safe (s.put i x) := by
  have hsession : ∀ j u, (s.put i x).session j = some u → d.SafeSession s.committed u := by
    intro j u hu
    rcases Sys.session_put hu with ⟨-, rfl⟩ | ⟨-, hu⟩
    · exact (hx u rfl).1
    · exact hs.session j u hu
  have hlocks : ∀ j u t', i ≠ j → s.session j = some u → x = some t' →
      ∀ l ∈ S.locks t'.own, l ∉ S.locks u.own := by
    intro j u t' hij hu hxt l hl hlu
    obtain ⟨-, t, ht, htake⟩ := hx t' hxt
    rcases htake l hl with hl | hl
    · exact hs.disjoint i j t u hij ht hu l hl hlu
    · exact hl (Sys.mem_held hu hij.symm hlu)
  refine ⟨hs.committed, hsession, fun j k u v hjk hu hv l hl => ?_⟩
  rcases Sys.session_put hu with ⟨rfl, hxu⟩ | ⟨hij, hu⟩
  · rcases Sys.session_put hv with ⟨rfl, -⟩ | ⟨hik, hv⟩
    · exact absurd rfl hjk
    · exact hlocks k v u hik hv hxu l hl
  · rcases Sys.session_put hv with ⟨rfl, hxv⟩ | ⟨-, hv⟩
    · exact fun hlv => hlocks j u v hij hu hxv l hlv hl
    · exact hs.disjoint j k u v hjk hu hv l hl

/-- A new session holds nothing. -/
theorem safe_begin (hS : S.Lawful) (hs : d.Safe s) {call : γ} (hB : B s.committed call) :
    d.Safe (s.step S body (.begin call)) := by
  obtain ⟨hJ, houtline⟩ := d.begins s.committed call hs.committed hB
  refine ⟨hs.committed, fun j u hu => ?_, fun j k u v hjk hu hv l hl hlv => ?_⟩
  · rcases Sys.session_append hu with ⟨-, hnew⟩ | ⟨-, hu⟩
    · cases hnew
      exact ⟨hJ, houtline, by simp⟩
    · exact hs.session j u hu
  · rcases Sys.session_append hu with ⟨-, hnew⟩ | ⟨-, hu⟩
    · cases hnew
      rw [hS.locks_empty] at hl
      cases hl
    · rcases Sys.session_append hv with ⟨-, hnew⟩ | ⟨-, hv⟩
      · cases hnew
        rw [hS.locks_empty] at hlv
        cases hlv
      · exact hs.disjoint j k u v hjk hu hv l hl hlv

/-- A commit publishes the rows of one session, and the others do not feel it. -/
theorem safe_commit (hs : d.Safe s) (ht : s.session i = some t) {a : α} (hrest : t.rest = .ret a)
    (hN : N t.call s.committed t.own t.trace) :
    d.Safe { (s.put i none) with committed := t.view S s.committed } := by
  have hsafe := hs.session i t ht
  have hQ : d.Q t.call a t.own t.trace := by
    have houtline := hsafe.outline
    rw [hrest] at houtline
    exact houtline
  -- Only the other sessions are left, where they were.
  have hother : ∀ {j u}, Sys.session { (s.put i none) with committed := t.view S s.committed } j
      = some u → i ≠ j ∧ s.session j = some u := by
    intro j u hu
    rcases Sys.session_put (x := none) hu with ⟨-, hnone⟩ | hu
    · cases hnone
    · exact hu
  refine ⟨d.commits _ _ _ _ _ hs.committed hsafe.own hQ hN, fun j u hu => ?_,
    fun j k u v hjk hu hv => ?_⟩
  · obtain ⟨hij, hu⟩ := hother hu
    have hsafe' := hs.session j u hu
    refine ⟨?_, hsafe'.outline, hsafe'.started⟩
    exact d.stable _ _ _ _ _ hs.committed hsafe'.own hsafe.own
      (hs.disjoint j i u t hij.symm hu ht)
  · exact hs.disjoint j k u v hjk (hother hu).2 (hother hv).2

/-- **One step keeps everything safe.** -/
theorem safe_step (hS : S.Lawful) (hs : d.Safe s) {l : Label γ κ} (hl : StepMeets S B M N s l) :
    d.Safe (s.step S body l) := by
  cases l with
  | begin call => exact d.safe_begin hS hs hl
  | start i =>
      cases ht : s.session i with
      | none => simpa only [Sys.step, ht, Option.elim_none] using hs
      | some t =>
          simp only [Sys.step, ht, Option.elim_some]
          refine d.safe_put hs (fun t' hx => ?_)
          have hsafe := hs.session i t ht
          obtain rfl := Option.some.inj hx
          rcases Session.start_cases (S := S) s.committed t with he | ⟨-, he⟩
          · rw [he]
            exact ⟨hsafe, t, ht, fun l hl => Or.inl hl⟩
          · rw [he]
            refine ⟨⟨hsafe.own, hsafe.outline, fun v hv => ?_⟩, t, ht, fun l hl => Or.inl hl⟩
            exact ⟨s.committed, hs.committed, hsafe.own, (Option.some.inj hv).symm⟩
  | next i skip =>
      cases ht : s.session i with
      | none => simpa only [Sys.step, ht, Option.elim_none] using hs
      | some t =>
          simp only [Sys.step, ht, Option.elim_some]
          refine d.safe_put hs (fun t' hx => ?_)
          have hM : ∀ v, t.started = some v → M t.call t.trace v (t.view S s.committed) := by
            intro v hv
            simpa only [StepMeets, ht, hv] using hl
          obtain ⟨hsafe, htake⟩ := d.safe_next hS hs.committed (hs.session i t ht) hM hx
          exact ⟨hsafe, t, ht, htake⟩
  | commit i =>
      cases ht : s.session i with
      | none => simpa only [Sys.step, ht, Option.elim_none] using hs
      | some t =>
          simp only [Sys.step, ht, Option.elim_some]
          split
          · rename_i a hrest
            have hN : N t.call s.committed t.own t.trace := by
              simpa only [StepMeets, ht, hrest] using hl
            exact d.safe_commit hs ht hrest hN
          · exact hs
  | abort i => exact d.safe_put hs (fun t' hx => by cases hx)

/-- **The rule.** What a discipline says holds in every state of every interleaving
whose steps meet its conditions. -/
theorem safe (hS : S.Lawful) {init : Sys D ε α γ → Prop}
    (hinit : ∀ s, init s → d.I s.committed ∧ s.sessions = [])
    (h : Lts.ReachVia init (fun s l s' => s.step S body l = s') (StepMeets S B M N) s) : d.Safe s := by
  refine Lts.ReachVia.invariant (fun s hs => ?_) (fun s l s' _ hs hl hstep => ?_) h
  · obtain ⟨hI, hnone⟩ := hinit s hs
    have hempty : ∀ i, s.session i = none := fun i => by rw [Sys.session, hnone]; rfl
    refine ⟨hI, fun i t ht => ?_, fun i j t u _ ht => ?_⟩
    · rw [hempty] at ht
      cases ht
    · rw [hempty] at ht
      cases ht
  · rw [← hstep]
    exact d.safe_step hS hs hl

/-- A session that has come to its end meets its postcondition. -/
theorem Safe.post {d : Discipline S body B M N} (hs : d.Safe s) (ht : s.session i = some t) {a : α}
    (hresult : t.result = some a) : d.Q t.call a t.own t.trace := by
  have houtline := (hs.session i t ht).outline
  unfold Session.result at hresult
  split at hresult
  · rename_i hrest
    obtain rfl := Option.some.inj hresult
    rw [hrest] at houtline
    exact houtline
  · cases hresult

end Discipline

end Rule

end Txn
