/-
Runs of a labelled transition system.

`ReachVia init step C s` says that a run leads to `s` all of whose steps meet the
condition `C`; plain reachability is the case where `C` asks nothing. `invariant`
is the induction over runs: what every permitted step keeps, every run keeps.

A system given by a function has a run for every list of labels; `Meets` decides
whether all of its steps meet the condition.
-/
import Mathlib.Tactic.Basic

set_option autoImplicit false

namespace Lts

variable {σ ℓ : Type}

/-- States reached from `init` by steps that all meet `C`. -/
inductive ReachVia (init : σ → Prop) (step : σ → ℓ → σ → Prop) (C : σ → ℓ → Prop) : σ → Prop where
  | start {s : σ} : init s → ReachVia init step C s
  | next {s s' : σ} {l : ℓ} : ReachVia init step C s → C s l → step s l s' →
      ReachVia init step C s'

/-- States reached by any steps at all. -/
def Reach (init : σ → Prop) (step : σ → ℓ → σ → Prop) : σ → Prop :=
  ReachVia init step (fun _ _ => True)

variable {init : σ → Prop} {step : σ → ℓ → σ → Prop} {C C' : σ → ℓ → Prop}

theorem ReachVia.mono (h : ∀ s l, C s l → C' s l) {s : σ} (hs : ReachVia init step C s) :
    ReachVia init step C' s := by
  induction hs with
  | start hi => exact .start hi
  | next _ hc hst ih => exact .next ih (h _ _ hc) hst

theorem ReachVia.reach {s : σ} (hs : ReachVia init step C s) : Reach init step s :=
  hs.mono (fun _ _ _ => trivial)

theorem Reach.next {s s' : σ} {l : ℓ} (hs : Reach init step s) (h : step s l s') :
    Reach init step s' :=
  ReachVia.next hs trivial h

/-- A run has a first state. -/
theorem ReachVia.exists_start {s : σ} (hs : ReachVia init step C s) :
    ∃ s₀, init s₀ ∧ ReachVia (· = s₀) step C s := by
  induction hs with
  | start hi => exact ⟨_, hi, .start rfl⟩
  | next _ hc hst ih =>
      obtain ⟨s₀, hi, hreach⟩ := ih
      exact ⟨s₀, hi, .next hreach hc hst⟩

/-- What holds initially and is kept by every step that meets `C` holds in every
state of a run whose steps all meet `C`. The step may use that its source state
is reachable. -/
theorem ReachVia.invariant {P : σ → Prop} (hinit : ∀ s, init s → P s)
    (hstep : ∀ s l s', Reach init step s → P s → C s l → step s l s' → P s')
    {s : σ} (hs : ReachVia init step C s) : P s := by
  induction hs with
  | start hi => exact hinit _ hi
  | next hr hc hst ih => exact hstep _ _ _ hr.reach ih hc hst

/-- The same for plain reachability. -/
theorem Reach.invariant {P : σ → Prop} (hinit : ∀ s, init s → P s)
    (hstep : ∀ s l s', Reach init step s → P s → step s l s' → P s')
    {s : σ} (hs : Reach init step s) : P s :=
  ReachVia.invariant hinit (fun s l s' hr hp _ hst => hstep s l s' hr hp hst) hs

/-! ## Runs of a function -/

section Function

variable {f : σ → ℓ → σ}

/-- Every label of a list meets the condition when its turn comes. -/
def Meets (f : σ → ℓ → σ) (C : σ → ℓ → Prop) : σ → List ℓ → Prop
  | _, [] => True
  | s, l :: ls => C s l ∧ Meets f C (f s l) ls

instance Meets.decidable (f : σ → ℓ → σ) (C : σ → ℓ → Prop) [∀ s l, Decidable (C s l)] :
    ∀ s ls, Decidable (Meets f C s ls)
  | _, [] => isTrue trivial
  | s, l :: ls =>
      have := Meets.decidable f C (f s l) ls
      inferInstanceAs (Decidable (C s l ∧ Meets f C (f s l) ls))

/-- Asking nothing is always met. -/
theorem meets_true (f : σ → ℓ → σ) (s : σ) (ls : List ℓ) : Meets f (fun _ _ => True) s ls := by
  induction ls generalizing s with
  | nil => trivial
  | cons l ls ih => exact ⟨trivial, ih (f s l)⟩

theorem Meets.mono {s : σ} {ls : List ℓ} (h : ∀ l ∈ ls, ∀ s, C s l → C' s l)
    (hmeets : Meets f C s ls) : Meets f C' s ls := by
  induction ls generalizing s with
  | nil => trivial
  | cons l ls ih =>
      exact ⟨h l List.mem_cons_self s hmeets.1,
        ih (fun l' hl' => h l' (List.mem_cons_of_mem l hl')) hmeets.2⟩

/-- Labels meet a condition in turn when each meets it in the state that the ones before
it lead to. -/
theorem meets_iff {s : σ} {ls : List ℓ} :
    Meets f C s ls ↔ ∀ n l, ls[n]? = some l → C ((ls.take n).foldl f s) l := by
  induction ls generalizing s with
  | nil => exact iff_of_true trivial (fun n l h => by cases h)
  | cons l ls ih =>
      constructor
      · rintro ⟨hl, hls⟩ n l' hn
        cases n with
        | zero =>
            cases hn
            exact hl
        | succ n => exact ih.mp hls n l' hn
      · intro h
        exact ⟨h 0 l rfl, ih.mpr (fun n l' hn => h (n + 1) l' hn)⟩

/-- Labels that all meet the condition are a run that does. -/
theorem ReachVia.foldl {s : σ} {ls : List ℓ}
    (hs : ReachVia init (fun s l s' => f s l = s') C s) (h : Meets f C s ls) :
    ReachVia init (fun s l s' => f s l = s') C (ls.foldl f s) := by
  induction ls generalizing s with
  | nil => exact hs
  | cons l ls ih => exact ih (.next hs h.1 rfl) h.2

theorem Reach.foldl {s : σ} (hs : Reach init (fun s l s' => f s l = s') s) (ls : List ℓ) :
    Reach init (fun s l s' => f s l = s') (ls.foldl f s) := by
  induction ls generalizing s with
  | nil => exact hs
  | cons l ls ih => exact ih (Reach.next hs rfl)

end Function

/-! ## Systems that reply -/

section Replies

variable {τ ρ : Type} {f : σ → ℓ → ρ × σ} {g : τ → ℓ → ρ × τ}

/-- The replies to a list of labels, and the state they lead to. -/
def replies (f : σ → ℓ → ρ × σ) : σ → List ℓ → List ρ × σ
  | s, [] => ([], s)
  | s, l :: ls =>
      let (reply, s') := f s l
      let (rest, s'') := replies f s' ls
      (reply :: rest, s'')

/-- Where a list of labels leads, the rest goes on. -/
theorem replies_append_state (f : σ → ℓ → ρ × σ) (s : σ) (ls ls' : List ℓ) :
    (replies f s (ls ++ ls')).2 = (replies f (replies f s ls).2 ls').2 := by
  induction ls generalizing s with
  | nil => rfl
  | cons l ls ih => exact ih (f s l).2

/-- Each label is answered in the state that those before it lead to. -/
theorem getElem?_replies (f : σ → ℓ → ρ × σ) (s : σ) (ls : List ℓ) (n : Nat) :
    (replies f s ls).1[n]? = ls[n]?.map (fun l => (f (replies f s (ls.take n)).2 l).1) := by
  induction ls generalizing s n with
  | nil => rfl
  | cons l ls ih =>
      cases n with
      | zero => rfl
      | succ n => exact ih (f s l).2 n

/-- A relation under which every label gets the same reply and that is kept makes
the replies of whole runs the same. -/
theorem replies_refine {R : σ → τ → Prop}
    (h : ∀ s t l, R s t → (f s l).1 = (g t l).1 ∧ R (f s l).2 (g t l).2)
    {s : σ} {t : τ} (hR : R s t) (ls : List ℓ) :
    (replies f s ls).1 = (replies g t ls).1 ∧ R (replies f s ls).2 (replies g t ls).2 := by
  induction ls generalizing s t with
  | nil => exact ⟨rfl, hR⟩
  | cons l ls ih =>
      obtain ⟨hreply, hR'⟩ := h s t l hR
      obtain ⟨hrest, hend⟩ := ih hR'
      refine ⟨?_, hend⟩
      show (f s l).1 :: (replies f (f s l).2 ls).1 = (g t l).1 :: (replies g (g t l).2 ls).1
      rw [hreply, hrest]

/-- What every reply satisfies, all replies of a run satisfy. -/
theorem forall_replies {P : ρ → Prop} (h : ∀ s l, P (f s l).1) (s : σ) (ls : List ℓ) :
    ∀ r ∈ (replies f s ls).1, P r := by
  induction ls generalizing s with
  | nil =>
      intro r hr
      cases hr
  | cons l ls ih =>
      intro r hr
      rcases List.mem_cons.mp hr with rfl | hr
      · exact h s l
      · exact ih (f s l).2 r hr

/-- The replies to the labels that `p` picks. -/
def heard (f : σ → ℓ → ρ × σ) (p : ℓ → Bool) : σ → List ℓ → List ρ
  | _, [] => []
  | s, l :: ls =>
      if p l then (f s l).1 :: heard f p (f s l).2 ls else heard f p (f s l).2 ls

/-- **Projection.** Labels that `keep` drops leave a relation to a second system alone,
labels that it keeps are answered by both and keep the relation: then who hears only
labels that are kept cannot tell a run from the run without the others. What the labels
of a run must satisfy, one after another, is followed by an index of its own. -/
theorem heard_filter {ι : Type} {next : ι → ℓ → ι} {C : ι → ℓ → Prop} {R : ι → σ → τ → Prop}
    {p keep : ℓ → Bool} (hp : ∀ l, p l = true → keep l = true)
    (hkeep : ∀ i s t l, C i l → R i s t → keep l = true →
      (p l = true → (f s l).1 = (g t l).1) ∧ R (next i l) (f s l).2 (g t l).2)
    (hdrop : ∀ i s t l, C i l → R i s t → keep l = false → R (next i l) (f s l).2 t)
    {i : ι} {s : σ} {t : τ} {ls : List ℓ} (hR : R i s t) (hmeets : Meets next C i ls) :
    heard f p s ls = heard g p t (ls.filter keep) := by
  induction ls generalizing i s t with
  | nil => rfl
  | cons l ls ih =>
      cases hl : keep l with
      | true =>
          obtain ⟨hreply, hR'⟩ := hkeep i s t l hmeets.1 hR hl
          have hrest := ih hR' hmeets.2
          rw [List.filter_cons_of_pos hl]
          unfold heard
          cases hpl : p l with
          | true => rw [if_pos rfl, if_pos rfl, hreply hpl, hrest]
          | false => rw [if_neg Bool.false_ne_true, if_neg Bool.false_ne_true, hrest]
      | false =>
          have hpl : p l = false := by
            cases hpl : p l with
            | true => rw [hp l hpl] at hl; cases hl
            | false => rfl
          have hrest := ih (hdrop i s t l hmeets.1 hR hl) hmeets.2
          rw [List.filter_cons_of_neg (Bool.eq_false_iff.mp hl), ← hrest, heard, hpl,
            if_neg Bool.false_ne_true]

end Replies

end Lts
