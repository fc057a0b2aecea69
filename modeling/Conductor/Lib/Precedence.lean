/-
Execution of a set of items under precedence constraints, abstractly.

Every item `c` has a finite set `parents c` of items that must be done before it
may start. An execution gives every item a `Status`; it moves by four steps (an
item succeeds, an item fails for good, everything still live is cancelled, an
execution starts), and `Coherent` is what all of them keep:

* nothing is released early: an enabled, done or failed item has all its parents
  done, and a waiting one has at least one that is not;
* nothing is forgotten: below a failed or blocked item everything is blocked, so
  a waiting item always has an enabled one above it (`Coherent.enabled_above`,
  where well-foundedness of the constraints is used);
* nothing is blocked without a reason: above a blocked item something failed.

How an implementation finds out whom to release (a counter, `unmet`) or whom to
block (a walk) is left to it.
-/
import Mathlib.Data.Finset.Card
import Mathlib.Data.Set.Finite.Basic
import Mathlib.Logic.Relation
import Mathlib.Order.WellFoundedSet

set_option autoImplicit false

namespace Precedence

/-- Where an item stands in an execution; `absent` items are not part of it. -/
inductive Status where
  | absent
  | waiting
  | enabled
  | done
  | failed
  | blocked
  | cancelled
deriving DecidableEq

/-- The item can still make progress. -/
def Status.live : Status → Bool
  | .waiting | .enabled => true
  | _ => false

variable {τ : Type}

/-- `p` has to be done before `c` starts. -/
def Edge (parents : τ → Finset τ) (p c : τ) : Prop := p ∈ parents c

/-- `a` is a strict ancestor of `d`. -/
def Below (parents : τ → Finset τ) : τ → τ → Prop := Relation.TransGen (Edge parents)

/-- How many parents of `c` are not done. -/
def unmet (parents : τ → Finset τ) (σ : τ → Status) (c : τ) : ℕ :=
  ((parents c).filter (fun p => σ p ≠ .done)).card

/-! ## Steps -/

/-- `t` succeeds; the waiting items that waited for nothing else are released. -/
def succeed [DecidableEq τ] (parents : τ → Finset τ) (σ : τ → Status) (t c : τ) : Status :=
  if c = t then .done
  else if σ c = .waiting ∧ t ∈ parents c ∧ unmet parents σ c = 1 then .enabled
  else σ c

open Classical in
/-- `t` fails for good; everything below it is blocked. -/
noncomputable def fail (parents : τ → Finset τ) (σ : τ → Status) (t c : τ) : Status :=
  if c = t then .failed else if Below parents t c then .blocked else σ c

/-- Everything still live is cancelled. -/
def cancel (σ : τ → Status) (c : τ) : Status := if (σ c).live then .cancelled else σ c

/-- An execution of the items that satisfy `V` starts. -/
def start (parents : τ → Finset τ) (V : τ → Bool) (c : τ) : Status :=
  if V c then (if (parents c).card = 0 then .enabled else .waiting) else .absent

/-- One step of one execution. -/
inductive Step [DecidableEq τ] (parents : τ → Finset τ) : (τ → Status) → (τ → Status) → Prop where
  | stay (σ : τ → Status) : Step parents σ σ
  | succeed {σ : τ → Status} {t : τ} (henabled : σ t = .enabled) :
      Step parents σ (succeed parents σ t)
  | fail {σ : τ → Status} {t : τ} (henabled : σ t = .enabled) :
      Step parents σ (fail parents σ t)
  | cancel (σ : τ → Status) : Step parents σ (cancel σ)
  | start {σ : τ → Status} {V : τ → Bool} (habsent : ∀ t, σ t = .absent)
      (hclosed : ∀ p c, p ∈ parents c → (V p = true ↔ V c = true)) :
      Step parents σ (start parents V)

/-! ## The invariant -/

structure Coherent (parents : τ → Finset τ) (σ : τ → Status) : Prop where
  absent : ∀ p c, p ∈ parents c → (σ p = .absent ↔ σ c = .absent)
  waiting : ∀ c, σ c = .waiting → 0 < unmet parents σ c
  released : ∀ c, σ c = .enabled ∨ σ c = .done ∨ σ c = .failed → ∀ p ∈ parents c, σ p = .done
  poisoned : ∀ p c, p ∈ parents c → σ p = .failed ∨ σ p = .blocked → σ c = .blocked
  blocked : ∀ c, σ c = .blocked → ∃ a, Below parents a c ∧ σ a = .failed
  cancelled : ∀ c, σ c = .cancelled → ∀ t, (σ t).live = false

variable {parents : τ → Finset τ} {σ σ' : τ → Status}

/-! ## The counter -/

theorem unmet_eq_zero {c : τ} : unmet parents σ c = 0 ↔ ∀ p ∈ parents c, σ p = .done := by
  simp [unmet, Finset.filter_eq_empty_iff]

theorem unmet_congr {c : τ} (h : ∀ p ∈ parents c, (σ' p = .done ↔ σ p = .done)) :
    unmet parents σ' c = unmet parents σ c := by
  unfold unmet
  congr 1
  refine Finset.filter_congr (fun p hp => ?_)
  rw [ne_eq, ne_eq, h p hp]

/-- When exactly `t` becomes done, the counter of each of its children drops by
one and every other counter stays. -/
theorem unmet_of_done [DecidableEq τ] {t : τ} (ht : σ t ≠ .done) (ht' : σ' t = .done)
    (hrest : ∀ p, p ≠ t → (σ' p = .done ↔ σ p = .done)) (c : τ) :
    unmet parents σ c = unmet parents σ' c + (if t ∈ parents c then 1 else 0) := by
  unfold unmet
  have herase : (parents c).filter (fun p => σ' p ≠ .done)
      = ((parents c).filter (fun p => σ p ≠ .done)).erase t := by
    ext p
    simp only [Finset.mem_filter, Finset.mem_erase]
    by_cases hp : p = t
    · subst hp
      simp [ht']
    · simp [hp, hrest p hp]
  rw [herase]
  split
  · rename_i hmem
    have hin : t ∈ (parents c).filter (fun p => σ p ≠ .done) := by simp [hmem, ht]
    exact (Finset.card_erase_add_one hin).symm
  · rename_i hmem
    rw [Finset.erase_eq_of_notMem (by simp [hmem]), Nat.add_zero]

theorem succeed_done [DecidableEq τ] {t p : τ} (ht : σ t = .enabled) :
    succeed parents σ t p = .done ↔ p = t ∨ σ p = .done := by
  unfold succeed
  split
  · simp [*]
  · split <;> simp_all

/-- A success makes nothing failed or cancelled. -/
theorem succeed_eq_iff [DecidableEq τ] {t p : τ} (ht : σ t = .enabled) {s : Status}
    (hs : s = .failed ∨ s = .cancelled) : succeed parents σ t p = s ↔ σ p = s := by
  unfold succeed
  split
  · rename_i hp
    subst hp
    rcases hs with rfl | rfl <;> simp [ht]
  · split
    · rename_i hw
      rcases hs with rfl | rfl <;> simp [hw.1]
    · rfl

/-- The counters after `t` succeeded. -/
theorem unmet_succeed [DecidableEq τ] {t : τ} (ht : σ t = .enabled) (c : τ) :
    unmet parents σ c = unmet parents (succeed parents σ t) c
      + (if t ∈ parents c then 1 else 0) := by
  refine unmet_of_done (by simp [ht]) ((succeed_done ht).mpr (Or.inl rfl)) ?_ c
  intro p hp
  rw [succeed_done ht]
  simp [hp]

/-! ## What a coherent execution knows about descendants -/

namespace Coherent

/-- Below an item that is not done nothing is enabled, done or failed. -/
theorem not_released_below (h : Coherent parents σ) {a d : τ} (hbelow : Below parents a d)
    (ha : σ a ≠ .done) : ¬ (σ d = .enabled ∨ σ d = .done ∨ σ d = .failed) := by
  induction hbelow with
  | single hedge => exact fun hd => ha (h.released _ hd _ hedge)
  | tail _ hedge ih =>
      intro hd
      exact ih (Or.inr (Or.inl (h.released _ hd _ hedge)))

theorem absent_below (h : Coherent parents σ) {a d : τ} (hbelow : Below parents a d) :
    σ a = .absent ↔ σ d = .absent := by
  induction hbelow with
  | single hedge => exact h.absent _ _ hedge
  | tail _ hedge ih => exact ih.trans (h.absent _ _ hedge)

/-- Below a live item everything is waiting or blocked. -/
theorem waiting_or_blocked_below (h : Coherent parents σ) {a d : τ}
    (hbelow : Below parents a d) (ha : (σ a).live = true) :
    σ d = .waiting ∨ σ d = .blocked := by
  have hnd : σ a ≠ .done := by intro he; rw [he] at ha; cases ha
  have hna : σ a ≠ .absent := by intro he; rw [he] at ha; cases ha
  have hrel := h.not_released_below hbelow hnd
  have habs : σ d ≠ .absent := fun he => hna ((h.absent_below hbelow).mpr he)
  have hcan : σ d ≠ .cancelled := by
    intro he
    rw [h.cancelled d he a] at ha
    cases ha
  cases hd : σ d <;> simp_all

/-- Below a failed or blocked item everything is blocked. -/
theorem blocked_below (h : Coherent parents σ) {a d : τ} (hbelow : Below parents a d)
    (ha : σ a = .failed ∨ σ a = .blocked) : σ d = .blocked := by
  induction hbelow with
  | single hedge => exact h.poisoned _ _ hedge ha
  | tail _ hedge ih => exact h.poisoned _ _ hedge (Or.inr ih)

/-- Without cancellations the sets of done and failed items determine every
status: a blocked item is one below a failed one. -/
theorem blocked_iff (h : Coherent parents σ) {d : τ} :
    σ d = .blocked ↔ ∃ a, Below parents a d ∧ σ a = .failed :=
  ⟨h.blocked d, fun ⟨_, hbelow, ha⟩ => h.blocked_below hbelow (Or.inl ha)⟩

/-! ## Every step keeps the invariant -/

theorem succeed [DecidableEq τ] (h : Coherent parents σ) {t : τ} (ht : σ t = .enabled) :
    Coherent parents (succeed parents σ t) := by
  -- The done items are the old ones and `t`; every other status is the old one
  -- or the release of a child whose last unmet parent was `t`.
  have hdone : ∀ p, Precedence.succeed parents σ t p = .done ↔ p = t ∨ σ p = .done :=
    fun _ => succeed_done ht
  have hcount : ∀ c, unmet parents σ c = unmet parents (Precedence.succeed parents σ t) c
      + (if t ∈ parents c then 1 else 0) := unmet_succeed ht
  have hcases : ∀ c, c ≠ t →
      (Precedence.succeed parents σ t c = .enabled ∧ σ c = .waiting ∧ t ∈ parents c ∧
        unmet parents σ c = 1)
      ∨ Precedence.succeed parents σ t c = σ c := by
    intro c hc
    unfold Precedence.succeed
    rw [if_neg hc]
    split
    · exact Or.inl ⟨rfl, ‹_›⟩
    · exact Or.inr rfl
  have htt : Precedence.succeed parents σ t t = .done := (hdone t).mpr (Or.inl rfl)
  have hself : t ∉ parents t := fun hmem => by
    have := h.released t (Or.inl ht) t hmem
    rw [ht] at this
    cases this
  constructor
  · intro p c hpc
    have hsame : ∀ x, Precedence.succeed parents σ t x = .absent ↔ σ x = .absent := by
      intro x
      by_cases hx : x = t
      · subst hx
        rw [htt, ht]
        decide
      · rcases hcases x hx with ⟨he, hw, -⟩ | he
        · rw [he, hw]
          decide
        · rw [he]
    rw [hsame, hsame]
    exact h.absent p c hpc
  · intro c hc
    have hct : c ≠ t := by rintro rfl; rw [htt] at hc; cases hc
    have hu := hcount c
    rcases hcases c hct with ⟨he, -⟩ | he
    · rw [he] at hc
      cases hc
    · have hw : σ c = .waiting := by rw [← he]; exact hc
      have hpos := h.waiting c hw
      by_cases hmem : t ∈ parents c
      · rw [if_pos hmem] at hu
        by_contra hzero
        have hone : unmet parents σ c = 1 := by omega
        have hrel : Precedence.succeed parents σ t c = .enabled := by
          unfold Precedence.succeed
          rw [if_neg hct, if_pos ⟨hw, hmem, hone⟩]
        rw [hrel] at hc
        cases hc
      · rw [if_neg hmem] at hu
        omega
  · intro c hc p hp
    rw [hdone]
    by_cases hct : c = t
    · subst hct
      exact Or.inr (h.released c (Or.inl ht) p hp)
    · rcases hcases c hct with ⟨-, -, hmem, hone⟩ | he
      · have hu := hcount c
        rw [if_pos hmem, hone] at hu
        have hall := unmet_eq_zero.mp (show unmet parents (Precedence.succeed parents σ t) c = 0
          by omega)
        exact (hdone p).mp (hall p hp)
      · rw [he] at hc
        exact Or.inr (h.released c hc p hp)
  · intro p c hpc hp
    have hpt : p ≠ t := by
      rintro rfl
      rw [htt] at hp
      rcases hp with hp | hp <;> cases hp
    have hpold : σ p = .failed ∨ σ p = .blocked := by
      rcases hcases p hpt with ⟨he, -⟩ | he
      · rw [he] at hp
        rcases hp with hp | hp <;> cases hp
      · rw [he] at hp
        exact hp
    have hc := h.poisoned p c hpc hpold
    have hct : c ≠ t := by rintro rfl; rw [ht] at hc; cases hc
    rcases hcases c hct with ⟨-, hw, -⟩ | he
    · rw [hw] at hc
      cases hc
    · rw [he, hc]
  · intro c hc
    have hct : c ≠ t := by rintro rfl; rw [htt] at hc; cases hc
    rcases hcases c hct with ⟨he, -⟩ | he
    · rw [he] at hc
      cases hc
    · rw [he] at hc
      obtain ⟨a, hbelow, ha⟩ := h.blocked c hc
      have hat : a ≠ t := by rintro rfl; rw [ht] at ha; cases ha
      refine ⟨a, hbelow, ?_⟩
      rcases hcases a hat with ⟨-, hw, -⟩ | he'
      · rw [hw] at ha
        cases ha
      · rw [he', ha]
  · intro c hc
    have hct : c ≠ t := by rintro rfl; rw [htt] at hc; cases hc
    rcases hcases c hct with ⟨he, -⟩ | he
    · rw [he] at hc
      cases hc
    · rw [he] at hc
      have := h.cancelled c hc t
      rw [ht] at this
      cases this

/-- An enabled item is not below itself. -/
theorem ne_of_below (h : Coherent parents σ) {t d : τ} (ht : σ t = .enabled)
    (hd : Below parents t d) : d ≠ t := by
  rintro rfl
  exact h.not_released_below hd (by simp [ht]) (Or.inl ht)

theorem fail_below (h : Coherent parents σ) {t d : τ} (ht : σ t = .enabled)
    (hd : Below parents t d) : Precedence.fail parents σ t d = .blocked := by
  unfold Precedence.fail
  rw [if_neg (h.ne_of_below ht hd), if_pos hd]

/-- A failure moves `t` and the items below it between statuses other than `done`
and `absent`. -/
theorem fail_eq_iff (h : Coherent parents σ) {t : τ} (ht : σ t = .enabled) {s : Status}
    (hs : s = .done ∨ s = .absent) (p : τ) : Precedence.fail parents σ t p = s ↔ σ p = s := by
  have hlive : (σ t).live = true := by rw [ht]; rfl
  by_cases hpt : p = t
  · subst hpt
    rw [Precedence.fail, if_pos rfl, ht]
    rcases hs with rfl | rfl <;> decide
  · by_cases hp : Below parents t p
    · rw [h.fail_below ht hp]
      rcases h.waiting_or_blocked_below hp hlive with he | he <;> rcases hs with rfl | rfl <;>
        simp [he]
    · rw [Precedence.fail, if_neg hpt, if_neg hp]

/-- The failed items are the old ones and `t`. -/
theorem fail_failed (h : Coherent parents σ) {t : τ} (ht : σ t = .enabled) (p : τ) :
    Precedence.fail parents σ t p = .failed ↔ p = t ∨ σ p = .failed := by
  have hlive : (σ t).live = true := by rw [ht]; rfl
  by_cases hpt : p = t
  · simp [Precedence.fail, hpt]
  · by_cases hp : Below parents t p
    · rw [h.fail_below ht hp]
      rcases h.waiting_or_blocked_below hp hlive with he | he <;> simp [hpt, he]
    · simp [Precedence.fail, hpt, hp]

/-- A failure leaves the counters alone. -/
theorem unmet_fail (h : Coherent parents σ) {t : τ} (ht : σ t = .enabled) (c : τ) :
    unmet parents (Precedence.fail parents σ t) c = unmet parents σ c :=
  unmet_congr (fun p _ => h.fail_eq_iff ht (Or.inl rfl) p)

theorem fail (h : Coherent parents σ) {t : τ} (ht : σ t = .enabled) :
    Coherent parents (fail parents σ t) := by
  have htt : Precedence.fail parents σ t t = .failed := by simp [Precedence.fail]
  have hdown : ∀ d, Below parents t d → Precedence.fail parents σ t d = .blocked :=
    fun _ hd => h.fail_below ht hd
  have hlive : (σ t).live = true := by rw [ht]; rfl
  have hdone := h.fail_eq_iff ht (Or.inl rfl)
  have habsent := h.fail_eq_iff ht (Or.inr rfl)
  -- Away from `t` and what is below it, nothing changed.
  have hcases : ∀ c, c = t ∨ Below parents t c ∨
      (c ≠ t ∧ ¬ Below parents t c ∧ Precedence.fail parents σ t c = σ c) := by
    intro c
    by_cases hct : c = t
    · exact Or.inl hct
    · by_cases hc : Below parents t c
      · exact Or.inr (Or.inl hc)
      · refine Or.inr (Or.inr ⟨hct, hc, ?_⟩)
        rw [Precedence.fail, if_neg hct, if_neg hc]
  constructor
  · intro p c hpc
    rw [habsent, habsent]
    exact h.absent p c hpc
  · intro c hc
    rw [h.unmet_fail ht]
    rcases hcases c with rfl | hd | ⟨-, -, he⟩
    · rw [htt] at hc
      cases hc
    · rw [hdown c hd] at hc
      cases hc
    · exact h.waiting c (by rw [← he]; exact hc)
  · intro c hc p hp
    rw [hdone]
    rcases hcases c with rfl | hd | ⟨-, -, he⟩
    · exact h.released c (Or.inl ht) p hp
    · rw [hdown c hd] at hc
      rcases hc with hc | hc | hc <;> cases hc
    · rw [he] at hc
      exact h.released c hc p hp
  · intro p c hpc hp
    rcases hcases p with rfl | hd | ⟨-, -, he⟩
    · exact hdown c (Relation.TransGen.single hpc)
    · exact hdown c (hd.tail hpc)
    · rw [he] at hp
      have hc := h.poisoned p c hpc hp
      rcases hcases c with rfl | hd | ⟨-, -, he'⟩
      · rw [ht] at hc
        cases hc
      · exact hdown c hd
      · rw [he', hc]
  · intro c hc
    rcases hcases c with rfl | hd | ⟨-, -, he⟩
    · rw [htt] at hc
      cases hc
    · exact ⟨t, hd, htt⟩
    · rw [he] at hc
      obtain ⟨a, hac, ha⟩ := h.blocked c hc
      refine ⟨a, hac, ?_⟩
      rcases hcases a with rfl | hd | ⟨-, -, he'⟩
      · exact htt
      · rcases h.waiting_or_blocked_below hd hlive with hw | hw <;> rw [hw] at ha <;> cases ha
      · rw [he', ha]
  · intro c hc
    rcases hcases c with rfl | hd | ⟨-, -, he⟩
    · rw [htt] at hc
      cases hc
    · rw [hdown c hd] at hc
      cases hc
    · rw [he] at hc
      have := h.cancelled c hc t
      rw [hlive] at this
      cases this

theorem cancel (h : Coherent parents σ) : Coherent parents (cancel σ) := by
  have hcases : ∀ c, ((σ c).live = true ∧ Precedence.cancel σ c = .cancelled)
      ∨ ((σ c).live = false ∧ Precedence.cancel σ c = σ c) := by
    intro c
    unfold Precedence.cancel
    cases hl : (σ c).live <;> simp
  -- Tasks that were dead are dead in the same way, and nothing is left live.
  have hdead : ∀ s : Status, s ≠ .cancelled → s.live = false →
      ∀ c, (Precedence.cancel σ c = s ↔ σ c = s) := by
    intro s hs hsl c
    rcases hcases c with ⟨hl, he⟩ | ⟨hl, he⟩
    · rw [he]
      refine iff_of_false (Ne.symm hs) ?_
      rintro hc
      rw [hc, hsl] at hl
      cases hl
    · rw [he]
  have hnolive : ∀ c, (Precedence.cancel σ c).live = false := by
    intro c
    rcases hcases c with ⟨-, he⟩ | ⟨hl, he⟩
    · rw [he]; rfl
    · rw [he]; exact hl
  constructor
  · intro p c hpc
    rw [hdead .absent (by decide) rfl, hdead .absent (by decide) rfl]
    exact h.absent p c hpc
  · intro c hc
    have := hnolive c
    rw [hc] at this
    cases this
  · intro c hc p hp
    rw [hdead .done (by decide) rfl]
    rw [hdead .done (by decide) rfl, hdead .failed (by decide) rfl] at hc
    rcases hc with hc | hc
    · have := hnolive c
      rw [hc] at this
      cases this
    · exact h.released c (Or.inr hc) p hp
  · intro p c hpc hp
    rw [hdead .blocked (by decide) rfl]
    rw [hdead .failed (by decide) rfl, hdead .blocked (by decide) rfl] at hp
    exact h.poisoned p c hpc hp
  · intro c hc
    rw [hdead .blocked (by decide) rfl] at hc
    obtain ⟨a, hac, ha⟩ := h.blocked c hc
    exact ⟨a, hac, (hdead .failed (by decide) rfl a).mpr ha⟩
  · intro _ _ t
    exact hnolive t

theorem start {V : τ → Bool} (hclosed : ∀ p c, p ∈ parents c → (V p = true ↔ V c = true)) :
    Coherent parents (start parents V) := by
  -- A task is absent, or enabled without parents, or waiting for some.
  have hcases : ∀ c, (Precedence.start parents V c = .absent ∧ V c = false)
      ∨ (Precedence.start parents V c = .enabled ∧ V c = true ∧ parents c = ∅)
      ∨ (Precedence.start parents V c = .waiting ∧ V c = true ∧ parents c ≠ ∅) := by
    intro c
    unfold Precedence.start
    cases hV : V c
    · exact Or.inl ⟨by simp, rfl⟩
    · by_cases hp : parents c = ∅
      · exact Or.inr (Or.inl ⟨by simp [hp], rfl, hp⟩)
      · exact Or.inr (Or.inr ⟨by simp [hp], rfl, hp⟩)
  have habsent : ∀ c, Precedence.start parents V c = .absent ↔ ¬ V c = true := by
    intro c
    rcases hcases c with ⟨he, hV⟩ | ⟨he, hV, -⟩ | ⟨he, hV, -⟩ <;> rw [he, hV] <;> decide
  have hnot : ∀ s c, s ≠ .absent → s ≠ .enabled → s ≠ .waiting →
      Precedence.start parents V c ≠ s := by
    intro s c h1 h2 h3 he
    rcases hcases c with ⟨hc, -⟩ | ⟨hc, -⟩ | ⟨hc, -⟩
    · exact h1 (he.symm.trans hc)
    · exact h2 (he.symm.trans hc)
    · exact h3 (he.symm.trans hc)
  constructor
  · intro p c hpc
    rw [habsent, habsent, hclosed p c hpc]
  · intro c hc
    rcases hcases c with ⟨he, -⟩ | ⟨he, -⟩ | ⟨-, -, hne⟩
    · rw [hc] at he
      cases he
    · rw [hc] at he
      cases he
    · refine Nat.pos_of_ne_zero (fun hzero => ?_)
      obtain ⟨p, hp⟩ := Finset.nonempty_iff_ne_empty.mpr hne
      exact hnot .done p (by decide) (by decide) (by decide) (unmet_eq_zero.mp hzero p hp)
  · intro c hc p hp
    rcases hcases c with ⟨he, -⟩ | ⟨-, -, hempty⟩ | ⟨he, -⟩
    · rw [he] at hc
      rcases hc with hc | hc | hc <;> cases hc
    · rw [hempty] at hp
      exact absurd hp (Finset.notMem_empty p)
    · rw [he] at hc
      rcases hc with hc | hc | hc <;> cases hc
  · intro p c _ hp
    rcases hp with hp | hp
    · exact absurd hp (hnot .failed p (by decide) (by decide) (by decide))
    · exact absurd hp (hnot .blocked p (by decide) (by decide) (by decide))
  · intro c hc
    exact absurd hc (hnot .blocked c (by decide) (by decide) (by decide))
  · intro c hc
    exact absurd hc (hnot .cancelled c (by decide) (by decide) (by decide))

/-- **Every step of an execution keeps it coherent.** -/
theorem step [DecidableEq τ] (h : Coherent parents σ) (hstep : Step parents σ σ') :
    Coherent parents σ' := by
  cases hstep with
  | stay => exact h
  | succeed ht => exact h.succeed ht
  | fail ht => exact h.fail ht
  | cancel => exact h.cancel
  | start _ hclosed => exact Coherent.start hclosed

/-- An execution does not notice constraints added between items it does not
have. -/
theorem extend {parents' : τ → Finset τ} (h : Coherent parents σ)
    (hold : ∀ c, σ c ≠ .absent → parents' c = parents c)
    (hnew : ∀ c, σ c = .absent → ∀ p ∈ parents' c, σ p = .absent)
    (hsub : ∀ c, parents c ⊆ parents' c) : Coherent parents' σ := by
  have hbelow : Below parents ≤ Below parents' :=
    Relation.TransGen.mono (fun _ c he => hsub c he)
  constructor
  · intro p c hpc
    by_cases hc : σ c = .absent
    · exact iff_of_true (hnew c hc p hpc) hc
    · rw [hold c hc] at hpc
      exact h.absent p c hpc
  · intro c hc
    have := h.waiting c hc
    unfold unmet at this ⊢
    rwa [hold c (by rw [hc]; decide)]
  · intro c hc p hp
    rw [hold c (by rcases hc with hc | hc | hc <;> rw [hc] <;> decide)] at hp
    exact h.released c hc p hp
  · intro p c hpc hp
    by_cases hc : σ c = .absent
    · rw [hnew c hc p hpc] at hp
      rcases hp with hp | hp <;> cases hp
    · rw [hold c hc] at hpc
      exact h.poisoned p c hpc hp
  · intro c hc
    obtain ⟨a, hac, ha⟩ := h.blocked c hc
    exact ⟨a, hbelow a c hac, ha⟩
  · exact h.cancelled

/-! ## Progress -/

/-- **Nothing waits in vain.** With well-founded constraints, above a waiting item
there is an enabled one. -/
theorem enabled_above (h : Coherent parents σ) (hwf : WellFounded (Edge parents)) {c : τ}
    (hc : σ c = .waiting) : ∃ a, Below parents a c ∧ σ a = .enabled := by
  induction c using hwf.induction with
  | _ c ih =>
    -- Some parent is not done. It cannot be failed or blocked, because then `c`
    -- were blocked; nor cancelled, because `c` is live.
    have hpos := h.waiting c hc
    obtain ⟨p, hp, hnd⟩ : ∃ p ∈ parents c, σ p ≠ .done := by
      by_contra hno
      push Not at hno
      rw [unmet_eq_zero.mpr hno] at hpos
      exact absurd hpos (Nat.lt_irrefl 0)
    cases hs : σ p with
    | absent =>
        rw [(h.absent p c hp).mp hs] at hc
        cases hc
    | waiting =>
        obtain ⟨a, hap, ha⟩ := ih p hp hs
        exact ⟨a, hap.tail hp, ha⟩
    | enabled => exact ⟨p, Relation.TransGen.single hp, hs⟩
    | done => exact absurd hs hnd
    | failed =>
        rw [h.poisoned p c hp (Or.inl hs)] at hc
        cases hc
    | blocked =>
        rw [h.poisoned p c hp (Or.inr hs)] at hc
        cases hc
    | cancelled =>
        have := h.cancelled p hs c
        rw [hc] at this
        cases this

end Coherent

/-- Finitely many constraints without a cycle are well-founded. -/
theorem wellFounded_of_acyclic (s : Finset τ) (hs : ∀ p c, p ∈ parents c → c ∈ s)
    (hacyclic : ∀ t, ¬ Below parents t t) : WellFounded (Edge parents) := by
  have htrans : IsTrans τ (Below parents) := ⟨fun _ _ _ => Relation.TransGen.trans⟩
  have hon : (s : Set τ).WellFoundedOn (Below parents) := by
    have : IsStrictOrder τ (Below parents) := { irrefl := hacyclic, trans := htrans.trans }
    exact s.finite_toSet.wellFoundedOn
  -- An item outside `s` has no parents at all.
  have hout : ∀ c, c ∉ s → Acc (Edge parents) c :=
    fun c hc => ⟨c, fun p hp => absurd (hs p c hp) hc⟩
  refine ⟨fun c => ?_⟩
  by_cases hc : c ∈ s
  · refine hon.induction (P := fun c => Acc (Edge parents) c) hc (fun c hc ih => ⟨c, fun p hp => ?_⟩)
    by_cases hps : p ∈ s
    · exact ih p hps (Relation.TransGen.single hp)
    · exact hout p hps
  · exact hout c hc

end Precedence
