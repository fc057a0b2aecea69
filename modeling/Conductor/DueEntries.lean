/-
What a drain of the delay queue returns, what it leaves, and how long the loop may
sleep before the next one.

Due times are of any linearly ordered group, so that a wait can be added to a time
and compared: the integers and the rationals are such groups, floats are not.
-/
import Mathlib.Algebra.Order.Group.Defs
import Mathlib.Algebra.Order.Sub.Basic
import Mathlib.Algebra.Order.Group.Int
import Conductor.HeapSpec

set_option autoImplicit false

open Relational

namespace Conductor

namespace DelayQueue

variable {K T V : Type} [DecidableEq K] [LinearOrder T] {q q' : DelayQueue K T V}

/-! ## What a drain returns and leaves -/

/-- A length under a cap; a negative cap is a cap of zero. -/
def capTo (limit : Option ℤ) (count : ℕ) : ℕ :=
  match limit with
  | none => count
  | some n => min count n.toNat

/-- A whole drain starts with nothing taken. -/
theorem pop_due_ok (h : q.Wf) (now : T) (limit : Option ℤ) :
    ∃ drained q', q.pop_due now limit = .ok (drained, q') ∧
      Drained q q' now limit 0 drained :=
  popDueLoop_ok h now limit (Nat.lt_succ_self _) []

/-- As many entries leave as are due, up to the cap. -/
theorem Drained.length {now : T} {limit : Option ℤ} {drained : List (Entry K T V)}
    (h : Drained q q' now limit 0 drained) :
    drained.length = capTo limit (q._heap.countP (fun e => e.due_at ≤ now)) := by
  have hall : drained.countP (fun e => e.due_at ≤ now) = drained.length :=
    List.countP_eq_length.mpr (fun e he => decide_eq_true (h.due e he))
  have hsplit := h.perm.countP_eq (fun e => decide (e.due_at ≤ now))
  rw [List.countP_append, hall] at hsplit
  have hended := h.ended
  have hcapped := h.capped
  simp only [Nat.cast_zero, zero_add] at hended hcapped
  unfold capTo
  rcases hended with hlate | ⟨n, rfl, hle⟩
  -- Nothing due is left: the due entries are those that were taken.
  · have hnone : q'._heap.countP (fun e => e.due_at ≤ now) = 0 :=
      List.countP_eq_zero.mpr (fun e he => by simpa using hlate e he)
    cases limit with
    | none =>
        show drained.length = q._heap.countP _
        omega
    | some n =>
        show drained.length = min (q._heap.countP _) n.toNat
        rcases hcapped n rfl with rfl | hn
        · simp only [List.length_nil] at hsplit ⊢
          omega
        · omega
  -- The cap is reached: it is the number of entries taken.
  · show drained.length = min (q._heap.countP _) n.toNat
    rcases hcapped n rfl with rfl | hn
    · simp only [List.length_nil] at hle ⊢
      omega
    · omega

/-- What was taken is gone from the map, and nothing else changed. -/
theorem Drained.toMap {now : T} {limit : Option ℤ} {drained : List (Entry K T V)} {taken : ℕ}
    (h : Drained q q' now limit taken drained) (hexact : q.Exact) (k : K) :
    q'.toMap k = if k ∈ drained.map Entry.key then none else q.toMap k := by
  have hkeys : ((drained ++ q'._heap).map Entry.key).Nodup :=
    (h.perm.map Entry.key).nodup_iff.mp hexact.nodup
  rw [List.map_append, List.nodup_append'] at hkeys
  split
  · rename_i hmem
    rw [toMap_eq_none h.wf.exact]
    cases hk : OrderedDict.lookup q'._index k with
    | none => rfl
    | some i =>
        obtain ⟨e, he, hkey⟩ := (h.wf.exact k i).mp hk
        have hleft : k ∈ q'._heap.map Entry.key :=
          List.mem_map.mpr ⟨e, List.mem_of_getElem? he, hkey⟩
        exact absurd hleft (fun hl => hkeys.2.2 hmem hl)
  · rename_i hmem
    refine Option.ext (fun entry => ?_)
    obtain ⟨d, v⟩ := entry
    rw [toMap_eq_some h.wf.exact, toMap_eq_some hexact, h.perm.mem_iff, List.mem_append]
    refine ⟨Or.inr, fun hin => hin.resolve_left (fun hd => hmem ?_)⟩
    exact List.mem_map.mpr ⟨_, hd, rfl⟩

/-! ## How long the loop may sleep -/

/-- A drain without a cap at this time would return something. -/
def Fires (q : DelayQueue K T V) (now : T) : Prop :=
  ∃ e rest q', q.pop_due now none = .ok (e :: rest, q')

/-- A drain returns something just when the earliest entry is due. -/
theorem fires_iff (h : q.Wf) (now : T) : q.Fires now ↔ ∃ e, q.peek = some e ∧ e.due_at ≤ now := by
  obtain ⟨drained, q', hok, hdrained⟩ := pop_due_ok h now none
  constructor
  · rintro ⟨e, rest, q₁, hfires⟩
    rw [hok] at hfires
    cases hfires
    have hmem : e ∈ q._heap := hdrained.perm.mem_iff.mpr (List.mem_append_left _ List.mem_cons_self)
    cases hpeek : q.peek with
    | none =>
        rw [List.head?_eq_none_iff.mp hpeek] at hmem
        cases hmem
    | some head =>
        have hdue := hdrained.due e List.mem_cons_self
        exact ⟨head, rfl, (peek_min h hpeek hmem).trans hdue⟩
  · rintro ⟨head, hpeek, hdue⟩
    cases drained with
    | cons e rest => exact ⟨e, rest, q', hok⟩
    -- Nothing taken without a cap: nothing in the heap is due, the head included.
    | nil =>
        have hmem : head ∈ q'._heap := hdrained.perm.mem_iff.mp (List.mem_of_mem_head? hpeek)
        rcases hdrained.ended with hlate | ⟨n, hn, -⟩
        · exact absurd hdue (not_le.mpr (hlate head hmem))
        · cases hn

variable [AddCommGroup T]

omit [DecidableEq K] in
theorem seconds_until_next_of_peek {e : Entry K T V} (he : q.peek = some e) (now : T) :
    q.seconds_until_next now = some (max 0 (e.due_at - now)) := by
  rw [seconds_until_next, he]

omit [DecidableEq K] in
theorem seconds_until_next_eq_none {now : T} :
    q.seconds_until_next now = none ↔ q._heap = [] := by
  rw [← List.head?_eq_none_iff]
  unfold seconds_until_next peek
  cases q._heap.head? with
  | none => exact iff_of_true rfl rfl
  | some e => exact iff_of_false (fun h => by cases h) (fun h => by cases h)

omit [DecidableEq K] in
theorem seconds_until_next_nonneg {now s : T} (hs : q.seconds_until_next now = some s) :
    0 ≤ s := by
  cases hpeek : q.peek with
  | none =>
      rw [seconds_until_next, hpeek] at hs
      cases hs
  | some head =>
      rw [seconds_until_next_of_peek hpeek, Option.some.injEq] at hs
      rw [← hs]
      exact le_max_left _ _

/-- After a wait the earliest entry is due just when the wait was as long as
`seconds_until_next` said. -/
theorem fires_add_iff [IsOrderedAddMonoid T] (h : q.Wf) {now s wait : T}
    (hs : q.seconds_until_next now = some s) (hwait : 0 ≤ wait) :
    q.Fires (now + wait) ↔ s ≤ wait := by
  cases hpeek : q.peek with
  | none =>
      rw [seconds_until_next, hpeek] at hs
      cases hs
  | some head =>
      rw [seconds_until_next_of_peek hpeek, Option.some.injEq] at hs
      have hhead : q.Fires (now + wait) ↔ head.due_at ≤ now + wait := by
        rw [fires_iff h, hpeek]
        constructor
        · rintro ⟨e, he, hdue⟩
          cases he
          exact hdue
        · exact fun hdue => ⟨head, rfl, hdue⟩
      rw [hhead, ← hs, max_le_iff, sub_le_iff_le_add']
      exact ⟨fun hdue => ⟨hwait, hdue⟩, And.right⟩

/-- **Draining the queue.** Whatever calls led to the queue, `pop_due` ends. It returns
distinct entries that were queued and due, in order of their due times, as many as
there are up to the cap; the due entries that it leaves come no earlier, and what it
does not return stays as it was. `seconds_until_next` is `none` on the empty queue,
zero when a drain would return something now, and otherwise the shortest wait after
which it does. -/
theorem drain_exact [IsOrderedAddMonoid T] (h : q.Reachable) (now : T) (limit : Option ℤ) :
    (∃ drained q', q.pop_due now limit = .ok (drained, q') ∧
      drained.Pairwise (fun e e' => e.due_at ≤ e'.due_at) ∧ (drained.map Entry.key).Nodup ∧
      (∀ e ∈ drained, e ∈ q._heap ∧ e.due_at ≤ now) ∧
      drained.length = capTo limit (q._heap.countP (fun e => e.due_at ≤ now)) ∧
      (∀ e ∈ q'._heap, e.due_at ≤ now → ∀ d ∈ drained, d.due_at ≤ e.due_at) ∧
      q._heap.Perm (drained ++ q'._heap) ∧
      (∀ k, q'.toMap k = if k ∈ drained.map Entry.key then none else q.toMap k)) ∧
    (q.seconds_until_next now = none ↔ q._heap = []) ∧
    (q.seconds_until_next now = some 0 ↔ q.Fires now) ∧
    (∀ s, q.seconds_until_next now = some s → 0 ≤ s ∧
      ∀ wait, 0 ≤ wait → (q.Fires (now + wait) ↔ s ≤ wait)) := by
  have hwf := h.wf
  refine ⟨?_, seconds_until_next_eq_none, ?_, fun s hs =>
    ⟨seconds_until_next_nonneg hs, fun wait hwait => fires_add_iff hwf hs hwait⟩⟩
  · obtain ⟨drained, q', hok, hdrained⟩ := pop_due_ok hwf now limit
    have hkeys : ((drained ++ q'._heap).map Entry.key).Nodup :=
      (hdrained.perm.map Entry.key).nodup_iff.mp hwf.exact.nodup
    rw [List.map_append] at hkeys
    refine ⟨drained, q', hok, hdrained.sorted, hkeys.of_append_left, fun e he => ?_,
      hdrained.length, fun e he _ d hd => hdrained.earliest d hd e he, hdrained.perm,
      hdrained.toMap hwf.exact⟩
    exact ⟨hdrained.perm.mem_iff.mpr (List.mem_append_left _ he), hdrained.due e he⟩
  -- Zero is the answer of a queue whose earliest entry is due already.
  · cases hs : q.seconds_until_next now with
    | none =>
        have hempty := seconds_until_next_eq_none.mp hs
        refine iff_of_false (fun hl => by cases hl) (fun hfires => ?_)
        obtain ⟨e, he, -⟩ := (fires_iff hwf now).mp hfires
        rw [peek, hempty] at he
        cases he
    | some s =>
        have hzero := seconds_until_next_nonneg hs
        have hnow := fires_add_iff hwf hs (le_refl 0)
        rw [add_zero] at hnow
        rw [hnow, Option.some.injEq]
        exact ⟨fun hs => hs.le, fun hs => le_antisymm hs hzero⟩

end DelayQueue

/-- Three timers, two of them at one deadline. -/
def timers : List (DelayQueue.Operation String ℤ ℕ) :=
  [.push "late" 50 0, .push "soon" 20 1, .push "tie" 20 2]

theorem DelayQueue.drain_exact_timers :
    ((timers.foldl DelayQueue.after .new).seconds_until_next 5 = some 15) ∧
    (timers.foldl DelayQueue.after .new).Fires (5 + 15) ∧
    ¬ (timers.foldl DelayQueue.after .new).Fires (5 + 14) := by
  have hwait : (timers.foldl DelayQueue.after .new).seconds_until_next 5 = some 15 := by
    decide +kernel
  have hdrain := (DelayQueue.drain_exact (DelayQueue.reachable_foldl timers) 5 none).2.2.2 15 hwait
  refine ⟨hwait, (hdrain.2 15 hdrain.1).mpr (le_refl _), fun hfires => ?_⟩
  exact absurd ((hdrain.2 14 (by decide)).mp hfires) (by decide)

end Conductor
