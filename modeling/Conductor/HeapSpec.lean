/-
The delay queue keeps its heap in order and its index exact.

`due q` reads the heap as an assignment of due times to slots, `⊤` beyond its end;
`HeapOrder` says what the sifts do to it. Every swap rewrites two slots and two
index entries at once, so `Exact` is kept by the swap alone and the sifts inherit
it. `remove_at`, `replace` and `push` each make a hole and mend it.

The last section abstracts the heap to a finite map from keys and says what each
operation does to that.
-/
import Mathlib.Data.Finset.Card
import Mathlib.Data.List.Perm.Basic
import Mathlib.Data.Set.Card
import Mathlib.Order.WithBot
import Conductor.Lib.HeapOrder
import Conductor.Lib.Runs
import Conductor.Heap

set_option autoImplicit false

open Relational HeapOrder

namespace Conductor

/-! ## Lists -/

section Lists

variable {α : Type} {xs : List α} {i : ℕ} {x : α}

theorem ok_bind {ε β : Type} (x : α) (f : α → Except ε β) : (Except.ok x >>= f) = f x := rfl

theorem item_ok (h : xs[i]? = some x) : item xs i = .ok x := by
  simp [item, h]

theorem setitem_ok (h : i < xs.length) (x : α) : setitem xs i x = .ok (xs.set i x) :=
  if_pos h

theorem popLast_append (xs : List α) (x : α) : popLast (xs ++ [x]) = .ok (x, xs) := by
  simp [popLast]

/-- The list with slots `a` and `b` exchanged. -/
def swapped (xs : List α) (a b : ℕ) (x y : α) : List α := (xs.set a x).set b y

variable {a b : ℕ} {y : α}

theorem getElem?_swapped (ha : xs[a]? = some y) (hb : xs[b]? = some x) (i : ℕ) :
    (swapped xs a b x y)[i]? = xs[Equiv.swap a b i]? := by
  obtain ⟨hal, -⟩ := List.getElem?_eq_some_iff.mp ha
  obtain ⟨hbl, -⟩ := List.getElem?_eq_some_iff.mp hb
  unfold swapped
  rw [List.getElem?_set]
  by_cases hi : i = b
  · subst hi
    rw [if_pos rfl, List.length_set, if_pos hbl, Equiv.swap_apply_right, ha]
  · rw [if_neg (Ne.symm hi), List.getElem?_set]
    by_cases hia : i = a
    · subst hia
      rw [if_pos rfl, if_pos hal, Equiv.swap_apply_left, hb]
    · rw [if_neg (Ne.symm hia), Equiv.swap_apply_of_ne_of_ne hia hi]

/-- Exchanging two slots permutes the list. -/
theorem perm_swapped (ha : xs[a]? = some y) (hb : xs[b]? = some x) :
    (swapped xs a b x y).Perm xs := by
  obtain ⟨hal, rfl⟩ := List.getElem?_eq_some_iff.mp ha
  obtain ⟨hbl, rfl⟩ := List.getElem?_eq_some_iff.mp hb
  exact List.set_set_perm hal hbl

end Lists

namespace DelayQueue

variable {K T V : Type}

/-! ## The invariant -/

/-- The due time in a slot. -/
def due (q : DelayQueue K T V) (i : ℕ) : WithTop T :=
  (q._heap[i]?).elim ⊤ (fun e => (e.due_at : WithTop T))

variable {q q' : DelayQueue K T V}

theorem due_of_getElem? {i : ℕ} {e : Entry K T V} (h : q._heap[i]? = some e) :
    q.due i = (e.due_at : WithTop T) := by
  simp [due, h]

theorem due_of_length_le {i : ℕ} (h : q._heap.length ≤ i) : q.due i = ⊤ := by
  simp [due, List.getElem?_eq_none h]

/-- Heap order, slot by slot. -/
theorem ordered_iff [LinearOrder T] : Ordered q.due ↔ ∀ i x y, 0 < i →
    q._heap[(i - 1) / 2]? = some x → q._heap[i]? = some y → x.due_at ≤ y.due_at := by
  constructor
  · intro h i x y hi hx hy
    have hle := h i hi
    rw [due_of_getElem? hy, due_of_getElem? (i := parent i) hx] at hle
    exact WithTop.coe_le_coe.mp hle
  · intro h i hi
    rcases Nat.lt_or_ge i q._heap.length with hlt | hge
    · have hplt : parent i < q._heap.length := (parent_lt hi).trans hlt
      have hy := List.getElem?_eq_getElem hlt
      have hx := List.getElem?_eq_getElem hplt
      rw [due_of_getElem? hy, due_of_getElem? hx]
      exact WithTop.coe_le_coe.mpr (h i _ _ hi hx hy)
    · rw [due_of_length_le hge]
      exact le_top

variable [DecidableEq K]

/-- `look` maps a key to a slot exactly if the entry in that slot has the key. -/
def Indexes (look : K → Option ℕ) (heap : List (Entry K T V)) : Prop :=
  ∀ k i, look k = some i ↔ ∃ e, heap[i]? = some e ∧ e.key = k

/-- The index is exact. -/
def Exact (q : DelayQueue K T V) : Prop := Indexes (OrderedDict.lookup q._index) q._heap

theorem Exact.lookup (h : q.Exact) {i : ℕ} {e : Entry K T V} (he : q._heap[i]? = some e) :
    OrderedDict.lookup q._index e.key = some i :=
  (h e.key i).mpr ⟨e, he, rfl⟩

/-- No two slots hold the same key. -/
theorem Exact.slot_unique (h : q.Exact) {i j : ℕ} {x y : Entry K T V} (hx : q._heap[i]? = some x)
    (hy : q._heap[j]? = some y) (hkey : x.key = y.key) : i = j := by
  have hi := h.lookup hx
  rw [hkey, h.lookup hy] at hi
  exact (Option.some.inj hi).symm

theorem Exact.nodup (h : q.Exact) : (q._heap.map Entry.key).Nodup := by
  rw [List.nodup_iff_getElem?_ne_getElem?]
  intro i j hij hj he
  rw [List.length_map] at hj
  have hi := hij.trans hj
  rw [List.getElem?_map, List.getElem?_map, List.getElem?_eq_getElem hi,
    List.getElem?_eq_getElem hj] at he
  have hkey : (q._heap[i]).key = (q._heap[j]).key := Option.some.inj he
  have := h.slot_unique (List.getElem?_eq_getElem hi) (List.getElem?_eq_getElem hj) hkey
  omega

/-! ## Swaps -/

/-- What a sift may do: permute the heap, with the index following. -/
structure Sifted (q q' : DelayQueue K T V) : Prop where
  exact : q'.Exact
  perm : q'._heap.Perm q._heap

theorem Sifted.refl (h : q.Exact) : Sifted q q := ⟨h, .refl _⟩

theorem Sifted.trans {q'' : DelayQueue K T V} (h : Sifted q q') (h' : Sifted q' q'') :
    Sifted q q'' := ⟨h'.exact, h'.perm.trans h.perm⟩

theorem Sifted.length (h : Sifted q q') : q'._heap.length = q._heap.length := h.perm.length_eq

/-- The two index entries that a swap writes send every key where the swap sends
its slot. -/
theorem Exact.lookup_swapped (h : q.Exact) {a b : ℕ} {x y : Entry K T V} (hab : a ≠ b)
    (hy : q._heap[a]? = some y) (hx : q._heap[b]? = some x) (k : K) :
    OrderedDict.lookup (OrderedDict.set (OrderedDict.set q._index x.key a) y.key b) k
      = (OrderedDict.lookup q._index k).map (Equiv.swap a b) := by
  rw [OrderedDict.lookup_set, OrderedDict.lookup_set]
  by_cases hky : k = y.key
  · rw [if_pos hky, hky, h.lookup hy, Option.map_some, Equiv.swap_apply_left]
  · rw [if_neg hky]
    by_cases hkx : k = x.key
    · rw [if_pos hkx, hkx, h.lookup hx, Option.map_some, Equiv.swap_apply_right]
    · rw [if_neg hkx]
      cases hk : OrderedDict.lookup q._index k with
      | none => rfl
      | some j =>
          -- The key is in neither of the two slots.
          obtain ⟨e, he, hkey⟩ := (h k j).mp hk
          have hja : j ≠ a := by
            rintro rfl
            rw [hy] at he
            exact hky (by rw [← hkey, Option.some.inj he])
          have hjb : j ≠ b := by
            rintro rfl
            rw [hx] at he
            exact hkx (by rw [← hkey, Option.some.inj he])
          rw [Option.map_some, Equiv.swap_apply_of_ne_of_ne hja hjb]

/-- **A swap** of two slots exchanges their due times and keeps the index exact. -/
theorem swap_ok (h : q.Exact) {a b : ℕ} (hab : a ≠ b) (ha : a < q._heap.length)
    (hb : b < q._heap.length) :
    ∃ q', q.swap a b = .ok q' ∧ Sifted q q' ∧ q'.due = q.due ∘ Equiv.swap a b := by
  obtain ⟨y, hy⟩ : ∃ y, q._heap[a]? = some y := ⟨_, List.getElem?_eq_getElem ha⟩
  obtain ⟨x, hx⟩ : ∃ x, q._heap[b]? = some x := ⟨_, List.getElem?_eq_getElem hb⟩
  have hget := getElem?_swapped hy hx
  have hfirst : ((q._heap.set a x).set b y)[a]? = some x := by
    rw [← swapped, hget, Equiv.swap_apply_left, hx]
  have hsecond : ((q._heap.set a x).set b y)[b]? = some y := by
    rw [← swapped, hget, Equiv.swap_apply_right, hy]
  have hb' : b < (q._heap.set a x).length := by simpa using hb
  refine ⟨⟨swapped q._heap a b x y, OrderedDict.set (OrderedDict.set q._index x.key a) y.key b⟩,
    ?_, ⟨fun k i => ?_, perm_swapped hy hx⟩, ?_⟩
  · simp only [swap, item_ok hx, item_ok hy, ok_bind, setitem_ok ha, setitem_ok hb', item_ok hfirst,
      item_ok hsecond]
    rfl
  · rw [h.lookup_swapped hab hy hx, hget, ← h k, Option.map_eq_some_iff]
    constructor
    · rintro ⟨j, hj, rfl⟩
      rw [Equiv.swap_apply_self]
      exact hj
    · intro hj
      exact ⟨_, hj, Equiv.swap_apply_self a b i⟩
  · funext i
    simp only [due, Function.comp_apply, hget]

/-! ## The sifts -/

variable [LinearOrder T]

/-- One round of the walk up. -/
theorem siftUpLoop_succ {p : ℕ} {here above : Entry K T V} (hpos : 0 < p)
    (hhere : q._heap[p]? = some here) (habove : q._heap[parent p]? = some above) (rounds : ℕ) :
    siftUpLoop (rounds + 1) p q = if here.due_at ≥ above.due_at then .ok q
      else q.swap p (parent p) >>= siftUpLoop rounds (parent p) := by
  have habove' : item q._heap ((p - 1) / 2) = .ok above := item_ok habove
  simp only [siftUpLoop, hpos, if_true, item_ok hhere, ok_bind, habove']
  rfl

/-- **Sifting up** from `p` mends the heap, or finds that `p` is not too small. -/
theorem siftUpLoop_ok (h : q.Exact) {p rounds : ℕ} (hp : p < q._heap.length) (hrounds : p < rounds) :
    ∃ q', siftUpLoop rounds p q = .ok q' ∧ Sifted q q' ∧
      (Hole q.due p → Ordered q'.due ∨ (q' = q ∧ (0 < p → q.due (parent p) ≤ q.due p))) := by
  induction rounds generalizing q p with
  | zero => omega
  | succ rounds ih =>
      by_cases hpos : 0 < p
      · have hpp := parent_lt hpos
        obtain ⟨here, hhere⟩ : ∃ e, q._heap[p]? = some e := ⟨_, List.getElem?_eq_getElem hp⟩
        obtain ⟨above, habove⟩ : ∃ e, q._heap[parent p]? = some e :=
          ⟨_, List.getElem?_eq_getElem (hpp.trans hp)⟩
        rw [siftUpLoop_succ hpos hhere habove]
        by_cases hge : here.due_at ≥ above.due_at
        · refine ⟨q, if_pos hge, .refl h, fun _ => Or.inr ⟨rfl, fun _ => ?_⟩⟩
          rw [due_of_getElem? hhere, due_of_getElem? habove]
          exact WithTop.coe_le_coe.mpr hge
        · obtain ⟨q₁, hswap, hsifted, hdue⟩ := swap_ok h hpp.ne' hp (hpp.trans hp)
          obtain ⟨q', hrest, hsifted', hmended⟩ := ih hsifted.exact
            (by rw [hsifted.length]; exact hpp.trans hp) (by omega : parent p < rounds)
          refine ⟨q', ?_, hsifted.trans hsifted', fun hhole => Or.inl ?_⟩
          · rw [if_neg hge, hswap, ok_bind]
            exact hrest
          · have hlt : q.due p < q.due (parent p) := by
              rw [due_of_getElem? hhere, due_of_getElem? habove]
              exact WithTop.coe_lt_coe.mpr (not_le.mp hge)
            have hup : Up q₁.due (parent p) := hdue ▸ hhole.up hpos hlt
            rcases hmended hup.hole with hordered | ⟨rfl, hle⟩
            · exact hordered
            · exact hup.done hle
      · refine ⟨q, ?_, .refl h, fun _ => Or.inr ⟨rfl, fun hp => absurd hp hpos⟩⟩
        rw [siftUpLoop, if_neg hpos]
        rfl

omit [DecidableEq K] in
/-- The smaller of the two slots, and of what `smallest` was compared with before. -/
theorem smaller_ok {size a c : ℕ} (hsize : size = q._heap.length) (ha : a < q._heap.length) :
    ∃ s, smaller size q a c = .ok s ∧ s < q._heap.length ∧ (s = a ∨ s = c) ∧
      q.due s ≤ q.due a ∧ q.due s ≤ q.due c ∧ (s ≠ a → q.due s < q.due a) := by
  subst hsize
  unfold smaller
  by_cases hc : c < q._heap.length
  · obtain ⟨x, hx⟩ : ∃ e, q._heap[c]? = some e := ⟨_, List.getElem?_eq_getElem hc⟩
    obtain ⟨y, hy⟩ : ∃ e, q._heap[a]? = some e := ⟨_, List.getElem?_eq_getElem ha⟩
    rw [if_pos hc, item_ok hx, item_ok hy, due_of_getElem? hy, due_of_getElem? hx]
    by_cases hlt : x.due_at < y.due_at
    · have hlt' : (x.due_at : WithTop T) < y.due_at := WithTop.coe_lt_coe.mpr hlt
      refine ⟨c, by simp [hlt, ok_bind, pure, Except.pure], hc, Or.inr rfl, ?_⟩
      rw [due_of_getElem? hx]
      exact ⟨hlt'.le, le_refl _, fun _ => hlt'⟩
    · refine ⟨a, by simp [hlt, ok_bind, pure, Except.pure], ha, Or.inl rfl, ?_⟩
      rw [due_of_getElem? hy]
      exact ⟨le_refl _, WithTop.coe_le_coe.mpr (not_lt.mp hlt), fun h => absurd rfl h⟩
  · rw [if_neg hc]
    refine ⟨a, rfl, ha, Or.inl rfl, le_refl _, ?_, fun h => absurd rfl h⟩
    rw [due_of_length_le (not_lt.mp hc)]
    exact le_top

/-- **Sifting down** from `p` mends a heap in which `p` may be too large. -/
theorem siftDownLoop_ok (h : q.Exact) {p size rounds : ℕ} (hsize : size = q._heap.length)
    (hp : p < q._heap.length) (hrounds : q._heap.length < p + rounds) :
    ∃ q', siftDownLoop size rounds p q = .ok q' ∧ Sifted q q' ∧
      (Down q.due p → Ordered q'.due) ∧ (Ordered q.due → q' = q) := by
  induction rounds generalizing q p with
  | zero => omega
  | succ rounds ih =>
      obtain ⟨s₁, hs₁, hlt₁, hor₁, hle₁, hlec₁, hne₁⟩ := smaller_ok (c := 2 * p + 1) hsize hp
      obtain ⟨s, hs, hlt, hor, hle, hlec, hne⟩ := smaller_ok (c := 2 * p + 1 + 1) hsize hlt₁
      have hloop : siftDownLoop size (rounds + 1) p q
          = if s = p then .ok q else q.swap p s >>= siftDownLoop size rounds s := by
        simp only [siftDownLoop, hs₁, hs, ok_bind]
        rfl
      -- `s` is the slot itself or one of its children, and the smallest of the three.
      have hmin : ∀ i, 0 < i → parent i = p → q.due s ≤ q.due i := by
        intro i hi hpar
        rcases (parent_eq_iff hi).mp hpar with rfl | rfl
        · exact hle.trans hlec₁
        · exact hlec
      rw [hloop]
      by_cases hsp : s = p
      · rw [hsp] at hmin
        exact ⟨q, if_pos hsp, .refl h, fun hdown => hdown.done hmin, fun _ => rfl⟩
      · have hchild : 0 < s ∧ parent s = p := by
          have hs' : s = 2 * p + 1 ∨ s = 2 * p + 2 := by
            rcases hor with rfl | hs'
            · exact Or.inl (hor₁.resolve_left hsp)
            · exact Or.inr hs'
          have hpos : 0 < s := by omega
          exact ⟨hpos, (parent_eq_iff hpos).mpr hs'⟩
        have hps : p < s := hchild.2 ▸ parent_lt hchild.1
        have hsmall : q.due s < q.due p := by
          by_cases hs₁p : s₁ = p
          · rw [← hs₁p]
            exact hne (fun he => hsp (he.trans hs₁p))
          · exact hle.trans_lt (hne₁ hs₁p)
        obtain ⟨q₁, hswap, hsifted, hdue⟩ := swap_ok h hps.ne hp hlt
        have hlen := hsifted.length
        obtain ⟨q', hrest, hsifted', hmended, -⟩ := ih (q := q₁) (p := s) hsifted.exact
          (by omega) (by omega) (by omega)
        refine ⟨q', ?_, hsifted.trans hsifted', fun hdown => hmended ?_, fun hordered => ?_⟩
        · rw [if_neg hsp, hswap, ok_bind]
          exact hrest
        · rw [hdue]
          exact hdown.step hchild.1 hchild.2 hsmall hmin
        · have hup := hordered s hchild.1
          rw [hchild.2] at hup
          exact absurd hup (not_le.mpr hsmall)

/-- **Mending a hole**: sifting up and then down from the same slot, of which one moves
nothing. -/
theorem mend_ok (h : q.Exact) {p : ℕ} (hp : p < q._heap.length) (hhole : Hole q.due p) :
    ∃ q₁ q', q.sift_up p = .ok q₁ ∧ q₁.sift_down p = .ok q' ∧ Sifted q q' ∧ Ordered q'.due ∧
      (q₁ = q ∨ q' = q₁) := by
  obtain ⟨q₁, hup, hsifted, hmended⟩ := siftUpLoop_ok h hp (Nat.lt_succ_self p)
  have hlen := hsifted.length
  obtain ⟨q', hdown, hsifted', hordered, hstill⟩ := siftDownLoop_ok (p := p)
    hsifted.exact rfl (by omega) (by omega : _ < p + (q₁._heap.length + 1))
  refine ⟨q₁, q', hup, hdown, hsifted.trans hsifted', ?_⟩
  rcases hmended hhole with hdone | ⟨rfl, hle⟩
  · exact ⟨hordered (hdone.down p), .inr (hstill hdone)⟩
  · exact ⟨hordered (hhole.down hle), .inl rfl⟩

/-! ## Changing one slot -/

section Slots

variable {look : K → Option ℕ} {heap : List (Entry K T V)} {e x : Entry K T V} {i : ℕ}

omit [DecidableEq K] [LinearOrder T] in
theorem Indexes.slot_eq (h : Indexes look heap) {j : ℕ} {y : Entry K T V}
    (he : heap[i]? = some e) (hy : heap[j]? = some y) (hkey : y.key = e.key) : j = i := by
  have hi := (h e.key i).mpr ⟨e, he, rfl⟩
  have hj := (h e.key j).mpr ⟨y, hy, hkey⟩
  exact Option.some.inj (hj.symm.trans hi)

omit [DecidableEq K] [LinearOrder T] in
theorem Indexes.congr {look' : K → Option ℕ} (h : Indexes look heap)
    (he : ∀ k, look' k = look k) : Indexes look' heap := by
  intro k i
  rw [he k]
  exact h k i

omit [LinearOrder T] in
/-- A new entry at the end. -/
theorem Indexes.append (h : Indexes look heap) (hnew : look x.key = none) :
    Indexes (fun k => if k = x.key then some heap.length else look k) (heap ++ [x]) := by
  have hfresh : ∀ (j : ℕ) (y : Entry K T V), heap[j]? = some y → y.key ≠ x.key := by
    intro j y hy hkey
    rw [← hkey, (h y.key j).mpr ⟨y, hy, rfl⟩] at hnew
    cases hnew
  intro k j
  dsimp only
  rcases Nat.lt_trichotomy j heap.length with hj | rfl | hj
  · rw [List.getElem?_append_left hj]
    by_cases hk : k = x.key
    · rw [if_pos hk]
      refine iff_of_false (fun he => ?_) (fun ⟨y, hy, hkey⟩ => hfresh j y hy (hkey.trans hk))
      rw [Option.some.inj he] at hj
      exact absurd hj (Nat.lt_irrefl _)
    · rw [if_neg hk]
      exact h k j
  · rw [List.getElem?_concat_length]
    by_cases hk : k = x.key
    · rw [if_pos hk]
      exact iff_of_true rfl ⟨x, rfl, hk.symm⟩
    · rw [if_neg hk]
      refine iff_of_false (fun he => ?_) (fun ⟨y, hy, hkey⟩ => hk ?_)
      · obtain ⟨y, hy, -⟩ := (h k heap.length).mp he
        rw [List.getElem?_eq_none (Nat.le_refl _)] at hy
        cases hy
      · rw [← hkey, Option.some.inj hy]
  · have hnone : (heap ++ [x])[j]? = none := List.getElem?_eq_none (by simp; omega)
    refine iff_of_false (fun he => ?_) (fun ⟨y, hy, _⟩ => ?_)
    · split at he
      · rw [Option.some.inj he] at hj
        exact absurd hj (Nat.lt_irrefl _)
      · obtain ⟨y, hy, -⟩ := (h k j).mp he
        rw [List.getElem?_eq_none hj.le] at hy
        cases hy
    · rw [hnone] at hy
      cases hy

omit [LinearOrder T] in
/-- The last entry is taken away. -/
theorem Indexes.dropLast (h : Indexes look (heap ++ [x])) :
    Indexes (fun k => if k = x.key then none else look k) heap := by
  have hlast : (heap ++ [x])[heap.length]? = some x := List.getElem?_concat_length
  intro k j
  by_cases hk : k = x.key
  · simp only [hk, if_true]
    refine iff_of_false (fun he => by cases he) ?_
    rintro ⟨y, hy, hkey⟩
    obtain ⟨hj, -⟩ := List.getElem?_eq_some_iff.mp hy
    have := h.slot_eq hlast (by rw [List.getElem?_append_left hj]; exact hy) hkey
    omega
  · simp only [hk, if_false]
    rw [h k j]
    constructor
    · rintro ⟨y, hy, hkey⟩
      have hj : j < heap.length := by
        obtain ⟨hj, -⟩ := List.getElem?_eq_some_iff.mp hy
        have hne : j ≠ heap.length := by
          rintro rfl
          rw [hlast] at hy
          exact hk (by rw [← hkey, Option.some.inj hy])
        simp only [List.length_append, List.length_singleton] at hj
        omega
      rw [List.getElem?_append_left hj] at hy
      exact ⟨y, hy, hkey⟩
    · rintro ⟨y, hy, hkey⟩
      obtain ⟨hj, -⟩ := List.getElem?_eq_some_iff.mp hy
      exact ⟨y, by rw [List.getElem?_append_left hj]; exact hy, hkey⟩

omit [LinearOrder T] in
/-- The entry `e` in slot `i` is overwritten by `x`, whose key is that of `e` or new. -/
theorem Indexes.set (h : Indexes look heap) (he : heap[i]? = some e)
    (hx : x.key = e.key ∨ look x.key = none) :
    Indexes (fun k => if k = x.key then some i else if k = e.key then none else look k)
      (heap.set i x) := by
  obtain ⟨hi, -⟩ := List.getElem?_eq_some_iff.mp he
  -- Nowhere else is there an entry with one of the two keys.
  have hother : ∀ (j : ℕ) (y : Entry K T V), heap[j]? = some y →
      y.key = x.key ∨ y.key = e.key → j = i := by
    intro j y hy hkey
    rcases hkey with hkey | hkey
    · rcases hx with hx | hx
      · exact h.slot_eq he hy (hkey.trans hx)
      · rw [← hkey, (h y.key j).mpr ⟨y, hy, rfl⟩] at hx
        cases hx
    · exact h.slot_eq he hy hkey
  intro k j
  dsimp only
  rw [List.getElem?_set]
  by_cases hij : i = j
  · subst hij
    rw [if_pos rfl, if_pos hi]
    by_cases hk : k = x.key
    · rw [if_pos hk]
      exact iff_of_true rfl ⟨x, rfl, hk.symm⟩
    · rw [if_neg hk]
      refine iff_of_false (fun hl => ?_) (fun ⟨y, hy, hkey⟩ => hk ?_)
      · split at hl
        · cases hl
        · rename_i hke
          obtain ⟨y, hy, hkey⟩ := (h k i).mp hl
          rw [he] at hy
          exact hke (by rw [← hkey, Option.some.inj hy])
      · rw [← hkey, Option.some.inj hy]
  · rw [if_neg hij]
    by_cases hk : k = x.key
    · rw [if_pos hk]
      refine iff_of_false (fun hl => hij (Option.some.inj hl)) (fun ⟨y, hy, hkey⟩ => ?_)
      exact hij (hother j y hy (Or.inl (hkey.trans hk))).symm
    · rw [if_neg hk]
      by_cases hke : k = e.key
      · rw [if_pos hke]
        refine iff_of_false (fun hl => by cases hl) (fun ⟨y, hy, hkey⟩ => ?_)
        exact hij (hother j y hy (Or.inr (hkey.trans hke))).symm
      · rw [if_neg hke]
        exact h k j

end Slots

/-! ## The operations -/

/-- **The representation invariant.** -/
structure Wf (q : DelayQueue K T V) : Prop where
  exact : q.Exact
  ordered : Ordered q.due

theorem wf_new : (new : DelayQueue K T V).Wf := by
  refine ⟨fun k i => ?_, fun i _ => ?_⟩
  · exact iff_of_false (fun h => by cases h) (fun ⟨e, he, _⟩ => by cases he)
  · exact le_refl _

/-- Overwriting slot `i` and mending the hole. -/
theorem overwrite_ok {q : DelayQueue K T V} (h : q.Wf) {i : ℕ} {e x : Entry K T V}
    (he : q._heap[i]? = some e) (hx : x.key = e.key ∨ OrderedDict.lookup q._index x.key = none)
    {index : OrderedDict K ℕ}
    (hindex : ∀ k, OrderedDict.lookup index k = if k = x.key then some i
      else if k = e.key then none else OrderedDict.lookup q._index k) :
    ∃ q₁ q', sift_up ⟨q._heap.set i x, index⟩ i = .ok q₁ ∧ q₁.sift_down i = .ok q' ∧ q'.Wf ∧
      ∃ rest, q._heap.Perm (e :: rest) ∧ q'._heap.Perm (x :: rest) := by
  obtain ⟨hi, rfl⟩ := List.getElem?_eq_some_iff.mp he
  have hexact : Exact (⟨q._heap.set i x, index⟩ : DelayQueue K T V) :=
    (h.exact.set he hx).congr hindex
  have hhole : Hole (due (⟨q._heap.set i x, index⟩ : DelayQueue K T V)) i := by
    refine h.ordered.hole (fun j hj => ?_)
    simp only [due, List.getElem?_set_ne (Ne.symm hj)]
  obtain ⟨q₁, q', hup, hdown, hsifted, hordered, -⟩ := mend_ok hexact (by simpa using hi) hhole
  refine ⟨q₁, q', hup, hdown, ⟨hsifted.exact, hordered⟩, q._heap.eraseIdx i, ?_, ?_⟩
  · exact (List.getElem_cons_eraseIdx_perm hi).symm
  · exact hsifted.perm.trans (List.set_perm_cons_eraseIdx hi x)

theorem replace_ok (h : q.Wf) {key : K} {i : ℕ} (hk : OrderedDict.lookup q._index key = some i)
    (due_at : T) (payload : V) :
    ∃ q', q.replace key due_at payload = .ok q' ∧ q'.Wf ∧
      ∃ e rest, e.key = key ∧ q._heap.Perm (e :: rest) ∧
        q'._heap.Perm (⟨key, due_at, payload⟩ :: rest) := by
  obtain ⟨e, he, rfl⟩ := (h.exact key i).mp hk
  obtain ⟨hi, -⟩ := List.getElem?_eq_some_iff.mp he
  -- The key stays where it was, so the index needs no change.
  have hindex : ∀ k, OrderedDict.lookup q._index k = if k = e.key then some i
      else if k = e.key then none else OrderedDict.lookup q._index k := by
    intro k
    by_cases hke : k = e.key
    · rw [if_pos hke, hke, hk]
    · rw [if_neg hke, if_neg hke]
  obtain ⟨q₁, q', hup, hdown, hwf, rest, hperm, hperm'⟩ :=
    overwrite_ok (x := ⟨e.key, due_at, payload⟩) h he (Or.inl rfl) hindex
  refine ⟨q', ?_, hwf, e, rest, rfl, hperm, hperm'⟩
  simp only [replace, hk, setitem_ok hi, ok_bind, hup, hdown]

omit [DecidableEq K] in
/-- Taking the last entry away leaves a heap. -/
theorem ordered_prefix {heap : List (Entry K T V)} {x : Entry K T V}
    {index index' : OrderedDict K ℕ}
    (h : Ordered (due (⟨heap ++ [x], index⟩ : DelayQueue K T V))) :
    Ordered (due (⟨heap, index'⟩ : DelayQueue K T V)) := by
  rw [ordered_iff] at h ⊢
  intro i a b hi ha hb
  have hlonger : ∀ (j : ℕ) (y : Entry K T V), heap[j]? = some y → (heap ++ [x])[j]? = some y := by
    intro j y hy
    obtain ⟨hj, -⟩ := List.getElem?_eq_some_iff.mp hy
    rw [List.getElem?_append_left hj]
    exact hy
  exact h i a b hi (hlonger _ _ ha) (hlonger _ _ hb)

/-- **Removing a slot** returns its entry and keeps all others. -/
theorem remove_at_ok (h : q.Wf) {i : ℕ} {e : Entry K T V} (he : q._heap[i]? = some e) :
    ∃ q', q.remove_at i = .ok (e, q') ∧ q'.Wf ∧ q._heap.Perm (e :: q'._heap) := by
  obtain ⟨heap, index⟩ := q
  obtain ⟨hi, -⟩ := List.getElem?_eq_some_iff.mp he
  dsimp only at he hi
  -- Write the heap as what is left and the last entry.
  obtain ⟨front, last, rfl⟩ : ∃ front last, heap = front ++ [last] :=
    ⟨heap.dropLast, heap.getLast (List.ne_nil_of_length_pos (by omega)),
      (List.dropLast_append_getLast _).symm⟩
  have hkey := h.exact.lookup he
  dsimp only at hkey
  have hfront : Indexes (fun k => if k = last.key then none else OrderedDict.lookup index k) front :=
    Indexes.dropLast h.exact
  have hlast : OrderedDict.lookup index last.key = some front.length :=
    h.exact.lookup List.getElem?_concat_length
  simp only [List.length_append, List.length_singleton] at hi
  by_cases hlt : i < front.length
  · have he' : front[i]? = some e := by
      rw [List.getElem?_append_left hlt] at he
      exact he
    have hne : last.key ≠ e.key := by
      intro hkeys
      rw [hkeys, hkey] at hlast
      have := Option.some.inj hlast
      omega
    have hwf : Wf (⟨front, OrderedDict.erase index last.key⟩ : DelayQueue K T V) :=
      ⟨hfront.congr (OrderedDict.lookup_erase index last.key), ordered_prefix h.ordered⟩
    have hindex : ∀ k, OrderedDict.lookup
        (OrderedDict.set (OrderedDict.erase index e.key) last.key i) k
        = if k = last.key then some i else if k = e.key then none
          else OrderedDict.lookup (OrderedDict.erase index last.key) k := by
      intro k
      rw [OrderedDict.lookup_set, OrderedDict.lookup_erase, OrderedDict.lookup_erase]
      by_cases hk : k = last.key
      · rw [if_pos hk, if_pos hk]
      · rw [if_neg hk, if_neg hk, if_neg hk]
    have hfree : OrderedDict.lookup (OrderedDict.erase index last.key) last.key = none := by
      rw [OrderedDict.lookup_erase, if_pos rfl]
    obtain ⟨q₁, q', hup, hdown, hwf', rest, hperm, hperm'⟩ :=
      overwrite_ok hwf he' (Or.inr hfree) hindex
    refine ⟨q', ?_, hwf', ?_⟩
    · simp only [remove_at, item_ok he, ok_bind, popLast_append, hkey, Option.isNone_some,
        Bool.false_eq_true, if_false, hlt, if_true, setitem_ok hlt, hup, hdown]
      rfl
    · have hmoved : (front ++ [last]).Perm (last :: e :: rest) :=
        (List.perm_append_singleton last front).trans (hperm.cons last)
      have hfilled : (e :: last :: rest).Perm (e :: q'._heap) := hperm'.symm.cons e
      exact (hmoved.trans (List.Perm.swap e last rest)).trans hfilled
  · have hieq : i = front.length := by omega
    subst hieq
    have helast : e = last := by
      rw [List.getElem?_concat_length] at he
      exact (Option.some.inj he).symm
    subst helast
    refine ⟨⟨front, OrderedDict.erase index e.key⟩, ?_, ⟨?_, ordered_prefix h.ordered⟩, ?_⟩
    · simp only [remove_at, item_ok he, ok_bind, popLast_append, hkey, Option.isNone_some,
        Bool.false_eq_true, if_false, hlt]
      rfl
    · exact hfront.congr (OrderedDict.lookup_erase index e.key)
    · exact List.perm_append_singleton e front

/-- **Pushing** an entry replaces the one with its key, if there is one. -/
theorem push_ok (h : q.Wf) (key : K) (due_at : T) (payload : V) :
    ∃ q', q.push key due_at payload = .ok q' ∧ q'.Wf ∧
      ∃ old rest, (∀ e ∈ old, e.key = key) ∧ q._heap.Perm (old ++ rest) ∧
        q'._heap.Perm (⟨key, due_at, payload⟩ :: rest) := by
  cases hk : OrderedDict.lookup q._index key with
  | some i =>
      obtain ⟨q', hreplace, hwf, e, rest, hkey, hperm, hperm'⟩ := replace_ok h hk due_at payload
      refine ⟨q', ?_, hwf, [e], rest, ?_, hperm, hperm'⟩
      · rw [push, contains, hk]
        exact hreplace
      · intro e' he'
        rw [List.mem_singleton.mp he']
        exact hkey
  | none =>
      have hlength : (q._heap ++ [(⟨key, due_at, payload⟩ : Entry K T V)]).length - 1
          = q._heap.length := by simp
      have hexact : Exact (⟨q._heap ++ [⟨key, due_at, payload⟩],
          OrderedDict.set q._index key q._heap.length⟩ : DelayQueue K T V) :=
        (h.exact.append (x := ⟨key, due_at, payload⟩) hk).congr
          (fun k => OrderedDict.lookup_set q._index key k q._heap.length)
      obtain ⟨q', hup, hsifted, hmended⟩ := siftUpLoop_ok hexact (p := q._heap.length)
        (by simp) (Nat.lt_succ_self _)
      -- The new slot is the last one: it is a hole without children.
      have hsame : ∀ i, i ≠ q._heap.length → due (⟨q._heap ++ [⟨key, due_at, payload⟩],
          OrderedDict.set q._index key q._heap.length⟩ : DelayQueue K T V) i = q.due i := by
        intro i hi
        rcases Nat.lt_or_ge i q._heap.length with hlt | hge
        · simp only [due, List.getElem?_append_left hlt]
        · rw [due_of_length_le hge, due_of_length_le (by simp; omega)]
      have hup' : Up (due (⟨q._heap ++ [⟨key, due_at, payload⟩],
          OrderedDict.set q._index key q._heap.length⟩ : DelayQueue K T V)) q._heap.length := by
        have hhole := h.ordered.hole hsame
        refine ⟨fun i hi hne => ?_, hhole.skip⟩
        by_cases hpar : parent i = q._heap.length
        · have hlt : q._heap.length < i := hpar ▸ parent_lt hi
          rw [due_of_length_le (i := i) (by simp; omega)]
          exact le_top
        · exact hhole.edges i hi hne hpar
      have hordered : Ordered q'.due := by
        rcases hmended hup'.hole with hdone | ⟨rfl, hle⟩
        · exact hdone
        · exact hup'.done hle
      refine ⟨q', ?_, ⟨hsifted.exact, hordered⟩, [], q._heap, ?_, .refl _, ?_⟩
      · rw [push, contains, hk]
        simp only [Option.isSome_none, Bool.false_eq_true, if_false, hlength]
        exact hup
      · exact fun e he => absurd he List.not_mem_nil
      · exact hsifted.perm.trans (List.perm_append_singleton _ _)

/-- **Popping** returns an entry that is due no later than any other. -/
theorem pop_ok (h : q.Wf) {e : Entry K T V} (he : q.peek = some e) :
    ∃ q', q.pop = .ok (e, q') ∧ q'.Wf ∧ q._heap.Perm (e :: q'._heap) := by
  have hhead : q._heap[0]? = some e := by
    rw [← List.head?_eq_getElem?]
    exact he
  have hne : q._heap.isEmpty = false := by
    cases hheap : q._heap with
    | nil =>
        rw [hheap] at hhead
        cases hhead
    | cons => rfl
  rw [pop, hne]
  exact remove_at_ok h hhead

theorem peek_min (h : q.Wf) {e e' : Entry K T V} (he : q.peek = some e) (he' : e' ∈ q._heap) :
    e.due_at ≤ e'.due_at := by
  have hhead : q._heap[0]? = some e := by
    rw [← List.head?_eq_getElem?]
    exact he
  obtain ⟨i, hi⟩ := List.mem_iff_getElem?.mp he'
  have hroot := h.ordered.root_le i
  rw [due_of_getElem? hhead, due_of_getElem? hi] at hroot
  exact WithTop.coe_le_coe.mp hroot

theorem pop_empty (h : q.peek = none) :
    q.pop = .error (.IndexError "pop from an empty DelayQueue") := by
  have hnil : q._heap = [] := List.head?_eq_none_iff.mp h
  rw [pop, hnil]
  rfl

/-- **Cancelling** a key that is queued removes its entry. -/
theorem cancel_ok (h : q.Wf) {key : K} {i : ℕ} (hk : OrderedDict.lookup q._index key = some i) :
    ∃ e q', q.cancel key = .ok (some e, q') ∧ e.key = key ∧ q'.Wf ∧
      q._heap.Perm (e :: q'._heap) := by
  obtain ⟨e, he, hkey⟩ := (h.exact key i).mp hk
  obtain ⟨q', hremove, hwf, hperm⟩ := remove_at_ok h he
  refine ⟨e, q', ?_, hkey, hwf, hperm⟩
  simp only [cancel, hk, hremove, ok_bind]
  rfl

theorem cancel_absent {key : K} (hk : OrderedDict.lookup q._index key = none) :
    q.cancel key = .ok (none, q) := by
  simp only [cancel, hk]

/-- What the loop of `pop_due` takes from `q`, having taken `taken` entries before,
when it leaves `q'`. -/
structure Drained (q q' : DelayQueue K T V) (now : T) (limit : Option ℤ) (taken : ℕ)
    (drained : List (Entry K T V)) : Prop where
  wf : q'.Wf
  perm : q._heap.Perm (drained ++ q'._heap)
  due : ∀ e ∈ drained, e.due_at ≤ now
  sorted : drained.Pairwise (fun e e' => e.due_at ≤ e'.due_at)
  earliest : ∀ e ∈ drained, ∀ e' ∈ q'._heap, e.due_at ≤ e'.due_at
  capped : ∀ n, limit = some n → drained = [] ∨ (taken + drained.length : ℤ) ≤ n
  ended : (∀ e ∈ q'._heap, now < e.due_at) ∨
    ∃ n, limit = some n ∧ n ≤ (taken + drained.length : ℤ)

/-- A loop that takes nothing, because nothing is due or the cap is reached. -/
theorem Drained.nil (h : q.Wf) {now : T} {limit : Option ℤ} {taken : ℕ}
    (hend : (∀ e ∈ q._heap, now < e.due_at) ∨ ∃ n, limit = some n ∧ n ≤ (taken : ℤ)) :
    Drained q q now limit taken [] := by
  refine ⟨h, .refl _, ?_, .nil, ?_, fun n _ => Or.inl rfl, ?_⟩
  · exact fun e he => absurd he List.not_mem_nil
  · exact fun e he => absurd he List.not_mem_nil
  · simpa using hend

/-- One round: the earliest entry is popped, and the loop goes on from what is left. -/
theorem Drained.cons {q₁ : DelayQueue K T V} {now : T} {limit : Option ℤ} {taken : ℕ}
    {head : Entry K T V} {drained : List (Entry K T V)}
    (hdue : head.due_at ≤ now) (hroom : ∀ n, limit = some n → (taken : ℤ) < n)
    (hmin : ∀ e ∈ q._heap, head.due_at ≤ e.due_at) (hperm : q._heap.Perm (head :: q₁._heap))
    (hrest : Drained q₁ q' now limit (taken + 1) drained) :
    Drained q q' now limit taken (head :: drained) := by
  have hlater : ∀ e ∈ drained ++ q'._heap, head.due_at ≤ e.due_at := fun e he =>
    hmin e (hperm.mem_iff.mpr (List.mem_cons_of_mem _ (hrest.perm.mem_iff.mpr he)))
  refine ⟨hrest.wf, hperm.trans (hrest.perm.cons head), ?_, ?_, ?_, fun n hn => Or.inr ?_, ?_⟩
  · exact List.forall_mem_cons.mpr ⟨hdue, hrest.due⟩
  · exact List.pairwise_cons.mpr ⟨fun e he => hlater e (List.mem_append_left _ he), hrest.sorted⟩
  · refine List.forall_mem_cons.mpr ⟨fun e he => hlater e (List.mem_append_right _ he), ?_⟩
    exact hrest.earliest
  · have hhead := hroom n hn
    rcases hrest.capped n hn with rfl | hle
    · simp only [List.length_cons, List.length_nil]
      omega
    · simp only [List.length_cons]
      push_cast at hle ⊢
      omega
  · refine hrest.ended.imp_right (fun ⟨n, hn, hle⟩ => ⟨n, hn, ?_⟩)
    simp only [List.length_cons]
    push_cast at hle ⊢
    omega

/-- **The drain** terminates, and takes the earliest due entries as far as the cap
goes. -/
theorem popDueLoop_ok (h : q.Wf) (now : T) (limit : Option ℤ) {rounds : ℕ}
    (hrounds : q._heap.length < rounds) (taken : List (Entry K T V)) :
    ∃ drained q', popDueLoop now limit rounds q taken = .ok (taken ++ drained, q') ∧
      Drained q q' now limit taken.length drained := by
  induction rounds generalizing q taken with
  | zero => omega
  | succ rounds ih =>
      unfold popDueLoop
      split
      · rename_i hheap
        refine ⟨[], q, by rw [List.append_nil], .nil h (Or.inl fun e he => ?_)⟩
        rw [hheap] at he
        cases he
      · rename_i head tail hheap
        have hpeek : q.peek = some head := by rw [peek, hheap]; rfl
        have hmin : ∀ e ∈ q._heap, head.due_at ≤ e.due_at := fun e he => peek_min h hpeek he
        split
        · rename_i hdue
          split
          · rename_i hcap
            rw [Option.any_eq_true] at hcap
            obtain ⟨n, hn, hle⟩ := hcap
            exact ⟨[], q, by rw [List.append_nil],
              .nil h (Or.inr ⟨n, hn, of_decide_eq_true hle⟩)⟩
          -- There is room for one more: it is popped, and the rest is by induction.
          · rename_i hroom
            obtain ⟨q₁, hpop, hwf, hperm⟩ := pop_ok h hpeek
            have hlen := hperm.length_eq
            simp only [List.length_cons] at hlen
            obtain ⟨drained, q', hloop, hdrained⟩ := ih hwf (by omega) (taken ++ [head])
            rw [List.length_append, List.length_singleton] at hdrained
            refine ⟨head :: drained, q', ?_, .cons hdue (fun n hn => ?_) hmin hperm hdrained⟩
            · rw [hpop, ok_bind]
              simpa using hloop
            · by_contra hle
              apply hroom
              rw [hn, Option.any_some]
              exact decide_eq_true (not_lt.mp hle)
        · rename_i hlate
          refine ⟨[], q, by rw [List.append_nil], .nil h (Or.inl fun e he => ?_)⟩
          exact lt_of_lt_of_le (not_le.mp hlate) (hmin e he)

/-! ## Every reachable queue -/

/-- A call that may change the queue. -/
inductive Operation (K T V : Type) where
  | push (key : K) (due_at : T) (payload : V)
  | pop
  | cancel (key : K)
  | pop_due (now : T) (limit : Option ℤ)

/-- The queue that a call leaves, or what it raises. -/
def perform (q : DelayQueue K T V) : Operation K T V → Except LookupError (DelayQueue K T V)
  | .push key due_at payload => q.push key due_at payload
  | .pop => (q.pop).map Prod.snd
  | .cancel key => (q.cancel key).map Prod.snd
  | .pop_due now limit => (q.pop_due now limit).map Prod.snd

/-- The queue after a call; the only exception is raised before anything changes. -/
def after (q : DelayQueue K T V) (op : Operation K T V) : DelayQueue K T V :=
  match q.perform op with
  | .ok q' => q'
  | .error _ => q

/-- The queues that calls lead to from the empty one. -/
def Reachable : DelayQueue K T V → Prop :=
  Lts.Reach (· = new) (fun q op q' => q.after op = q')

/-- Every call keeps the invariant, and only `pop` on an empty queue raises. -/
theorem perform_ok (h : q.Wf) (op : Operation K T V) :
    (∃ q', q.perform op = .ok q' ∧ q'.Wf) ∨ (op = .pop ∧ q._heap = []) := by
  cases op with
  | push key due_at payload =>
      obtain ⟨q', hpush, hwf, -⟩ := push_ok h key due_at payload
      exact Or.inl ⟨q', hpush, hwf⟩
  | pop =>
      cases hpeek : q.peek with
      | none => exact Or.inr ⟨rfl, List.head?_eq_none_iff.mp hpeek⟩
      | some e =>
          obtain ⟨q', hpop, hwf, -⟩ := pop_ok h hpeek
          exact Or.inl ⟨q', by rw [perform, hpop]; rfl, hwf⟩
  | cancel key =>
      cases hk : OrderedDict.lookup q._index key with
      | none => exact Or.inl ⟨q, by rw [perform, cancel_absent hk]; rfl, h⟩
      | some i =>
          obtain ⟨e, q', hcancel, -, hwf, -⟩ := cancel_ok h hk
          exact Or.inl ⟨q', by rw [perform, hcancel]; rfl, hwf⟩
  | pop_due now limit =>
      obtain ⟨drained, q', hdrain, hdrained⟩ := popDueLoop_ok h now limit (Nat.lt_succ_self _) []
      exact Or.inl ⟨q', by rw [perform, pop_due, hdrain]; rfl, hdrained.wf⟩

theorem wf_after (h : q.Wf) (op : Operation K T V) : (q.after op).Wf := by
  unfold after
  rcases perform_ok h op with ⟨q', hok, hwf⟩ | ⟨rfl, hnil⟩
  · rw [hok]
    exact hwf
  · have hraise : q.perform .pop = .error (.IndexError "pop from an empty DelayQueue") := by
      rw [perform, pop_empty (List.head?_eq_none_iff.mpr hnil)]
      rfl
    rw [hraise]
    exact h

theorem Reachable.wf (h : q.Reachable) : q.Wf := by
  refine Lts.Reach.invariant (fun q hq => ?_) (fun q op q' _ hwf hstep => ?_) h
  · rw [hq]
    exact wf_new
  · rw [← hstep]
    exact wf_after hwf op

theorem reachable_foldl (ops : List (Operation K T V)) :
    (ops.foldl after (new : DelayQueue K T V)).Reachable := by
  have hstart : Reachable (new : DelayQueue K T V) := .start rfl
  exact Lts.Reach.foldl hstart ops

omit [LinearOrder T] in
/-- The index has as many entries as the heap. -/
theorem Exact.length_index (h : q.Exact) : q._index.rows.length = q._heap.length := by
  have hkeys : (OrderedDict.keys q._index).Perm (q._heap.map Entry.key) := by
    refine (List.perm_ext_iff_of_nodup q._index.nodup h.nodup).mpr (fun k => ?_)
    show k ∈ OrderedDict.keys q._index ↔ _
    rw [← OrderedDict.lookup_isSome, Option.isSome_iff_exists, List.mem_map]
    constructor
    · rintro ⟨i, hi⟩
      obtain ⟨e, he, hkey⟩ := (h k i).mp hi
      exact ⟨e, List.mem_iff_getElem?.mpr ⟨i, he⟩, hkey⟩
    · rintro ⟨e, he, rfl⟩
      obtain ⟨i, hi⟩ := List.mem_iff_getElem?.mp he
      exact ⟨i, h.lookup hi⟩
  have hlength := hkeys.length_eq
  simp only [OrderedDict.keys, List.length_map] at hlength
  exact hlength

/-- **Heap order and an exact index** after every sequence of calls, none of which
raises except `pop` on an empty queue. -/
theorem heap_ordered_index_exact (h : q.Reachable) :
    (∀ i x y, 0 < i → q._heap[(i - 1) / 2]? = some x → q._heap[i]? = some y →
      x.due_at ≤ y.due_at) ∧
    (∀ k i, OrderedDict.lookup q._index k = some i ↔ ∃ e, q._heap[i]? = some e ∧ e.key = k) ∧
    (q._heap.map Entry.key).Nodup ∧ q._index.rows.length = q._heap.length ∧
    (∀ op err, q.perform op = .error err → op = .pop ∧ q._heap = []) := by
  have hwf := h.wf
  refine ⟨ordered_iff.mp hwf.ordered, hwf.exact, hwf.exact.nodup, hwf.exact.length_index,
    fun op err herr => ?_⟩
  rcases perform_ok hwf op with ⟨q', hok, -⟩ | hpop
  · rw [hok] at herr
    cases herr
  · exact hpop

end DelayQueue

/-- Five pushes, one of them a rescheduling, and a cancellation from the middle. -/
def reschedule : List (DelayQueue.Operation String ℕ ℕ) :=
  [.push "a" 50 0, .push "b" 10 1, .push "c" 40 2, .push "d" 20 3, .push "a" 5 4, .cancel "b"]

theorem DelayQueue.heap_ordered_index_exact_rescheduled :
    ((reschedule.foldl DelayQueue.after .new)._heap.map Entry.key) = ["a", "d", "c"] ∧
    ∀ i x y, 0 < i → (reschedule.foldl DelayQueue.after .new)._heap[(i - 1) / 2]? = some x →
      (reschedule.foldl DelayQueue.after .new)._heap[i]? = some y → x.due_at ≤ y.due_at :=
  ⟨by decide +kernel,
    (DelayQueue.heap_ordered_index_exact (DelayQueue.reachable_foldl reschedule)).1⟩

/-! ## The queue as a finite map -/

namespace DelayQueue

variable {K T V : Type} [DecidableEq K] {q q' : DelayQueue K T V}

/-- What is queued under a key. -/
def toMap (q : DelayQueue K T V) (k : K) : Option (T × V) :=
  (q._heap.find? (fun e => e.key = k)).map (fun e => (e.due_at, e.payload))

theorem toMap_eq_some (h : q.Exact) {k : K} {d : T} {v : V} :
    q.toMap k = some (d, v) ↔ ⟨k, d, v⟩ ∈ q._heap := by
  have hget : ∀ e, q._heap.find? (fun e => e.key = k) = some e ↔ e ∈ q._heap ∧ e.key = k :=
    fun e => Table.get_eq_some (t := (⟨q._heap, h.nodup⟩ : Table K (Entry K T V) Entry.key))
  unfold toMap
  rw [Option.map_eq_some_iff]
  constructor
  · rintro ⟨⟨k', d', v'⟩, he, hdv⟩
    obtain ⟨hmem, rfl⟩ := (hget _).mp he
    cases hdv
    exact hmem
  · intro hmem
    exact ⟨⟨k, d, v⟩, (hget _).mpr ⟨hmem, rfl⟩, rfl⟩

/-- The entry of a key is its entry. -/
theorem toMap_of_mem (h : q.Exact) {e : Entry K T V} (he : e ∈ q._heap) :
    q.toMap e.key = some (e.due_at, e.payload) :=
  (toMap_eq_some h).mpr he

theorem toMap_eq_none (h : q.Exact) {k : K} :
    q.toMap k = none ↔ OrderedDict.lookup q._index k = none := by
  rw [Option.eq_none_iff_forall_ne_some, Option.eq_none_iff_forall_ne_some]
  constructor
  · intro hnone i hi
    obtain ⟨e, he, rfl⟩ := (h k i).mp hi
    exact hnone _ (toMap_of_mem h (List.mem_iff_getElem?.mpr ⟨i, he⟩))
  · rintro hnone ⟨d, v⟩ hmap
    obtain ⟨i, hi⟩ := List.mem_iff_getElem?.mp ((toMap_eq_some h).mp hmap)
    exact hnone i (h.lookup hi)

/-- No two entries share a key. -/
theorem key_not_mem {e : Entry K T V} {rest : List (Entry K T V)} (h : q.Exact)
    (hperm : q._heap.Perm (e :: rest)) : ∀ e' ∈ rest, e'.key ≠ e.key := by
  have hnodup := (hperm.map Entry.key).nodup_iff.mp h.nodup
  rw [List.map_cons, List.nodup_cons] at hnodup
  intro e' he' hkey
  exact hnodup.1 (hkey ▸ List.mem_map_of_mem he')

/-- Taking an entry away removes its key and nothing else. -/
theorem toMap_removed (h : q.Exact) (h' : q'.Exact) {e : Entry K T V}
    (hperm : q._heap.Perm (e :: q'._heap)) : q'.toMap = Function.update q.toMap e.key none := by
  have hnot := key_not_mem h hperm
  funext k
  refine Option.ext (fun ⟨d, v⟩ => ?_)
  rw [toMap_eq_some h']
  by_cases hk : k = e.key
  · subst hk
    rw [Function.update_self]
    exact iff_of_false (fun hmem => hnot _ hmem rfl) (fun hnone => by cases hnone)
  · rw [Function.update_of_ne hk, toMap_eq_some h, hperm.mem_iff, List.mem_cons]
    exact ⟨Or.inr, fun hmem => hmem.resolve_left (fun he => hk (by rw [← he]))⟩

/-- Putting an entry in place of those with its key sets its key and nothing else. -/
theorem toMap_added (h : q.Exact) (h' : q'.Exact) {e : Entry K T V} {old rest : List (Entry K T V)}
    (hold : ∀ e' ∈ old, e'.key = e.key) (hperm : q._heap.Perm (old ++ rest))
    (hperm' : q'._heap.Perm (e :: rest)) :
    q'.toMap = Function.update q.toMap e.key (some (e.due_at, e.payload)) := by
  have hnot := key_not_mem h' hperm'
  funext k
  refine Option.ext (fun ⟨d, v⟩ => ?_)
  rw [toMap_eq_some h', hperm'.mem_iff, List.mem_cons]
  by_cases hk : k = e.key
  · subst hk
    rw [Function.update_self]
    constructor
    · rintro (he | hmem)
      · rw [← he]
      · exact absurd (rfl : (⟨e.key, d, v⟩ : Entry K T V).key = e.key) (hnot _ hmem)
    · intro he
      cases he
      exact Or.inl rfl
  · rw [Function.update_of_ne hk, toMap_eq_some h, hperm.mem_iff, List.mem_append]
    constructor
    · rintro (he | hmem)
      · exact absurd (by rw [← he]) hk
      · exact Or.inr hmem
    · rintro (hmem | hmem)
      · exact absurd (hold _ hmem) hk
      · exact Or.inr hmem

/-- The keys of the map are those of the entries. -/
theorem keys_toMap (h : q.Exact) :
    {k | q.toMap k ≠ none} = ((q._heap.map Entry.key).toFinset : Set K) := by
  ext k
  simp only [Set.mem_ofPred_eq, Finset.mem_coe, List.mem_toFinset, List.mem_map]
  constructor
  · intro hk
    obtain ⟨⟨d, v⟩, hmap⟩ := Option.ne_none_iff_exists'.mp hk
    exact ⟨_, (toMap_eq_some h).mp hmap, rfl⟩
  · rintro ⟨e, he, rfl⟩ hnone
    rw [toMap_of_mem h he] at hnone
    cases hnone

variable [LinearOrder T]

/-- An entry of the map that is due no later than any other. -/
def Earliest (m : K → Option (T × V)) (e : Entry K T V) : Prop :=
  m e.key = some (e.due_at, e.payload) ∧ ∀ k d v, m k = some (d, v) → e.due_at ≤ d

theorem earliest_of_peek (h : q.Wf) {e : Entry K T V} (he : q.peek = some e) :
    Earliest q.toMap e := by
  refine ⟨toMap_of_mem h.exact (List.mem_of_mem_head? he), fun k d v hmap => ?_⟩
  exact peek_min h he ((toMap_eq_some h.exact).mp hmap)

theorem peek_eq_none_iff (h : q.Wf) : q.peek = none ↔ ∀ k, q.toMap k = none := by
  constructor
  · intro hnone k
    have hnil : q._heap = [] := List.head?_eq_none_iff.mp hnone
    simp [toMap, hnil]
  · intro hempty
    cases hpeek : q.peek with
    | none => rfl
    | some e =>
        have hsome := (earliest_of_peek h hpeek).1
        rw [hempty] at hsome
        cases hsome

/-- **A finite map with extract-min.** Whatever calls led to the queue: `push` sets
the entry of its key, `cancel` returns and removes the entry of its key or does
nothing, `peek` returns an earliest entry, `pop` returns and removes an earliest
entry and raises exactly on the empty map, and `len` and `in` are size and domain. -/
theorem queue_is_finite_map (h : q.Reachable) :
    (∀ key due_at payload, ∃ q', q.push key due_at payload = .ok q' ∧
      q'.toMap = Function.update q.toMap key (some (due_at, payload))) ∧
    (∀ key, q.toMap key = none → q.cancel key = .ok (none, q)) ∧
    (∀ key due_at payload, q.toMap key = some (due_at, payload) →
      ∃ q', q.cancel key = .ok (some ⟨key, due_at, payload⟩, q') ∧
        q'.toMap = Function.update q.toMap key none) ∧
    (q.peek = none ↔ ∀ k, q.toMap k = none) ∧
    (∀ e, q.peek = some e → Earliest q.toMap e) ∧
    ((∃ err, q.pop = .error err) ↔ ∀ k, q.toMap k = none) ∧
    (∀ e q', q.pop = .ok (e, q') → Earliest q.toMap e ∧
      q'.toMap = Function.update q.toMap e.key none) ∧
    {k | q.toMap k ≠ none}.Finite ∧ q.len = {k | q.toMap k ≠ none}.ncard ∧
    (∀ k, q.contains k = true ↔ q.toMap k ≠ none) := by
  have hwf := h.wf
  have hpeek := peek_eq_none_iff hwf
  refine ⟨fun key due_at payload => ?_, fun key hnone => ?_, fun key due_at payload hmap => ?_,
    hpeek, fun e he => earliest_of_peek hwf he, ⟨fun ⟨err, herr⟩ => ?_, fun hempty => ?_⟩,
    fun e q' hpop => ?_, ?_, ?_, fun k => ?_⟩
  · obtain ⟨q', hpush, hwf', old, rest, hold, hperm, hperm'⟩ := push_ok hwf key due_at payload
    exact ⟨q', hpush, toMap_added hwf.exact hwf'.exact hold hperm hperm'⟩
  · exact cancel_absent ((toMap_eq_none hwf.exact).mp hnone)
  · cases hk : OrderedDict.lookup q._index key with
    | none =>
        rw [(toMap_eq_none hwf.exact).mpr hk] at hmap
        cases hmap
    -- The entry that leaves the heap is the one that the map has for the key.
    | some i =>
        obtain ⟨e, q', hcancel, hkey, hwf', hperm⟩ := cancel_ok hwf hk
        have he := toMap_of_mem hwf.exact (hperm.mem_iff.mpr List.mem_cons_self)
        rw [hkey, hmap] at he
        have hentry : e = ⟨key, due_at, payload⟩ := by
          cases e
          cases hkey
          cases he
          rfl
        refine ⟨q', by rw [hcancel, hentry], ?_⟩
        rw [toMap_removed hwf.exact hwf'.exact hperm, hkey]
  · rw [← hpeek]
    cases hp : q.peek with
    | none => rfl
    | some e =>
        obtain ⟨q', hpop, -⟩ := pop_ok hwf hp
        rw [hpop] at herr
        cases herr
  · exact ⟨_, pop_empty (hpeek.mpr hempty)⟩
  · cases hp : q.peek with
    | none =>
        rw [pop_empty hp] at hpop
        cases hpop
    | some e₀ =>
        obtain ⟨q₀, hpop₀, hwf', hperm⟩ := pop_ok hwf hp
        rw [hpop₀] at hpop
        cases hpop
        exact ⟨earliest_of_peek hwf hp, toMap_removed hwf.exact hwf'.exact hperm⟩
  -- The domain of the map is the keys of the entries.
  · rw [keys_toMap hwf.exact]
    exact Finset.finite_toSet _
  · rw [keys_toMap hwf.exact, Set.ncard_coe_finset, List.toFinset_card_of_nodup hwf.exact.nodup,
      List.length_map]
    rfl
  · rw [contains, Ne, toMap_eq_none hwf.exact, Option.isSome_iff_ne_none]

theorem queue_is_finite_map_rescheduled :
    (reschedule.foldl after new).toMap "a" = some (5, 4) ∧
    (reschedule.foldl after new).toMap "b" = none ∧
    (reschedule.foldl after new).cancel "b" = .ok (none, reschedule.foldl after new) :=
  ⟨by decide +kernel, by decide +kernel,
    (queue_is_finite_map (reachable_foldl reschedule)).2.1 "b" (by decide +kernel)⟩

end DelayQueue

end Conductor
