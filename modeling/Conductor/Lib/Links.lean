/-
Doubly linked lists in a memory.

A memory is two functions, `next` and `prev`, from cells to cells that may be
missing. `Linked next prev l` says that the cells of `l`, in this order, are
linked both ways. Two operations change the links, taking a cell out and putting
one in; each is a few writes, and the lemmas below say which list the memory
holds after them. A walk follows one of the two functions from a cell to a cell
it stops at.
-/
import Mathlib.Data.List.Chain
import Mathlib.Data.List.Nodup
import Mathlib.Logic.Function.Basic

set_option autoImplicit false

namespace Links

variable {ι : Type}

/-- The cells of `l` are linked in this order, forwards and backwards. -/
def Linked (next prev : ι → Option ι) (l : List ι) : Prop :=
  l.IsChain (fun a b => next a = some b ∧ prev b = some a)

variable {next prev next' prev' : ι → Option ι}

/-- Read from the other end the links are those of the reversed list. -/
theorem Linked.reverse {l : List ι} (h : Linked next prev l) : Linked prev next l.reverse := by
  unfold Linked
  rw [List.isChain_reverse]
  exact h.imp (fun _ _ hlink => ⟨hlink.2, hlink.1⟩)

/-- A list is linked when its two parts are and the link between them is there. -/
theorem linked_append_cons {xs ys : List ι} {a b : ι} :
    Linked next prev (xs ++ a :: b :: ys) ↔
      Linked next prev (xs ++ [a]) ∧ (next a = some b ∧ prev b = some a) ∧
        Linked next prev (b :: ys) := by
  unfold Linked
  rw [List.isChain_split, List.isChain_cons_cons]

/-- Writes to other cells leave the links as they are: `next` is read at every cell
but the last, `prev` at every cell but the first. -/
theorem Linked.frame {l : List ι} (h : Linked next prev l)
    (hnext : ∀ a ∈ l.dropLast, next' a = next a) (hprev : ∀ b ∈ l.tail, prev' b = prev b) :
    Linked next' prev' l := by
  induction l with
  | nil => exact List.IsChain.nil
  | cons a l ih =>
      cases l with
      | nil => exact List.IsChain.singleton a
      | cons b l =>
          obtain ⟨hlink, hrest⟩ := List.isChain_cons_cons.mp h
          refine List.isChain_cons_cons.mpr ⟨⟨?_, ?_⟩, ?_⟩
          · rw [hnext a (by simp)]
            exact hlink.1
          · rw [hprev b (by simp)]
            exact hlink.2
          · refine ih hrest (fun c hc => hnext c ?_) (fun c hc => hprev c ?_)
            · rw [List.dropLast_cons_cons]
              exact List.mem_cons_of_mem _ hc
            · exact List.mem_cons_of_mem _ hc

variable [DecidableEq ι]

/-! ## Taking a cell out and putting one in -/

omit [DecidableEq ι] in
/-- What the distinctness of a list says about two neighbours in it. -/
theorem nodup_parts {xs ys : List ι} {a n b : ι} (h : (xs ++ a :: n :: b :: ys).Nodup) :
    (a ≠ n ∧ a ≠ b ∧ n ≠ b) ∧ (∀ i ∈ xs, i ≠ a ∧ i ≠ n ∧ i ≠ b) ∧
      (∀ i ∈ ys, i ≠ a ∧ i ≠ n ∧ i ≠ b) := by
  obtain ⟨-, hright, hacross⟩ := List.nodup_append.mp h
  simp only [List.nodup_cons, List.mem_cons, not_or] at hright
  obtain ⟨⟨han, hab, hays⟩, ⟨hnb, hnys⟩, hbys, -⟩ := hright
  refine ⟨⟨han, hab, hnb⟩, fun i hi => ⟨hacross i hi a ?_, hacross i hi n ?_, hacross i hi b ?_⟩,
    fun i hi => ⟨?_, ?_, ?_⟩⟩
  · simp
  · simp
  · simp
  · exact fun heq => hays (heq ▸ hi)
  · exact fun heq => hnys (heq ▸ hi)
  · exact fun heq => hbys (heq ▸ hi)

/-- Two writes do not touch a third cell. -/
theorem update_update_of_ne {f : ι → Option ι} {i j k : ι} {x y : Option ι} (hj : i ≠ j)
    (hk : i ≠ k) : Function.update (Function.update f j x) k y i = f i := by
  rw [Function.update_of_ne hk, Function.update_of_ne hj]

/-- The neighbours of a cell linked past it, and its own links cleared. -/
theorem Linked.unlink {xs ys : List ι} {a n b : ι}
    (h : Linked next prev (xs ++ a :: n :: b :: ys)) (hnodup : (xs ++ a :: n :: b :: ys).Nodup) :
    Linked (Function.update (Function.update next a (some b)) n none)
      (Function.update (Function.update prev b (some a)) n none) (xs ++ a :: b :: ys) := by
  obtain ⟨⟨han, hab, hnb⟩, hxs, hys⟩ := nodup_parts hnodup
  obtain ⟨hleft, -, hrest⟩ := linked_append_cons.mp h
  have hright : Linked next prev (b :: ys) := (List.isChain_cons_cons.mp hrest).2
  refine linked_append_cons.mpr ⟨?_, ⟨?_, ?_⟩, ?_⟩
  · -- Left of the gap only the last cell is written to, and there only its `next`.
    refine hleft.frame (fun i hi => ?_) (fun i hi => ?_)
    · rw [List.dropLast_concat] at hi
      exact update_update_of_ne (hxs i hi).1 (hxs i hi).2.1
    · rcases List.mem_append.mp (List.mem_of_mem_tail hi) with hi | hi
      · exact update_update_of_ne (hxs i hi).2.2 (hxs i hi).2.1
      · rw [List.mem_singleton.mp hi]
        exact update_update_of_ne hab han
  · rw [Function.update_of_ne han, Function.update_self]
  · rw [Function.update_of_ne hnb.symm, Function.update_self]
  · -- Right of it only the first cell is, and there only its `prev`.
    refine hright.frame (fun i hi => ?_) (fun i hi => ?_)
    · rcases List.mem_cons.mp (List.dropLast_subset _ hi) with rfl | hi
      · exact update_update_of_ne hab.symm hnb.symm
      · exact update_update_of_ne (hys i hi).1 (hys i hi).2.1
    · exact update_update_of_ne (hys i hi).2.2 (hys i hi).2.1

/-- A new cell between two linked ones. -/
theorem Linked.insert {xs ys : List ι} {a n b : ι}
    (h : Linked next prev (xs ++ a :: b :: ys)) (hnodup : (xs ++ a :: n :: b :: ys).Nodup) :
    Linked (Function.update (Function.update next n (some b)) a (some n))
      (Function.update (Function.update prev n (some a)) b (some n)) (xs ++ a :: n :: b :: ys) := by
  obtain ⟨⟨han, hab, hnb⟩, hxs, hys⟩ := nodup_parts hnodup
  obtain ⟨hleft, -, hright⟩ := linked_append_cons.mp h
  refine linked_append_cons.mpr ⟨?_, ⟨?_, ?_⟩, List.isChain_cons_cons.mpr ⟨⟨?_, ?_⟩, ?_⟩⟩
  · refine hleft.frame (fun i hi => ?_) (fun i hi => ?_)
    · rw [List.dropLast_concat] at hi
      exact update_update_of_ne (hxs i hi).2.1 (hxs i hi).1
    · rcases List.mem_append.mp (List.mem_of_mem_tail hi) with hi | hi
      · exact update_update_of_ne (hxs i hi).2.1 (hxs i hi).2.2
      · rw [List.mem_singleton.mp hi]
        exact update_update_of_ne han hab
  · rw [Function.update_self]
  · rw [Function.update_of_ne hnb, Function.update_self]
  · rw [Function.update_of_ne han.symm, Function.update_self]
  · rw [Function.update_self]
  · refine hright.frame (fun i hi => ?_) (fun i hi => ?_)
    · rcases List.mem_cons.mp (List.dropLast_subset _ hi) with rfl | hi
      · exact update_update_of_ne hnb.symm hab.symm
      · exact update_update_of_ne (hys i hi).2.1 (hys i hi).1
    · exact update_update_of_ne (hys i hi).2.1 (hys i hi).2.2

/-! ## Walks -/

/-- The cells from `start` on, up to `stop`, for at most a number of rounds. -/
def walk (step : ι → Option ι) (stop : ι) : ℕ → Option ι → Option (List ι)
  | 0, _ => none
  | _ + 1, none => some []
  | rounds + 1, some i =>
      if i = stop then some [] else (walk step stop rounds (step i)).map (i :: ·)

/-- A walk along linked cells visits the cells between its ends. -/
theorem Linked.walk {ids : List ι} {first last : ι} (h : Linked next prev (first :: (ids ++ [last])))
    (hlast : last ∉ ids) {rounds : ℕ} (hrounds : ids.length < rounds) :
    walk next last rounds (next first) = some ids := by
  induction ids generalizing first rounds with
  | nil =>
      obtain ⟨rounds, rfl⟩ := Nat.exists_eq_succ_of_ne_zero (Nat.ne_of_gt hrounds)
      obtain ⟨hlink, -⟩ := List.isChain_cons_cons.mp h
      rw [hlink.1, Links.walk, if_pos rfl]
  | cons i ids ih =>
      obtain ⟨rounds, rfl⟩ := Nat.exists_eq_succ_of_ne_zero (Nat.ne_of_gt (Nat.zero_lt_of_lt hrounds))
      obtain ⟨hlink, hrest⟩ := List.isChain_cons_cons.mp h
      have hne : i ≠ last := fun heq => hlast (heq ▸ List.mem_cons_self)
      rw [hlink.1, Links.walk, if_neg hne,
        ih hrest (fun hmem => hlast (List.mem_cons_of_mem _ hmem)) (Nat.lt_of_succ_lt_succ hrounds)]
      rfl

end Links
