/-
Keyset pagination.

Rows are listed by a key, the greatest first. A page holds at most `limit` rows
whose keys lie below a position, and the position of the next page is the key of
its last row, if more rows follow. Following the positions through a sequence of
tables, of which each has all keys of the one before, lists every row of the first
table once, whatever was inserted on the way (`follow_spec`).
-/
import Mathlib.Data.List.Sort
import Mathlib.Data.List.Perm.Basic
import Mathlib.Order.Lattice

set_option autoImplicit false

namespace Keyset

variable {κ ρ : Type} [LinearOrder κ] (key : ρ → κ)

/-- `ORDER BY key DESC`. -/
def newest (rows : List ρ) : List ρ := rows.insertionSort (fun a b => key b ≤ key a)

/-- Below a position; everything is below the start. -/
def below (position : Option κ) (r : ρ) : Bool := position.all (fun p => decide (key r < p))

/-- One page, and the position of the next one. -/
def page (limit : ℕ) (position : Option κ) (rows : List ρ) : List ρ × Option κ :=
  let found := (newest key (rows.filter (below key position))).take (limit + 1)
  if limit < found.length then (found.take limit, (found[limit - 1]?).map key) else (found, none)

/-- The rows of the first pages, and whether the last page is among them; the `k`-th
fetch reads the `k`-th table. -/
def follow (limit : ℕ) (tables : ℕ → List ρ) : ℕ → ℕ → Option κ → List ρ × Bool
  | 0, _, _ => ([], false)
  | rounds + 1, k, position =>
      match page key limit position (tables k) with
      | (items, none) => (items, true)
      | (items, some p) =>
          let rest := follow limit tables rounds (k + 1) (some p)
          (items ++ rest.1, rest.2)

/-! ## One page -/

variable {key} {limit : ℕ} {position : Option κ} {rows : List ρ}

theorem newest_perm (rows : List ρ) : (newest key rows).Perm rows := List.perm_insertionSort _ rows

/-- Rows with distinct keys are listed in strictly descending order. -/
theorem newest_sorted (h : (rows.map key).Nodup) :
    (newest key rows).Pairwise (fun a b => key b < key a) := by
  have hsorted : (newest key rows).Pairwise (fun a b => key b ≤ key a) :=
    List.pairwise_insertionSort _ rows
  have hdistinct : (newest key rows).Pairwise (fun a b => key a ≠ key b) :=
    List.pairwise_map.mp (((newest_perm rows).map key).nodup_iff.mpr h)
  exact (hsorted.and hdistinct).imp (fun hab => lt_of_le_of_ne hab.1 hab.2.symm)

theorem below_of_le {a b : ρ} (h : below key position a = true) (hle : key b ≤ key a) :
    below key position b = true := by
  rw [below, Option.all_eq_true] at h ⊢
  intro p hp
  exact decide_eq_true (hle.trans_lt (of_decide_eq_true (h p hp)))

theorem mem_found {r : ρ} :
    r ∈ newest key (rows.filter (below key position)) ↔ r ∈ rows ∧ below key position r = true := by
  rw [(newest_perm _).mem_iff, List.mem_filter]

/-- What a page is, with the rows that follow it. -/
structure PageOf (key : ρ → κ) (limit : ℕ) (position : Option κ) (rows : List ρ) (items : List ρ)
    (next : Option κ) : Prop where
  sorted : items.Pairwise (fun a b => key b < key a)
  found : ∀ r ∈ items, r ∈ rows ∧ below key position r = true
  /-- Without a next page nothing is left out. -/
  all : next = none → ∀ r ∈ rows, below key position r = true → r ∈ items
  /-- With one, what is left out is below its position. -/
  rest : ∀ p, next = some p → (∀ r ∈ items, p ≤ key r) ∧ (∃ r ∈ items, key r = p) ∧
    ∀ r ∈ rows, below key position r = true → r ∉ items → key r < p

/-- A list longer than `n` around its `n`-th element. -/
theorem exists_split {l : List ρ} {n : ℕ} (h : n < l.length) :
    ∃ front last back, l = front ++ last :: back ∧ front.length = n := by
  refine ⟨l.take n, l.get ⟨n, h⟩, l.drop (n + 1), ?_, ?_⟩
  · rw [List.get_eq_getElem, ← List.drop_eq_getElem_cons h, List.take_append_drop]
  · rw [List.length_take, Nat.min_eq_left (Nat.le_of_lt h)]

theorem page_spec (hlimit : 1 ≤ limit) (h : (rows.map key).Nodup) :
    PageOf key limit position rows (page key limit position rows).1
      (page key limit position rows).2 := by
  obtain ⟨n, rfl⟩ := Nat.exists_eq_add_of_le' hlimit
  have hsorted : (newest key (rows.filter (below key position))).Pairwise
      (fun a b => key b < key a) :=
    newest_sorted (h.sublist (List.filter_sublist.map key))
  have hmem : ∀ r, r ∈ newest key (rows.filter (below key position)) ↔
      r ∈ rows ∧ below key position r = true := fun r => mem_found
  unfold page
  generalize newest key (rows.filter (below key position)) = found at hsorted hmem
  by_cases hmore : n + 1 < found.length
  · -- The page ends at `last`, and at least one row follows.
    obtain ⟨front, last, back, rfl, hfront⟩ := exists_split (Nat.lt_of_succ_lt hmore)
    have hback : 1 ≤ back.length := by
      rw [List.length_append, List.length_cons] at hmore
      omega
    have hlength : n + 1 < ((front ++ last :: back).take (n + 1 + 1)).length := by
      rw [List.length_take, List.length_append, List.length_cons]
      omega
    have hitems : ((front ++ last :: back).take (n + 1 + 1)).take (n + 1) = front ++ [last] := by
      rw [List.take_take, Nat.min_eq_left (Nat.le_succ _), ← hfront, List.take_length_add_append]
      rfl
    have hlast : ((front ++ last :: back).take (n + 1 + 1))[n + 1 - 1]? = some last := by
      rw [Nat.add_sub_cancel, List.getElem?_take_of_lt (by omega), ← hfront,
        List.getElem?_append_right (Nat.le_refl _), Nat.sub_self]
      rfl
    rw [if_pos hlength, hitems, hlast]
    obtain ⟨hpre, hpost, hacross⟩ := List.pairwise_append.mp hsorted
    obtain ⟨hbelow, -⟩ := List.pairwise_cons.mp hpost
    refine ⟨?_, fun r hr => (hmem r).mp ?_, fun hnone => ?_, fun p hp => ?_⟩
    · refine List.pairwise_append.mpr ⟨hpre, List.pairwise_singleton _ _, fun a ha b hb => ?_⟩
      rw [List.mem_singleton.mp hb]
      exact hacross a ha last List.mem_cons_self
    · rcases List.mem_append.mp hr with hr | hr
      · exact List.mem_append_left _ hr
      · rw [List.mem_singleton.mp hr]
        exact List.mem_append_right _ List.mem_cons_self
    · cases hnone
    · cases hp
      refine ⟨fun r hr => ?_, ⟨last, by simp, rfl⟩, fun r hr hrange hout => ?_⟩
      · rcases List.mem_append.mp hr with hr | hr
        · exact (hacross r hr last List.mem_cons_self).le
        · rw [List.mem_singleton.mp hr]
      · -- A row that is left out comes after `last`.
        have hr' := (hmem r).mpr ⟨hr, hrange⟩
        simp only [List.mem_append, List.mem_cons, List.not_mem_nil, or_false, not_or] at hr' hout
        rcases hr' with hr' | hr' | hr'
        · exact absurd hr' hout.1
        · exact absurd hr' hout.2
        · exact hbelow r hr'
  · -- Everything fits on the page.
    have hfits : found.length ≤ n + 1 := Nat.le_of_not_lt hmore
    have hall : found.take (n + 1 + 1) = found :=
      List.take_of_length_le (hfits.trans (Nat.le_succ _))
    rw [hall, if_neg (Nat.not_lt.mpr hfits)]
    refine ⟨hsorted, fun r hr => (hmem r).mp hr, fun _ r hr hrange => (hmem r).mpr ⟨hr, hrange⟩,
      fun p hp => ?_⟩
    cases hp

/-- A page holds no more rows than it may. -/
theorem length_page_le (key : ρ → κ) (limit : ℕ) (position : Option κ) (rows : List ρ) :
    (page key limit position rows).1.length ≤ limit := by
  unfold page
  dsimp only
  split
  · rw [List.length_take]
    exact Nat.min_le_left _ _
  · exact Nat.le_of_not_lt (by assumption)

/-! ## All pages -/

/-- Every key of the one is a key of the other. -/
def Grows (key : ρ → κ) (rows rows' : List ρ) : Prop := ∀ r ∈ rows, ∃ r' ∈ rows', key r' = key r

variable {tables : ℕ → List ρ}

/-- Whatever becomes of the tables on the way, the rows come in strictly descending order,
all of them below where the following began. -/
theorem follow_descends (hlimit : 1 ≤ limit) (hnodup : ∀ k, ((tables k).map key).Nodup)
    (rounds k : ℕ) (position : Option κ) :
    (follow key limit tables rounds k position).1.Pairwise (fun a b => key b < key a) ∧
    ∀ r ∈ (follow key limit tables rounds k position).1,
      (∃ j, k ≤ j ∧ j < k + rounds ∧ r ∈ tables j) ∧ below key position r = true := by
  induction rounds generalizing k position with
  | zero => exact ⟨List.Pairwise.nil, fun r hr => absurd hr List.not_mem_nil⟩
  | succ rounds ih =>
      have hpage : PageOf key limit position (tables k) _ _ := page_spec hlimit (hnodup k)
      rw [follow]
      generalize page key limit position (tables k) = out at hpage
      obtain ⟨items, next⟩ := out
      cases next with
      | none =>
          exact ⟨hpage.sorted, fun r hr =>
            ⟨⟨k, Nat.le_refl k, by omega, (hpage.found r hr).1⟩, (hpage.found r hr).2⟩⟩
      | some p =>
          obtain ⟨habove, ⟨last, hlast, hkey⟩, -⟩ := hpage.rest p rfl
          obtain ⟨hsorted, hfound⟩ := ih (k + 1) (some p)
          have hbelow : ∀ r ∈ (follow key limit tables rounds (k + 1) (some p)).1, key r < p :=
            fun r hr => by simpa [below] using (hfound r hr).2
          refine ⟨?_, fun r hr => ?_⟩
          · -- The later rows are below the last row of this page.
            refine List.pairwise_append.mpr ⟨hpage.sorted, hsorted, fun a ha b hb => ?_⟩
            exact (hbelow b hb).trans_le (habove a ha)
          · rcases List.mem_append.mp hr with hr | hr
            · exact ⟨⟨k, Nat.le_refl k, by omega, (hpage.found r hr).1⟩, (hpage.found r hr).2⟩
            · obtain ⟨⟨j, hj, hjk, hrj⟩, -⟩ := hfound r hr
              refine ⟨⟨j, Nat.le_of_succ_le hj, by omega, hrj⟩, ?_⟩
              refine below_of_le (hpage.found last hlast).2 ?_
              rw [hkey]
              exact (hbelow r hr).le

/-- A key that every table has comes, once the last page is there. -/
theorem follow_lists (hlimit : 1 ≤ limit) (hnodup : ∀ k, ((tables k).map key).Nodup) {k₀ : κ}
    {rounds k : ℕ} {position : Option κ}
    (hstays : ∀ j, k ≤ j → ∃ r ∈ tables j, key r = k₀ ∧ below key position r = true)
    (hend : (follow key limit tables rounds k position).2 = true) :
    ∃ r ∈ (follow key limit tables rounds k position).1, key r = k₀ := by
  induction rounds generalizing k position with
  | zero => cases hend
  | succ rounds ih =>
      have hpage : PageOf key limit position (tables k) _ _ := page_spec hlimit (hnodup k)
      obtain ⟨r, hr, hrkey, hrange⟩ := hstays k (Nat.le_refl k)
      rw [follow] at hend ⊢
      generalize page key limit position (tables k) = out at hpage hend
      obtain ⟨items, next⟩ := out
      cases next with
      | none => exact ⟨r, hpage.all rfl r hr hrange, hrkey⟩
      | some p =>
          by_cases hitem : r ∈ items
          · exact ⟨r, List.mem_append_left _ hitem, hrkey⟩
          · -- Not on this page: the key is below `p`, and still there next time.
            have hlt := (hpage.rest p rfl).2.2 r hr hrange hitem
            obtain ⟨s, hs, hskey⟩ := ih (fun j hj => by
              obtain ⟨r', hr', hkey', -⟩ := hstays j (Nat.le_of_succ_le hj)
              exact ⟨r', hr', hkey', by simpa [below, hkey', ← hrkey] using hlt⟩) hend
            exact ⟨s, List.mem_append_right _ hs, hskey⟩

/-- Pages that have a next one are full. -/
theorem le_length_follow {rounds k : ℕ} {position : Option κ}
    (hmore : (follow key limit tables rounds k position).2 = false) :
    rounds * limit ≤ (follow key limit tables rounds k position).1.length := by
  induction rounds generalizing k position with
  | zero => rw [Nat.zero_mul]; exact Nat.zero_le _
  | succ rounds ih =>
      have hfull : ∀ p, (page key limit position (tables k)).2 = some p →
          (page key limit position (tables k)).1.length = limit := by
        intro p hp
        unfold page at hp ⊢
        dsimp only at hp ⊢
        split at hp
        · rename_i hlt
          rw [if_pos hlt, List.length_take]
          exact Nat.min_eq_left hlt.le
        · cases hp
      rw [follow] at hmore ⊢
      generalize page key limit position (tables k) = out at hfull hmore
      obtain ⟨items, next⟩ := out
      cases next with
      | none => cases hmore
      | some p =>
          have hlength : items.length = limit := hfull p rfl
          have hrest := ih hmore
          dsimp only
          rw [List.length_append, hlength, Nat.add_mul, Nat.one_mul]
          omega

/-- **Following the positions.** The rows come in strictly descending order, all of
them below where the following began; and once the last page is there, every key
that was below it then has come. -/
theorem follow_spec (hlimit : 1 ≤ limit) (hnodup : ∀ k, ((tables k).map key).Nodup)
    (hgrows : ∀ k, Grows key (tables k) (tables (k + 1))) (rounds k : ℕ) (position : Option κ) :
    (follow key limit tables rounds k position).1.Pairwise (fun a b => key b < key a) ∧
    (∀ r ∈ (follow key limit tables rounds k position).1,
      (∃ j, k ≤ j ∧ r ∈ tables j) ∧ below key position r = true) ∧
    ((follow key limit tables rounds k position).2 = true → ∀ r ∈ tables k,
      below key position r = true →
        ∃ r' ∈ (follow key limit tables rounds k position).1, key r' = key r) := by
  obtain ⟨hsorted, hfound⟩ := follow_descends hlimit hnodup rounds k position
  refine ⟨hsorted, fun r hr => ?_, fun hend r hr hrange => ?_⟩
  · obtain ⟨⟨j, hj, -, hrj⟩, hbelow⟩ := hfound r hr
    exact ⟨⟨j, hj, hrj⟩, hbelow⟩
  · -- The key of the row stays in every later table.
    refine follow_lists hlimit hnodup (fun j hj => ?_) hend
    induction j, hj using Nat.le_induction with
    | base => exact ⟨r, hr, rfl, hrange⟩
    | succ j _ ih =>
        obtain ⟨s, hs, hskey, hsrange⟩ := ih
        obtain ⟨s', hs', hskey'⟩ := hgrows j s hs
        exact ⟨s', hs', hskey'.trans hskey, below_of_le hsrange hskey'.le⟩

/-- Once the table no longer changes, as many pages as there are rows left are
enough, and one more. -/
theorem follow_ends {rows : List ρ} (hlimit : 1 ≤ limit) (hnodup : (rows.map key).Nodup) {k : ℕ}
    (hstill : ∀ j, k ≤ j → tables j = rows) {rounds : ℕ}
    (hrounds : (rows.filter (below key position)).length < rounds) :
    (follow key limit tables rounds k position).2 = true := by
  induction rounds generalizing k position with
  | zero => exact absurd hrounds (Nat.not_lt_zero _)
  | succ rounds ih =>
      have hpage : PageOf key limit position rows _ _ := page_spec hlimit hnodup
      rw [follow, hstill k (Nat.le_refl k)]
      generalize page key limit position rows = out at hpage
      obtain ⟨items, next⟩ := out
      cases next with
      | none => rfl
      | some p =>
          obtain ⟨-, ⟨last, hlast, hkey⟩, -⟩ := hpage.rest p rfl
          refine ih (fun j hj => hstill j (Nat.le_of_succ_le hj)) ?_
          -- The last row of this page is not below its own key.
          have hsub : rows.filter (below key (some p))
              = (rows.filter (below key position)).filter (below key (some p)) := by
            rw [List.filter_filter]
            refine List.filter_congr (fun r _ => ?_)
            cases hr : below key (some p) r with
            | false => rfl
            | true =>
                have hlt : key r < p := by simpa [below] using hr
                rw [below_of_le (hpage.found last hlast).2 (by rw [hkey]; exact hlt.le)]
                rfl
          rw [hsub]
          have hlt : ((rows.filter (below key position)).filter (below key (some p))).length
              < (rows.filter (below key position)).length := by
            refine List.length_filter_lt_length_iff_exists.mpr ⟨last, ?_, ?_⟩
            · exact List.mem_filter.mpr (hpage.found last hlast)
            · simp [below, hkey]
          omega

/-- After finitely many insertions the pages come to an end. -/
theorem exists_follow_ends {rows : List ρ} (hlimit : 1 ≤ limit) (hnodup : (rows.map key).Nodup)
    (m k : ℕ) (position : Option κ) (hstill : ∀ j, k + m ≤ j → tables j = rows) :
    ∃ rounds, (follow key limit tables rounds k position).2 = true := by
  induction m generalizing k position with
  | zero => exact ⟨_, follow_ends hlimit hnodup hstill (Nat.lt_succ_self _)⟩
  | succ m ih =>
      cases hpage : page key limit position (tables k) with
      | mk items next =>
          cases next with
          | none => exact ⟨1, by rw [follow, hpage]⟩
          | some p =>
              obtain ⟨rounds, hend⟩ := ih (k + 1) (some p) (fun j hj => hstill j (by omega))
              exact ⟨rounds + 1, by rw [follow, hpage]; exact hend⟩

/-- Without insertions the pages together are the sorted table. -/
theorem follow_still {rows : List ρ} (hlimit : 1 ≤ limit) (hnodup : (rows.map key).Nodup)
    (hstill : ∀ j, tables j = rows) {rounds : ℕ}
    (hend : (follow key limit tables rounds 0 none).2 = true) :
    (follow key limit tables rounds 0 none).1 = newest key rows := by
  have htables : ∀ k, ((tables k).map key).Nodup := fun k => by rw [hstill k]; exact hnodup
  have hgrows : ∀ k, Grows key (tables k) (tables (k + 1)) := by
    intro k r hr
    rw [hstill k] at hr
    rw [hstill (k + 1)]
    exact ⟨r, hr, rfl⟩
  obtain ⟨hsorted, hfound, hall⟩ := follow_spec hlimit htables hgrows rounds 0 none
  have hsorted' := newest_sorted hnodup
  have hperm : (follow key limit tables rounds 0 none).1.Perm (newest key rows) := by
    refine (List.perm_ext_iff_of_nodup ?_ ?_).mpr (fun r => ?_)
    · exact hsorted.imp (fun hlt heq => by rw [heq] at hlt; exact lt_irrefl _ hlt)
    · exact hsorted'.imp (fun hlt heq => by rw [heq] at hlt; exact lt_irrefl _ hlt)
    · rw [(newest_perm rows).mem_iff]
      constructor
      · intro hr
        obtain ⟨⟨j, -, hj⟩, -⟩ := hfound r hr
        rwa [hstill j] at hj
      · intro hr
        obtain ⟨r', hr', hkey⟩ := hall hend r (by rw [hstill 0]; exact hr) rfl
        obtain ⟨⟨j, -, hj⟩, -⟩ := hfound r' hr'
        rw [hstill j] at hj
        rwa [← List.inj_on_of_nodup_map hnodup hj hr hkey]
  exact hperm.eq_of_pairwise (fun a b _ _ hab hba => absurd (hab.trans hba) (lt_irrefl _)) hsorted hsorted'

end Keyset
