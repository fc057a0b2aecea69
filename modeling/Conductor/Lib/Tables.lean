/-
Relational tables with a primary key, as insertion-ordered lists of rows.

A `Table` carries the uniqueness of its key as a field, so a table in which two
rows share a primary key cannot be built. Every operation below is a plain list
function (`filter`, `map`, append), so a table evaluates; what the field buys is
that a row is determined by its key (`eq_of_key`), which is what turns "the rows
an `UPDATE` wrote, laid over the table" (`overlay`) into "the table with the
matching rows replaced" (`overlay_updated`).

`overlay` is the one operation that is not ordinary SQL: it is how the private
writes of an open transaction are read on top of the committed rows.
-/
import Mathlib.Data.List.Nodup
import Mathlib.Data.List.Basic

set_option autoImplicit false

namespace Relational

/-- Rows of type `ρ` with pairwise distinct keys `key r : κ`. -/
structure Table (κ ρ : Type) (key : ρ → κ) where
  rows : List ρ
  nodup : (rows.map key).Nodup

namespace Table

variable {κ ρ : Type} {key : ρ → κ}

/-- Two tables with the same rows are equal. -/
theorem ext_rows {a b : Table κ ρ key} (h : a.rows = b.rows) : a = b := by
  cases a; cases b; cases h; rfl

/-- A key determines its row. -/
theorem eq_of_key (t : Table κ ρ key) {r s : ρ} (hr : r ∈ t.rows) (hs : s ∈ t.rows)
    (h : key r = key s) : r = s :=
  List.inj_on_of_nodup_map t.nodup hr hs h

/-! ## Operations -/

def empty : Table κ ρ key := ⟨[], List.nodup_nil⟩

/-- The table of the rows that satisfy `p`. -/
def restrict (t : Table κ ρ key) (p : ρ → Bool) : Table κ ρ key :=
  ⟨t.rows.filter p, (List.Sublist.map key List.filter_sublist).nodup t.nodup⟩

/-- Every row rewritten by a function that leaves its key alone. -/
def mapRows (t : Table κ ρ key) (f : ρ → ρ) (hf : ∀ r, key (f r) = key r) : Table κ ρ key :=
  ⟨t.rows.map f, by
    rw [List.map_map, show key ∘ f = key from funext hf]
    exact t.nodup⟩

/-- `UPDATE ... SET f WHERE p`: the table afterwards. -/
def update (t : Table κ ρ key) (p : ρ → Bool) (f : ρ → ρ) (hf : ∀ r, key (f r) = key r) :
    Table κ ρ key :=
  t.mapRows (fun r => if p r then f r else r) (fun r => by split <;> simp [hf])

/-- `UPDATE ... SET f WHERE p RETURNING *`: the rows as written. -/
def updated (t : Table κ ρ key) (p : ρ → Bool) (f : ρ → ρ) (hf : ∀ r, key (f r) = key r) :
    Table κ ρ key :=
  (t.restrict p).mapRows f hf

variable [DecidableEq κ]

/-- Primary-key lookup. -/
def get (t : Table κ ρ key) (k : κ) : Option ρ := t.rows.find? (fun r => key r = k)

/-- Read `d` on top of `t`: a row of `d` hides the row of `t` with its key, and
the rows of `d` with a new key follow the rows of `t`. -/
def overlay (d t : Table κ ρ key) : Table κ ρ key where
  rows := t.rows.map (fun r => (d.get (key r)).getD r)
    ++ d.rows.filter (fun r => (t.get (key r)).isNone)
  nodup := by
    have hkey : ∀ r, key ((d.get (key r)).getD r) = key r := by
      intro r
      cases h : d.get (key r) with
      | none => rfl
      | some s => simpa [get] using List.find?_some h
    rw [List.map_append, List.map_map, show (key ∘ fun r => (d.get (key r)).getD r) = key
      from funext hkey]
    refine List.Nodup.append t.nodup
      ((List.Sublist.map key List.filter_sublist).nodup d.nodup) ?_
    intro k hk hk'
    obtain ⟨r, hr, rfl⟩ := List.mem_map.mp hk
    obtain ⟨s, hs, hsk⟩ := List.mem_map.mp hk'
    have hnone : (t.get (key s)).isNone = true := (List.mem_filter.mp hs).2
    simp only [get, Option.isNone_iff_eq_none, List.find?_eq_none] at hnone
    exact absurd hsk.symm (by simpa using hnone r hr)

/-! ## Lookup -/

omit [DecidableEq κ] in
@[simp] theorem rows_empty : (empty : Table κ ρ key).rows = [] := rfl

omit [DecidableEq κ] in
@[simp] theorem rows_update (t : Table κ ρ key) (p : ρ → Bool) (f : ρ → ρ)
    (hf : ∀ r, key (f r) = key r) :
    (t.update p f hf).rows = t.rows.map (fun r => if p r then f r else r) := rfl

omit [DecidableEq κ] in
@[simp] theorem rows_updated (t : Table κ ρ key) (p : ρ → Bool) (f : ρ → ρ)
    (hf : ∀ r, key (f r) = key r) :
    (t.updated p f hf).rows = (t.rows.filter p).map f := rfl

omit [DecidableEq κ] in
@[simp] theorem rows_mapRows (t : Table κ ρ key) (f : ρ → ρ) (hf : ∀ r, key (f r) = key r) :
    (t.mapRows f hf).rows = t.rows.map f := rfl

omit [DecidableEq κ] in
@[simp] theorem rows_restrict (t : Table κ ρ key) (p : ρ → Bool) :
    (t.restrict p).rows = t.rows.filter p := rfl

omit [DecidableEq κ] in
theorem restrict_of_all {t : Table κ ρ key} {p : ρ → Bool} (h : ∀ r ∈ t.rows, p r = true) :
    t.restrict p = t :=
  ext_rows (List.filter_eq_self.mpr h)

/-- What a lookup finds is a row of the table with the key asked for. -/
theorem get_eq_some {t : Table κ ρ key} {k : κ} {r : ρ} :
    t.get k = some r ↔ r ∈ t.rows ∧ key r = k := by
  constructor
  · intro h
    have hk := List.find?_some h
    exact ⟨List.mem_of_find?_eq_some h, by simpa using hk⟩
  · rintro ⟨hr, rfl⟩
    cases h : t.get (key r) with
    | none =>
        rw [get, List.find?_eq_none] at h
        simpa using h r hr
    | some s =>
        have hs : s ∈ t.rows := List.mem_of_find?_eq_some h
        have hk : key s = key r := by simpa using List.find?_some h
        rw [t.eq_of_key hs hr hk]

theorem get_of_mem {t : Table κ ρ key} {r : ρ} (hr : r ∈ t.rows) : t.get (key r) = some r :=
  get_eq_some.mpr ⟨hr, rfl⟩

theorem get_eq_none {t : Table κ ρ key} {k : κ} : t.get k = none ↔ ∀ r ∈ t.rows, key r ≠ k := by
  simp [get, List.find?_eq_none]

/-- The rows with a given key that satisfy `q`: at most the one a lookup finds. -/
theorem filter_key (t : Table κ ρ key) (k : κ) (q : ρ → Bool) :
    t.rows.filter (fun r => key r = k && q r) = ((t.get k).filter q).toList := by
  have hone : ∀ l : List ρ, (l.map key).Nodup →
      l.filter (fun r => key r = k && q r) = ((l.find? (fun r => key r = k)).filter q).toList := by
    intro l
    induction l with
    | nil => intro _; rfl
    | cons a l ih =>
        intro hnd
        rw [List.map_cons, List.nodup_cons] at hnd
        by_cases hk : key a = k
        · have hrest : l.filter (fun r => key r = k && q r) = [] := by
            rw [List.filter_eq_nil_iff]
            intro r hr hp
            simp only [Bool.and_eq_true, decide_eq_true_eq] at hp
            exact hnd.1 (List.mem_map.mpr ⟨r, hr, hp.1.trans hk.symm⟩)
          rw [List.filter_cons, hrest]
          cases hq : q a <;> simp [hk, hq, Option.filter]
        · rw [List.filter_cons, if_neg (by simp [hk]), ih hnd.2, List.find?_cons_of_neg (by simp [hk])]
  exact hone t.rows t.nodup

omit [DecidableEq κ] in
/-- A row of the updated table is an old row, rewritten when it matched. -/
theorem mem_update {t : Table κ ρ key} {p : ρ → Bool} {f : ρ → ρ}
    {hf : ∀ r, key (f r) = key r} {r' : ρ} :
    r' ∈ (t.update p f hf).rows ↔ ∃ r ∈ t.rows, (if p r then f r else r) = r' := by
  simp

omit [DecidableEq κ] in
/-- An update that matches nothing is the identity. -/
theorem update_eq_self {t : Table κ ρ key} {p : ρ → Bool} {f : ρ → ρ}
    {hf : ∀ r, key (f r) = key r} (h : ∀ r ∈ t.rows, p r = false) : t.update p f hf = t := by
  refine ext_rows ?_
  rw [rows_update]
  conv_rhs => rw [← List.map_id t.rows]
  refine List.map_congr_left (fun r hr => ?_)
  simp [h r hr]

/-! ## Overlays -/

@[simp] theorem empty_overlay (t : Table κ ρ key) : empty.overlay t = t := by
  refine ext_rows ?_
  simp [overlay, get]

/-- Laying the rows an `UPDATE` wrote over the table is the update. -/
theorem overlay_updated (t : Table κ ρ key) (p : ρ → Bool) (f : ρ → ρ)
    (hf : ∀ r, key (f r) = key r) : (t.updated p f hf).overlay t = t.update p f hf := by
  refine ext_rows ?_
  have hnew : (t.updated p f hf).rows.filter (fun r => (t.get (key r)).isNone) = [] := by
    rw [List.filter_eq_nil_iff]
    intro r' hr'
    simp only [rows_updated, List.mem_map, List.mem_filter] at hr'
    obtain ⟨r, ⟨hr, _⟩, rfl⟩ := hr'
    rw [hf, get_of_mem hr]
    simp
  have hold : t.rows.map (fun r => ((t.updated p f hf).get (key r)).getD r)
      = t.rows.map (fun r => if p r then f r else r) := by
    refine List.map_congr_left (fun r hr => ?_)
    by_cases hp : p r = true
    · have hget : (t.updated p f hf).get (key r) = some (f r) := by
        refine get_eq_some.mpr ⟨?_, hf r⟩
        simp only [rows_updated]
        exact List.mem_map_of_mem (List.mem_filter.mpr ⟨hr, hp⟩)
      simp [hget, hp]
    · have hget : (t.updated p f hf).get (key r) = none := by
        refine get_eq_none.mpr ?_
        intro r' hr'
        simp only [rows_updated, List.mem_map, List.mem_filter] at hr'
        obtain ⟨s, ⟨hs, hps⟩, rfl⟩ := hr'
        rw [hf]
        intro hk
        rw [t.eq_of_key hs hr hk] at hps
        exact hp hps
      simp [hget, hp]
  rw [overlay, rows_update]
  simp only [hnew, hold, List.append_nil]

/-- Rows whose keys the table does not have are appended. -/
theorem rows_overlay_of_new {d t : Table κ ρ key}
    (h : ∀ r ∈ d.rows, t.get (key r) = none) : (d.overlay t).rows = t.rows ++ d.rows := by
  have hold : t.rows.map (fun r => (d.get (key r)).getD r) = t.rows := by
    conv_rhs => rw [← List.map_id t.rows]
    refine List.map_congr_left (fun r hr => ?_)
    have hnone : d.get (key r) = none := by
      refine get_eq_none.mpr (fun s hs hk => ?_)
      exact get_eq_none.mp (h s hs) r hr hk.symm
    simp [hnone]
  have hnew : d.rows.filter (fun r => (t.get (key r)).isNone) = d.rows := by
    rw [List.filter_eq_self]
    intro r hr
    simp [h r hr]
  simp only [overlay, hold, hnew]

theorem overlay_empty (t : Table κ ρ key) : t.overlay empty = t := by
  refine ext_rows ?_
  rw [rows_overlay_of_new (fun r _ => rfl)]
  rfl

/-- Rows whose keys the table has replace them in place. -/
theorem rows_overlay_of_old {d t : Table κ ρ key} (h : ∀ r ∈ d.rows, ∃ s ∈ t.rows, key s = key r) :
    (d.overlay t).rows = t.rows.map (fun r => (d.get (key r)).getD r) := by
  have hnew : d.rows.filter (fun r => (t.get (key r)).isNone) = [] := by
    rw [List.filter_eq_nil_iff]
    intro r hr
    obtain ⟨s, hs, hk⟩ := h r hr
    rw [← hk, get_of_mem hs]
    simp
  simp only [overlay, hnew, List.append_nil]

/-- A row read through an overlay comes from the overlay, or from a row below
that the overlay does not hide. -/
theorem mem_overlay {d t : Table κ ρ key} {r : ρ} :
    r ∈ (d.overlay t).rows ↔ r ∈ d.rows ∨ (r ∈ t.rows ∧ d.get (key r) = none) := by
  simp only [overlay, List.mem_append, List.mem_map, List.mem_filter, Option.isNone_iff_eq_none]
  constructor
  · rintro (⟨s, hs, rfl⟩ | ⟨hr, _⟩)
    · cases h : d.get (key s) with
      | none => exact Or.inr ⟨hs, by simpa using h⟩
      | some s' => exact Or.inl (by simpa using (get_eq_some.mp h).1)
    · exact Or.inl hr
  · rintro (hr | ⟨hr, hnone⟩)
    · by_cases ht : t.get (key r) = none
      · exact Or.inr ⟨hr, ht⟩
      · obtain ⟨s, hs⟩ := Option.ne_none_iff_exists'.mp ht
        obtain ⟨hst, hk⟩ := get_eq_some.mp hs
        refine Or.inl ⟨s, hst, ?_⟩
        rw [hk, get_of_mem hr]
        rfl
    · exact Or.inl ⟨r, hr, by rw [hnone]; rfl⟩

/-- Lookup through an overlay: the overlay first, then the table below. -/
theorem get_overlay (d t : Table κ ρ key) (k : κ) :
    (d.overlay t).get k = (d.get k).or (t.get k) := by
  cases hd : d.get k with
  | some r =>
      obtain ⟨hr, hk⟩ := get_eq_some.mp hd
      exact get_eq_some.mpr ⟨mem_overlay.mpr (Or.inl hr), hk⟩
  | none =>
      cases ht : t.get k with
      | some r =>
          obtain ⟨hr, hk⟩ := get_eq_some.mp ht
          exact get_eq_some.mpr ⟨mem_overlay.mpr (Or.inr ⟨hr, by rw [hk]; exact hd⟩), hk⟩
      | none =>
          refine get_eq_none.mpr (fun r hr => ?_)
          rcases mem_overlay.mp hr with h | ⟨h, _⟩
          · exact get_eq_none.mp hd r h
          · exact get_eq_none.mp ht r h

/-- Two overlays of different rows of a table commute. -/
theorem overlay_comm {d e t : Table κ ρ key} (hd : ∀ r ∈ d.rows, ∃ s ∈ t.rows, key s = key r)
    (he : ∀ r ∈ e.rows, ∃ s ∈ t.rows, key s = key r)
    (hde : ∀ r ∈ d.rows, ∀ s ∈ e.rows, key s ≠ key r) :
    d.overlay (e.overlay t) = e.overlay (d.overlay t) := by
  have hkey : ∀ (x : Table κ ρ key) (r : ρ), key ((x.get (key r)).getD r) = key r := by
    intro x r
    cases h : x.get (key r) with
    | none => rfl
    | some s => exact (get_eq_some.mp h).2
  have hstill : ∀ x y : Table κ ρ key, (∀ r ∈ x.rows, ∃ s ∈ t.rows, key s = key r) →
      (∀ r ∈ y.rows, ∃ s ∈ t.rows, key s = key r) → (x.overlay (y.overlay t)).rows
        = t.rows.map (fun r => (x.get (key r)).getD ((y.get (key r)).getD r)) := by
    intro x y hx hy
    rw [rows_overlay_of_old, rows_overlay_of_old hy, List.map_map]
    · refine List.map_congr_left (fun r _ => ?_)
      simp only [Function.comp_apply, hkey]
    · intro r hr
      obtain ⟨s, hs, hk⟩ := hx r hr
      refine ⟨(y.get (key s)).getD s, ?_, (hkey y s).trans hk⟩
      rw [rows_overlay_of_old hy]
      exact List.mem_map_of_mem hs
  refine ext_rows ?_
  rw [hstill d e hd he, hstill e d he hd]
  refine List.map_congr_left (fun r _ => ?_)
  cases hdr : d.get (key r) with
  | none => rfl
  | some x =>
      -- Where one overlay has a row, the other has none.
      obtain ⟨hx, hxk⟩ := get_eq_some.mp hdr
      have her : e.get (key r) = none :=
        get_eq_none.mpr (fun s hs hk => hde x hx s hs (hk.trans hxk.symm))
      rw [her]
      rfl

/-- Lookup after an update. -/
theorem get_update (t : Table κ ρ key) (p : ρ → Bool) (f : ρ → ρ) (hf : ∀ r, key (f r) = key r)
    (k : κ) : (t.update p f hf).get k = (t.get k).map (fun r => if p r then f r else r) := by
  have hkey : ∀ r, key (if p r then f r else r) = key r := fun r => by split <;> simp [hf]
  cases h : t.get k with
  | none =>
      refine get_eq_none.mpr (fun r' hr' => ?_)
      obtain ⟨r, hr, rfl⟩ := mem_update.mp hr'
      rw [hkey]
      exact get_eq_none.mp h r hr
  | some r =>
      obtain ⟨hr, hk⟩ := get_eq_some.mp h
      exact get_eq_some.mpr ⟨mem_update.mpr ⟨r, hr, rfl⟩, by rw [hkey, hk]⟩

/-- Overlays compose: reading `d` over `e` over `t` is reading the overlay of the
two over `t`. -/
theorem overlay_overlay (d e t : Table κ ρ key) :
    d.overlay (e.overlay t) = (d.overlay e).overlay t := by
  refine ext_rows ?_
  have hkey : ∀ r, key ((e.get (key r)).getD r) = key r := by
    intro r
    cases h : e.get (key r) with
    | none => rfl
    | some s => exact (get_eq_some.mp h).2
  -- Looking in `d` and then in `e` is looking in the overlay of the two.
  have hold : ∀ r, (d.get (key r)).getD ((e.get (key r)).getD r)
      = ((d.overlay e).get (key r)).getD r := by
    intro r
    rw [get_overlay]
    cases d.get (key r) <;> rfl
  have hnew : ∀ r, ((e.overlay t).get (key r)).isNone
      = ((t.get (key r)).isNone && (e.get (key r)).isNone) := by
    intro r
    rw [get_overlay]
    cases e.get (key r) <;> cases t.get (key r) <;> rfl
  have hdkey : ∀ r, key ((d.get (key r)).getD r) = key r := by
    intro r
    cases h : d.get (key r) with
    | none => rfl
    | some s => exact (get_eq_some.mp h).2
  show (e.overlay t).rows.map (fun r => (d.get (key r)).getD r)
      ++ d.rows.filter (fun r => ((e.overlay t).get (key r)).isNone)
    = t.rows.map (fun r => ((d.overlay e).get (key r)).getD r)
      ++ (d.overlay e).rows.filter (fun r => (t.get (key r)).isNone)
  simp only [hnew]
  simp only [overlay, List.map_append, List.map_map, List.filter_append, List.filter_map,
    List.filter_filter, List.append_assoc]
  congr 1
  · refine List.map_congr_left (fun r _ => ?_)
    simp only [Function.comp_apply, hkey]
    exact hold r
  · congr 1
    congr 1
    refine List.filter_congr (fun r _ => ?_)
    simp only [Function.comp_apply, hdkey]

end Table

/-! ## Ordered dictionaries

A `dict` that remembers insertion order is a table of key/value pairs. -/

/-- `dict[κ, ν]`, in insertion order. -/
abbrev OrderedDict (κ ν : Type) := Table κ (κ × ν) Prod.fst

namespace OrderedDict

variable {κ ν : Type} [DecidableEq κ]

/-- `d.get(k)`. -/
def lookup (d : OrderedDict κ ν) (k : κ) : Option ν := (d.get k).map Prod.snd

omit [DecidableEq κ] in
/-- The keys, in insertion order. -/
def keys (d : OrderedDict κ ν) : List κ := d.rows.map Prod.fst

/-- `d[k] = f(d[k])`, on a key that is there. -/
def modify (d : OrderedDict κ ν) (k : κ) (f : ν → ν) : OrderedDict κ ν :=
  d.update (fun item => item.1 = k) (fun item => (item.1, f item.2)) (fun _ => rfl)

/-- `d[k] = v`. -/
def set (d : OrderedDict κ ν) (k : κ) (v : ν) : OrderedDict κ ν :=
  Table.overlay ⟨[(k, v)], by simp⟩ d

/-- `d.setdefault(k, v)`. -/
def setdefault (d : OrderedDict κ ν) (k : κ) (v : ν) : OrderedDict κ ν :=
  if (d.get k).isSome then d else d.set k v

/-- `d.pop(k, None)` without its result, and `del d[k]` on a key that is there. -/
def erase (d : OrderedDict κ ν) (k : κ) : OrderedDict κ ν := d.restrict (fun item => item.1 ≠ k)

/-! ### Lookup and keys -/

theorem lookup_eq_some {d : OrderedDict κ ν} {k : κ} {v : ν} :
    lookup d k = some v ↔ (k, v) ∈ d.rows := by
  simp only [lookup, Option.map_eq_some_iff]
  constructor
  · rintro ⟨⟨k', v'⟩, hget, rfl⟩
    obtain ⟨hmem, rfl⟩ := Table.get_eq_some.mp hget
    exact hmem
  · intro hmem
    exact ⟨(k, v), Table.get_eq_some.mpr ⟨hmem, rfl⟩, rfl⟩

theorem lookup_isSome {d : OrderedDict κ ν} {k : κ} : (lookup d k).isSome = true ↔ k ∈ keys d := by
  rw [Option.isSome_iff_exists]
  simp only [lookup_eq_some, keys, List.mem_map, Prod.exists, exists_and_right, exists_eq_right]

theorem lookup_eq_none {d : OrderedDict κ ν} {k : κ} : lookup d k = none ↔ k ∉ keys d := by
  rw [← lookup_isSome, Bool.not_eq_true, Option.isSome_eq_false_iff, Option.isNone_iff_eq_none]

theorem lookup_modify (d : OrderedDict κ ν) (k j : κ) (f : ν → ν) :
    lookup (modify d k f) j = if j = k then (lookup d j).map f else lookup d j := by
  unfold lookup modify
  rw [Table.get_update]
  cases h : d.get j with
  | none => simp
  | some item =>
      obtain ⟨-, hk⟩ := Table.get_eq_some.mp h
      by_cases hj : j = k
      · simp [hk, hj]
      · simp [hk, hj]

@[simp] theorem keys_modify (d : OrderedDict κ ν) (k : κ) (f : ν → ν) :
    keys (modify d k f) = keys d := by
  simp only [keys, modify, Table.rows_update, List.map_map]
  refine List.map_congr_left (fun item _ => ?_)
  simp only [Function.comp_apply]
  split <;> rfl

theorem lookup_set (d : OrderedDict κ ν) (k j : κ) (v : ν) :
    lookup (set d k v) j = if j = k then some v else lookup d j := by
  unfold lookup set
  rw [Table.get_overlay]
  by_cases hj : j = k
  · subst hj
    simp [Table.get]
  · have hne : k ≠ j := fun h => hj h.symm
    simp [Table.get, hj, hne]

theorem lookup_erase (d : OrderedDict κ ν) (k j : κ) :
    lookup (erase d k) j = if j = k then none else lookup d j := by
  refine Option.ext (fun v => ?_)
  simp only [lookup_eq_some, erase, Table.rows_restrict, List.mem_filter, ne_eq, decide_not,
    Bool.not_eq_eq_eq_not, Bool.not_true, decide_eq_false_iff_not]
  by_cases hj : j = k
  · simp [hj]
  · rw [if_neg hj, lookup_eq_some, and_iff_left hj]

theorem keys_set (d : OrderedDict κ ν) (k : κ) (v : ν) :
    keys (set d k v) = if k ∈ keys d then keys d else keys d ++ [k] := by
  have hold : (d.rows.map (fun r => (Table.get (⟨[(k, v)], by simp⟩ : OrderedDict κ ν) r.1).getD r)).map
      Prod.fst = d.rows.map Prod.fst := by
    rw [List.map_map]
    refine List.map_congr_left (fun item _ => ?_)
    by_cases hi : k = item.1
    · simp [Table.get, hi]
    · simp [Table.get, hi]
  unfold keys set
  simp only [Table.overlay, List.map_append, hold]
  by_cases hk : k ∈ d.rows.map Prod.fst
  · rw [if_pos hk]
    obtain ⟨item, hitem, rfl⟩ := List.mem_map.mp hk
    simp [Table.get_of_mem hitem]
  · rw [if_neg hk]
    have hnone : d.get k = none :=
      Table.get_eq_none.mpr (fun item hitem he => hk (List.mem_map.mpr ⟨item, hitem, he⟩))
    simp [hnone]

theorem keys_erase (d : OrderedDict κ ν) (k : κ) :
    keys (erase d k) = (keys d).filter (fun j => j ≠ k) := by
  unfold keys erase
  rw [Table.rows_restrict, List.filter_map]
  rfl

theorem lookup_setdefault (d : OrderedDict κ ν) (k j : κ) (v : ν) :
    lookup (setdefault d k v) j = if j = k then some ((lookup d k).getD v) else lookup d j := by
  unfold setdefault
  split
  · rename_i h
    split
    · rename_i hj
      subst hj
      obtain ⟨item, hitem⟩ := Option.isSome_iff_exists.mp h
      simp [lookup, hitem]
    · rfl
  · rename_i h
    have hnone : lookup d k = none := by
      simpa [lookup] using h
    rw [lookup_set, hnone]
    rfl

theorem keys_setdefault (d : OrderedDict κ ν) (k : κ) (v : ν) :
    keys (setdefault d k v) = if k ∈ keys d then keys d else keys d ++ [k] := by
  unfold setdefault
  by_cases h : k ∈ keys d
  · have hsome : (d.get k).isSome = true := by
      have := lookup_isSome.mpr h
      simpa [lookup] using this
    rw [if_pos hsome, if_pos h]
  · have hnone : ¬ (d.get k).isSome = true := by
      intro hs
      exact h (lookup_isSome.mp (by simpa [lookup] using hs))
    rw [if_neg hnone, keys_set]

end OrderedDict

end Relational
