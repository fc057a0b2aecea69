/-
What the cache of `core/lru.py` does: the reference model and the refinement.

A method is specified by what calling it returns and which cache it leaves
(`call`). The linked list is specified by the list of its nodes (`Chained`): each
internal operation either takes a node out of that list or puts one in front, and
touches nothing but links. `Represents` adds the dictionary and the contents, so
that a cache stands for a list of pairs, most recently used first; every public
operation is then the operation of the reference model on that list.
-/
import Mathlib.Data.List.Perm.Basic
import Mathlib.Data.List.Lattice
import Conductor.Lib.Links
import Conductor.Lib.Runs
import Conductor.Lru

set_option autoImplicit false

open Relational

namespace Conductor

namespace LruCache

variable {K V E : Type}

/-! ## Calling a method -/

/-- What a method returns or raises on a cache, and the cache it leaves. -/
def call {α : Type} (m : Method K V E α) (c : LruCache K V) :
    Except (CacheError E) α × LruCache K V :=
  (ExceptT.run m).run c

section Call

variable {α β : Type} {m : Method K V E α} {f : α → Method K V E β} {c c' : LruCache K V}

@[simp] theorem call_pure (a : α) : call (pure a : Method K V E α) c = (.ok a, c) := rfl

@[simp] theorem call_throw (e : CacheError E) :
    call (throw e : Method K V E α) c = (.error e, c) := rfl

@[simp] theorem call_get : call (MonadState.get : Method K V E _) c = (.ok c, c) := rfl

@[simp] theorem call_modify (g : LruCache K V → LruCache K V) :
    call (modify g : Method K V E PUnit) c = (.ok PUnit.unit, g c) := rfl

/-- A method that returned is followed by the rest, on the cache it left. -/
theorem call_bind {a : α} (h : call m c = (.ok a, c')) : call (m >>= f) c = call (f a) c' := by
  unfold call at h ⊢
  rw [ExceptT.run_bind, StateT.run_bind, h]
  rfl

/-- A method that raised ends there. -/
theorem call_bind_error {e : CacheError E} (h : call m c = (.error e, c')) :
    call (m >>= f) c = (.error e, c') := by
  unfold call at h ⊢
  rw [ExceptT.run_bind, StateT.run_bind, h]
  rfl

theorem call_assertSome (a : α) : call (assertSome (some a) : Method K V E α) c = (.ok a, c) := rfl

theorem call_object (a : α) : call (object (some a) : Method K V E α) c = (.ok a, c) := rfl

/-- `del self._nodes[k]` for a key that is there. -/
theorem call_delNode [DecidableEq K] {k : K} (hk : (OrderedDict.lookup c._nodes k).isSome) :
    call (delNode (some k) : Method K V E Unit) c
      = (.ok (), { c with _nodes := OrderedDict.erase c._nodes k }) := by
  unfold delNode
  rw [call_bind call_get]
  show call (if (OrderedDict.lookup c._nodes k).isSome then _ else _) c = _
  rw [if_pos hk, call_modify]

end Call

/-! ## Writes to the objects -/

section Writes

variable {c c' c'' : LruCache K V} {i : ℕ} {target : Option ℕ} {v : V} {k : K}

/-- A field of the objects after a write that keeps it. -/
theorem field_kept {β : Type} (f : Node K V → β) {n : Node K V} (h : f n = f (c.memory i)) :
    (fun j => f (Function.update c.memory i n j)) = fun j => f (c.memory j) := by
  show f ∘ Function.update c.memory i n = f ∘ c.memory
  rw [Function.comp_update, h]
  exact Function.update_eq_self i (f ∘ c.memory)

theorem next_withNext : (c.withNext i target).next = Function.update c.next i target :=
  Function.comp_update Node.next c.memory i _

@[simp] theorem prev_withNext : (c.withNext i target).prev = c.prev := field_kept Node.prev rfl
@[simp] theorem key_withNext : (c.withNext i target).key = c.key := field_kept Node.key rfl
@[simp] theorem value_withNext : (c.withNext i target).value = c.value := field_kept Node.value rfl

theorem prev_withPrev : (c.withPrev i target).prev = Function.update c.prev i target :=
  Function.comp_update Node.prev c.memory i _

@[simp] theorem next_withPrev : (c.withPrev i target).next = c.next := field_kept Node.next rfl
@[simp] theorem key_withPrev : (c.withPrev i target).key = c.key := field_kept Node.key rfl
@[simp] theorem value_withPrev : (c.withPrev i target).value = c.value := field_kept Node.value rfl

theorem value_withValue : (c.withValue i v).value = Function.update c.value i (some v) :=
  Function.comp_update Node.value c.memory i _

@[simp] theorem next_withValue : (c.withValue i v).next = c.next := field_kept Node.next rfl
@[simp] theorem prev_withValue : (c.withValue i v).prev = c.prev := field_kept Node.prev rfl
@[simp] theorem key_withValue : (c.withValue i v).key = c.key := field_kept Node.key rfl

theorem key_withNode : (c.withNode k v).key = Function.update c.key c.fresh (some k) :=
  Function.comp_update Node.key c.memory c.fresh _

theorem value_withNode : (c.withNode k v).value = Function.update c.value c.fresh (some v) :=
  Function.comp_update Node.value c.memory c.fresh _

theorem next_withNode : (c.withNode k v).next = Function.update c.next c.fresh none :=
  Function.comp_update Node.next c.memory c.fresh _

theorem prev_withNode : (c.withNode k v).prev = Function.update c.prev c.fresh none :=
  Function.comp_update Node.prev c.memory c.fresh _

/-- `c'` is `c` with other links between the objects. -/
structure Relinked (c c' : LruCache K V) : Prop where
  rest : c' = { c with memory := c'.memory }
  key : c'.key = c.key
  value : c'.value = c.value

theorem Relinked.refl : Relinked c c := ⟨rfl, rfl, rfl⟩

theorem Relinked.trans (h : Relinked c c') (h' : Relinked c' c'') : Relinked c c'' := by
  refine ⟨?_, h'.key.trans h.key, h'.value.trans h.value⟩
  rw [h'.rest, h.rest]

theorem Relinked.withNext (h : Relinked c c') (i : ℕ) (target : Option ℕ) :
    Relinked c (c'.withNext i target) :=
  h.trans ⟨rfl, key_withNext, value_withNext⟩

theorem Relinked.withPrev (h : Relinked c c') (i : ℕ) (target : Option ℕ) :
    Relinked c (c'.withPrev i target) :=
  h.trans ⟨rfl, key_withPrev, value_withPrev⟩

theorem Relinked.withNodes (h : Relinked c c') (nodes : OrderedDict K ℕ) :
    Relinked { c with _nodes := nodes } { c' with _nodes := nodes } := by
  refine ⟨?_, h.key, h.value⟩
  rw [h.rest]

theorem Relinked.head (h : Relinked c c') : c'._head = c._head := by rw [h.rest]
theorem Relinked.tail (h : Relinked c c') : c'._tail = c._tail := by rw [h.rest]
theorem Relinked.nodes (h : Relinked c c') : c'._nodes = c._nodes := by rw [h.rest]
theorem Relinked.capacity (h : Relinked c c') : c'._capacity = c._capacity := by rw [h.rest]
theorem Relinked.fresh (h : Relinked c c') : c'.fresh = c.fresh := by rw [h.rest]

end Writes

/-! ## The linked list -/

/-- The nodes `ids`, in this order, are linked between the two sentinels. -/
structure Chained (c : LruCache K V) (ids : List ℕ) : Prop where
  linked : Links.Linked c.next c.prev (c._head :: (ids ++ [c._tail]))
  nodup : (c._head :: (ids ++ [c._tail])).Nodup

section Chain

variable {c : LruCache K V} {ids xs ys : List ℕ} {n : ℕ}

theorem Chained.withNodes (h : c.Chained ids) (nodes : OrderedDict K ℕ) :
    { c with _nodes := nodes }.Chained ids :=
  ⟨h.linked, h.nodup⟩

/-- Without one of its nodes the list is still one of distinct nodes, and that one
is not among them. -/
theorem Chained.without (h : c.Chained (xs ++ n :: ys)) :
    n ∉ c._head :: ((xs ++ ys) ++ [c._tail]) ∧ (c._head :: ((xs ++ ys) ++ [c._tail])).Nodup := by
  have hperm : (c._head :: ((xs ++ n :: ys) ++ [c._tail])).Perm
      (n :: c._head :: ((xs ++ ys) ++ [c._tail])) := by
    refine (List.Perm.cons c._head ?_).trans (List.Perm.swap n c._head _)
    simp only [List.append_assoc, List.cons_append]
    exact List.perm_middle
  exact List.nodup_cons.mp (hperm.nodup_iff.mp h.nodup)

/-- The four writes of `_unlink`, for a node with two neighbours. -/
theorem call_unlink {a b : ℕ} (hprev : c.prev n = some a) (hnext : c.next n = some b)
    (hne : n ≠ a) : call (unlink n : Method K V E Unit) c
      = (.ok (), (((c.withNext a (some b)).withPrev b (some a)).withPrev n none).withNext n none) := by
  have hnext' : (c.withNext a (some b)).next n = some b := by
    rw [next_withNext, Function.update_of_ne hne, hnext]
  unfold unlink
  rw [call_bind call_get, hprev, hnext, call_bind (call_assertSome a),
    call_bind (call_assertSome b), call_bind (call_object a), call_bind (call_modify _),
    call_bind call_get, hnext', call_bind (call_object b), prev_withNext, hprev,
    call_bind (call_modify _), call_bind (call_modify _), call_modify]

/-- `_unlink` takes a node out of the list. -/
theorem unlink_ok (h : c.Chained (xs ++ n :: ys)) :
    ∃ c', call (unlink n : Method K V E Unit) c = (.ok (), c') ∧ Relinked c c' ∧
      c'.Chained (xs ++ ys) := by
  -- The neighbours of `n`, either of which may be a sentinel.
  obtain ⟨left, a, hleft⟩ : ∃ left a, c._head :: xs = left ++ [a] :=
    ⟨_, _, (List.dropLast_append_getLast (List.cons_ne_nil c._head xs)).symm⟩
  obtain ⟨b, right, hright⟩ : ∃ b right, ys ++ [c._tail] = b :: right :=
    List.exists_cons_of_ne_nil (by simp)
  have hwith : c._head :: ((xs ++ n :: ys) ++ [c._tail]) = left ++ a :: n :: b :: right := by
    calc c._head :: ((xs ++ n :: ys) ++ [c._tail])
        = (c._head :: xs) ++ n :: (ys ++ [c._tail]) := by simp
      _ = left ++ a :: n :: b :: right := by rw [hleft, hright]; simp
  have hwithout : c._head :: ((xs ++ ys) ++ [c._tail]) = left ++ a :: b :: right := by
    calc c._head :: ((xs ++ ys) ++ [c._tail])
        = (c._head :: xs) ++ (ys ++ [c._tail]) := by simp
      _ = left ++ a :: b :: right := by rw [hleft, hright]; simp
  have hlinked := h.linked
  have hnodup := h.nodup
  rw [hwith] at hlinked hnodup
  obtain ⟨-, ⟨-, hprev⟩, hrest⟩ := Links.linked_append_cons.mp hlinked
  have hnext : c.next n = some b := (List.isChain_cons_cons.mp hrest).1.1
  have hrelinked := (((Relinked.refl.withNext a (some b)).withPrev b (some a)).withPrev n
    none).withNext n none (c := c)
  refine ⟨_, call_unlink hprev hnext (Links.nodup_parts hnodup).1.1.symm, hrelinked, ⟨?_, ?_⟩⟩
  · rw [hrelinked.head, hrelinked.tail, hwithout]
    simp only [next_withNext, prev_withNext, next_withPrev, prev_withPrev]
    exact hlinked.unlink hnodup
  · rw [hrelinked.head, hrelinked.tail]
    exact h.without.2

/-- `_push_front` puts a node before the first one. -/
theorem push_front_ok (h : c.Chained ids) (hn : n ∉ c._head :: (ids ++ [c._tail])) :
    ∃ c', call (push_front n : Method K V E Unit) c = (.ok (), c') ∧ Relinked c c' ∧
      c'.Chained (n :: ids) := by
  obtain ⟨b, right, hright⟩ : ∃ b right, ids ++ [c._tail] = b :: right :=
    List.exists_cons_of_ne_nil (by simp)
  have hlinked := h.linked
  have hnodup := h.nodup
  rw [hright] at hlinked hnodup hn
  have hfirst : c.next c._head = some b := (List.isChain_cons_cons.mp hlinked).1.1
  have hwith : (c._head :: n :: b :: right).Nodup := by
    rw [List.nodup_cons] at hnodup
    rw [List.mem_cons, not_or] at hn
    refine List.nodup_cons.mpr ⟨?_, List.nodup_cons.mpr ⟨hn.2, hnodup.2⟩⟩
    rw [List.mem_cons, not_or]
    exact ⟨fun heq => hn.1 heq.symm, hnodup.1⟩
  have hcall : call (push_front n : Method K V E Unit) c
      = (.ok (), (((c.withPrev n (some c._head)).withNext n (some b)).withNext c._head
          (some n)).withPrev b (some n)) := by
    unfold push_front
    rw [call_bind call_get, hfirst, call_bind (call_assertSome b), call_bind (call_modify _),
      call_bind (call_modify _), call_bind (call_modify _), call_modify]
  have hrelinked := (((Relinked.refl.withPrev n (some c._head)).withNext n (some b)).withNext c._head
    (some n)).withPrev b (some n) (c := c)
  refine ⟨_, hcall, hrelinked, ⟨?_, ?_⟩⟩
  · rw [hrelinked.head, hrelinked.tail, List.cons_append, hright]
    simp only [next_withNext, prev_withNext, next_withPrev, prev_withPrev]
    have hbetween : Links.Linked c.next c.prev ([] ++ c._head :: b :: right) := hlinked
    exact hbetween.insert hwith
  · rw [hrelinked.head, hrelinked.tail, List.cons_append, hright]
    exact hwith

/-- `_move_to_front`. -/
theorem move_to_front_ok (h : c.Chained (xs ++ n :: ys)) :
    ∃ c', call (move_to_front n : Method K V E Unit) c = (.ok (), c') ∧ Relinked c c' ∧
      c'.Chained (n :: (xs ++ ys)) := by
  unfold move_to_front
  rw [call_bind call_get]
  by_cases hfront : c.next c._head = some n
  · -- A node that is first already has nothing before it.
    have hxs : xs = [] := by
      cases xs with
      | nil => rfl
      | cons x xs =>
          have hx : c.next c._head = some x := (List.isChain_cons_cons.mp h.linked).1.1
          rw [hfront] at hx
          cases hx
          have hnodup := h.nodup
          simp [List.nodup_append] at hnodup
    subst hxs
    rw [if_pos hfront]
    exact ⟨c, call_pure (), .refl, h⟩
  · rw [if_neg hfront]
    obtain ⟨c₁, hunlink, hrelinked, hchained⟩ := unlink_ok (E := E) h
    have hn : n ∉ c₁._head :: ((xs ++ ys) ++ [c₁._tail]) := by
      rw [hrelinked.head, hrelinked.tail]
      exact h.without.1
    obtain ⟨c₂, hpush, hrelinked', hchained'⟩ := push_front_ok (E := E) hchained hn
    refine ⟨c₂, ?_, hrelinked.trans hrelinked', hchained'⟩
    rw [call_bind hunlink, hpush]

end Chain

/-! ## The reference model

A list of pairs, most recently used first, without repeated keys, cut to the
capacity from the end. -/

/-- What can be asked of a cache. -/
inductive Operation (K V E : Type) where
  | get (key : K) (default : Option V)
  | put (key : K) (value : V)
  | get_or_load (key : K) (loader : K → Except E V)
  | invalidate (key : K)
  | clear
  | contains (key : K)
  | len
  | iter

/-- What it answers. -/
inductive Reply (K V : Type) where
  | value (value : Option V)
  | key (key : Option K)
  | flag (flag : Bool)
  | count (count : ℕ)
  | keys (keys : List (Option K))
  | done
deriving DecidableEq

variable [DecidableEq K]

/-- The pairs of the keys other than `key`. -/
def without (entries : List (K × V)) (key : K) : List (K × V) :=
  entries.filter (fun e => e.1 ≠ key)

/-- The value listed for `key`. -/
def find (entries : List (K × V)) (key : K) : Option V :=
  (entries.find? (fun e => e.1 = key)).map Prod.snd

/-- The pair in front, and what does not fit cut off. -/
def insertFront (capacity : ℕ) (entries : List (K × V)) (key : K) (value : V) : List (K × V) :=
  ((key, value) :: without entries key).take capacity

/-- The key that is cut off when the pair is put in front. -/
def cutOff (capacity : ℕ) (entries : List (K × V)) (key : K) (value : V) : Option K :=
  (((key, value) :: without entries key).drop capacity).head?.map Prod.fst

/-- The reference model's answer, and its list afterwards. -/
def answer (capacity : ℕ) (entries : List (K × V)) :
    Operation K V E → Except (CacheError E) (Reply K V) × List (K × V)
  | .get key default =>
      match find entries key with
      | none => (.ok (.value default), entries)
      | some value => (.ok (.value (some value)), insertFront capacity entries key value)
  | .put key value =>
      (.ok (.key (cutOff capacity entries key value)), insertFront capacity entries key value)
  | .get_or_load key loader =>
      match find entries key with
      | some value => (.ok (.value (some value)), insertFront capacity entries key value)
      | none =>
          match loader key with
          | .error err => (.error (.loader err), entries)
          | .ok value => (.ok (.value (some value)), insertFront capacity entries key value)
  | .invalidate key => (.ok (.flag (find entries key).isSome), without entries key)
  | .clear => (.ok .done, [])
  | .contains key => (.ok (.flag (find entries key).isSome), entries)
  | .len => (.ok (.count entries.length), entries)
  | .iter => (.ok (.keys (entries.map (fun e => some e.1))), entries)

/-- The operation as a method of the cache. -/
def perform : Operation K V E → Method K V E (Reply K V)
  | .get key default => do return .value (← LruCache.get key default)
  | .put key value => do return .key (← LruCache.put key value)
  | .get_or_load key loader => do return .value (← LruCache.get_or_load key loader)
  | .invalidate key => do return .flag (← LruCache.invalidate key)
  | .clear => do
      LruCache.clear
      return .done
  | .contains key => do
      let c ← MonadState.get
      return .flag (c.contains key)
  | .len => do
      let c ← MonadState.get
      return .count c.len
  | .iter => do
      let c ← MonadState.get
      match c.iter with
      | .ok keys => return .keys keys
      | .error err => throw err

/-! ## What a cache stands for -/

/-- The linked list holds `entries`, in the nodes `ids`, and the dictionary leads
to exactly these nodes, each under its own key. -/
structure Represents (c : LruCache K V) (ids : List ℕ) (entries : List (K × V)) : Prop where
  chained : c.Chained ids
  owned : ∀ i ∈ ids, i < c.fresh
  sentinels : c._head < c.fresh ∧ c._tail < c.fresh
  contents : ids.map (fun i => (c.key i, c.value i)) = entries.map (fun e => (some e.1, some e.2))
  index : ∀ k i, OrderedDict.lookup c._nodes k = some i ↔ i ∈ ids ∧ c.key i = some k

section Represents

variable {c c' : LruCache K V} {ids : List ℕ} {entries : List (K × V)} {k : K} {i : ℕ}

theorem Represents.length (h : c.Represents ids entries) : ids.length = entries.length := by
  have hlength := congrArg List.length h.contents
  rw [List.length_map, List.length_map] at hlength
  exact hlength

theorem Represents.keys (h : c.Represents ids entries) :
    ids.map c.key = entries.map (fun e => some e.1) := by
  have hkeys := congrArg (List.map Prod.fst) h.contents
  rw [List.map_map, List.map_map] at hkeys
  exact hkeys

/-- Every node of the list has a key, which leads to it. -/
theorem Represents.key_of_mem (h : c.Represents ids entries) (hi : i ∈ ids) :
    ∃ k, c.key i = some k ∧ OrderedDict.lookup c._nodes k = some i := by
  have hmem : c.key i ∈ entries.map (fun e => some e.1) := by
    rw [← h.keys]
    exact List.mem_map_of_mem hi
  obtain ⟨e, -, he⟩ := List.mem_map.mp hmem
  exact ⟨e.1, he.symm, (h.index e.1 i).mpr ⟨hi, he.symm⟩⟩

theorem Represents.nodup_ids (h : c.Represents ids entries) : ids.Nodup :=
  (List.nodup_append.mp (List.nodup_cons.mp h.chained.nodup).2).1

/-- No key is listed twice. -/
theorem Represents.nodup_keys (h : c.Represents ids entries) : (entries.map Prod.fst).Nodup := by
  have hinj : ∀ i ∈ ids, ∀ j ∈ ids, c.key i = c.key j → i = j := by
    intro i hi j hj hkey
    obtain ⟨k, hki, hlook⟩ := h.key_of_mem hi
    obtain ⟨k', hkj, hlook'⟩ := h.key_of_mem hj
    have hk : k = k' := Option.some.inj (hki.symm.trans (hkey.trans hkj))
    subst hk
    exact Option.some.inj (hlook.symm.trans hlook')
  have hnodup := List.Nodup.map_on hinj h.nodup_ids
  rw [h.keys] at hnodup
  refine List.Nodup.of_map some ?_
  rw [List.map_map]
  exact hnodup

/-- The nodes the dictionary leads to are those of the list. -/
theorem Represents.values (h : c.Represents ids entries) :
    ids.Perm (c._nodes.rows.map Prod.snd) := by
  have hnodup : (c._nodes.rows.map Prod.snd).Nodup := by
    refine List.Nodup.map_on ?_ (List.Nodup.of_map _ c._nodes.nodup)
    rintro ⟨k, i⟩ hi ⟨k', j⟩ hj hij
    cases hij
    have hkey := ((h.index k i).mp (OrderedDict.lookup_eq_some.mpr hi)).2
    have hkey' := ((h.index k' i).mp (OrderedDict.lookup_eq_some.mpr hj)).2
    rw [Option.some.inj (hkey.symm.trans hkey')]
  refine (List.perm_ext_iff_of_nodup h.nodup_ids hnodup).mpr (fun i => ?_)
  rw [List.mem_map]
  constructor
  · intro hi
    obtain ⟨k, -, hlook⟩ := h.key_of_mem hi
    exact ⟨(k, i), OrderedDict.lookup_eq_some.mp hlook, rfl⟩
  · rintro ⟨⟨k, j⟩, hrow, rfl⟩
    exact ((h.index k j).mp (OrderedDict.lookup_eq_some.mpr hrow)).1

theorem Represents.len (h : c.Represents ids entries) : c.len = entries.length := by
  have hlength := h.values.length_eq
  rw [List.length_map] at hlength
  exact hlength.symm.trans h.length

/-- A key in the dictionary: its node and its pair stand at the same place. -/
theorem Represents.split (h : c.Represents ids entries)
    (hk : OrderedDict.lookup c._nodes k = some i) :
    ∃ xs ys before after v, ids = xs ++ i :: ys ∧ entries = before ++ (k, v) :: after ∧
      c.value i = some v ∧
      xs.map (fun i => (c.key i, c.value i)) = before.map (fun e => (some e.1, some e.2)) ∧
      ys.map (fun i => (c.key i, c.value i)) = after.map (fun e => (some e.1, some e.2)) := by
  obtain ⟨hi, hkey⟩ := (h.index k i).mp hk
  obtain ⟨xs, ys, rfl⟩ := List.append_of_mem hi
  have hcontents := h.contents.symm
  rw [List.map_append, List.map_cons] at hcontents
  obtain ⟨before, rest, rfl, hbefore, hrest⟩ := List.map_eq_append_iff.mp hcontents
  obtain ⟨⟨k', v⟩, after, rfl, hpair, hafter⟩ := List.map_eq_cons_iff.mp hrest
  obtain ⟨hk', hv⟩ := Prod.mk.inj hpair
  have hkk : k' = k := Option.some.inj (hk'.trans hkey)
  subst hkk
  exact ⟨xs, ys, before, after, v, rfl, rfl, hv.symm, hbefore.symm, hafter.symm⟩

/-- A key with a pair in a list without repeated keys: the value found, and the
list without it. -/
theorem find_split {before after : List (K × V)} {v : V}
    (hnodup : ((before ++ (k, v) :: after).map Prod.fst).Nodup) :
    find (before ++ (k, v) :: after) k = some v ∧
      without (before ++ (k, v) :: after) k = before ++ after := by
  have hbefore : ∀ e ∈ before, e.1 ≠ k := by
    intro e he hkey
    rw [List.map_append, List.map_cons] at hnodup
    exact (List.nodup_append.mp hnodup).2.2 _ (List.mem_map_of_mem he) _ (by simp) hkey
  have hafter : ∀ e ∈ after, e.1 ≠ k := by
    intro e he hkey
    rw [List.map_append, List.map_cons] at hnodup
    have hmem := List.mem_map_of_mem (f := Prod.fst) he
    rw [hkey] at hmem
    exact (List.nodup_cons.mp (List.nodup_append.mp hnodup).2.1).1 hmem
  constructor
  · rw [find, List.find?_append, List.find?_eq_none.mpr (by simpa using hbefore)]
    simp
  · rw [without, List.filter_append, List.filter_cons_of_neg (by simp),
      List.filter_eq_self.mpr (by simpa using hbefore), List.filter_eq_self.mpr (by simpa using hafter)]

/-- A key that is not in the dictionary has no pair. -/
theorem Represents.absent (h : c.Represents ids entries)
    (hk : OrderedDict.lookup c._nodes k = none) :
    find entries k = none ∧ without entries k = entries := by
  have hne : ∀ e ∈ entries, e.1 ≠ k := by
    rintro e he rfl
    have hmem : some e.1 ∈ ids.map c.key := by
      rw [h.keys]
      exact List.mem_map_of_mem he
    obtain ⟨i, hi, hkey⟩ := List.mem_map.mp hmem
    rw [(h.index e.1 i).mpr ⟨hi, hkey⟩] at hk
    cases hk
  constructor
  · rw [find, List.find?_eq_none.mpr (by simpa using hne)]
    rfl
  · exact List.filter_eq_self.mpr (by simpa using hne)

/-- Counting hits and misses changes nothing of what a cache stands for. -/
theorem Represents.counted (h : c.Represents ids entries) (hits misses : ℕ) :
    { c with _hits := hits, _misses := misses }.Represents ids entries :=
  ⟨⟨h.chained.linked, h.chained.nodup⟩, h.owned, h.sentinels, h.contents, h.index⟩

/-! ## The internal operations on the list of pairs -/

variable {xs ys : List ℕ} {before after : List (K × V)} {v : V}

/-- `_move_to_front` on the node of a key brings its pair to the front. -/
theorem Represents.move_to_front (h : c.Represents (xs ++ i :: ys) (before ++ (k, v) :: after))
    (hlength : xs.length = before.length) :
    ∃ c', call (LruCache.move_to_front i : Method K V E Unit) c = (.ok (), c') ∧ Relinked c c' ∧
      c'.Represents (i :: (xs ++ ys)) ((k, v) :: (before ++ after)) := by
  obtain ⟨c', hcall, hrelinked, hchained⟩ := move_to_front_ok (E := E) h.chained
  have hmem : ∀ j, j ∈ i :: (xs ++ ys) ↔ j ∈ xs ++ i :: ys :=
    fun j => (List.perm_middle.mem_iff).symm
  refine ⟨c', hcall, hrelinked, ⟨hchained, fun j hj => ?_, ?_, ?_, fun k' j => ?_⟩⟩
  · rw [hrelinked.fresh]
    exact h.owned j ((hmem j).mp hj)
  · rw [hrelinked.head, hrelinked.tail, hrelinked.fresh]
    exact h.sentinels
  · have hcontents := h.contents
    rw [hrelinked.key, hrelinked.value]
    rw [List.map_append, List.map_append, List.map_cons, List.map_cons] at hcontents
    obtain ⟨hleft, hright⟩ := List.append_inj hcontents (by simpa using hlength)
    obtain ⟨hmid, hright⟩ := List.cons.inj hright
    rw [List.map_cons, List.map_cons, List.map_append, List.map_append, hmid, hleft, hright]
  · rw [hrelinked.nodes, hrelinked.key, hmem j]
    exact h.index k' j

/-- A key deleted from the dictionary, its node taken out of the list: its pair is
gone. -/
theorem Represents.drop (h : c.Represents (xs ++ i :: ys) (before ++ (k, v) :: after))
    (hlength : xs.length = before.length) (hchained : c'.Chained (xs ++ ys))
    (hrelinked : Relinked { c with _nodes := OrderedDict.erase c._nodes k } c') :
    c'.Represents (xs ++ ys) (before ++ after) := by
  have hcontents := h.contents
  rw [List.map_append, List.map_append, List.map_cons, List.map_cons] at hcontents
  obtain ⟨hleft, hright⟩ := List.append_inj hcontents (by simpa using hlength)
  obtain ⟨hmid, hright⟩ := List.cons.inj hright
  have hkeys : c'.key = c.key := hrelinked.key
  have hvalues : c'.value = c.value := hrelinked.value
  have hkey : c.key i = some k := (Prod.mk.inj hmid).1
  have hlook : OrderedDict.lookup c._nodes k = some i := (h.index k i).mpr ⟨by simp, hkey⟩
  have hmem : ∀ j, j ∈ xs ++ i :: ys ↔ j = i ∨ j ∈ xs ++ ys := by
    intro j
    rw [List.perm_middle.mem_iff, List.mem_cons]
  have hi : i ∉ xs ++ ys := by
    intro hi
    exact h.chained.without.1 (List.mem_cons_of_mem _ (List.mem_append_left _ hi))
  refine ⟨hchained, fun j hj => ?_, ?_, ?_, fun k' j => ?_⟩
  · rw [hrelinked.fresh]
    exact h.owned j ((hmem j).mpr (Or.inr hj))
  · rw [hrelinked.head, hrelinked.tail, hrelinked.fresh]
    exact h.sentinels
  · rw [hkeys, hvalues, List.map_append, List.map_append, hleft, hright]
  · rw [hrelinked.nodes, hkeys, OrderedDict.lookup_erase]
    by_cases hk : k' = k
    · -- The dictionary has given up `k`, and no other node has it.
      subst hk
      rw [if_pos rfl]
      refine iff_of_false (by simp) ?_
      rintro ⟨hj, hkj⟩
      have hlook' := (h.index k' j).mpr ⟨(hmem j).mpr (Or.inr hj), hkj⟩
      rw [hlook] at hlook'
      cases hlook'
      exact hi hj
    · rw [if_neg hk, h.index, hmem]
      refine and_congr_left (fun hkj => or_iff_right ?_)
      rintro rfl
      exact hk (Option.some.inj (hkj.symm.trans hkey))

/-- `_evict` drops the last pair and returns its key. -/
theorem Represents.evict (h : c.Represents (xs ++ [i]) (before ++ [(k, v)])) :
    ∃ c', call (LruCache.evict : Method K V E (Option K)) c = (.ok (some k), c') ∧
      c'._capacity = c._capacity ∧ c'.Represents xs before := by
  have hlength : xs.length = before.length := by
    have hlength := h.length
    rw [List.length_append, List.length_append] at hlength
    exact Nat.add_right_cancel hlength
  have hchain : c._head :: ((xs ++ [i]) ++ [c._tail]) = (c._head :: xs) ++ i :: [c._tail] := by simp
  have hkey : c.key i = some k := by
    have hkeys := h.keys
    rw [List.map_append, List.map_append] at hkeys
    exact List.singleton_inj.mp (List.append_inj_right hkeys (by simpa using hlength))
  have hlook : OrderedDict.lookup c._nodes k = some i := (h.index k i).mpr ⟨by simp, hkey⟩
  have hprev : c.prev c._tail = some i := by
    have hlinked := h.chained.linked
    rw [hchain] at hlinked
    exact (Links.linked_append_cons.mp hlinked).2.1.2
  have hhead : i ≠ c._head := by
    rintro rfl
    exact h.chained.without.1 (by simp)
  obtain ⟨c₁, hunlink, hrelinked, hchained⟩ := unlink_ok (E := E) h.chained
  have hdrop := h.drop hlength (hchained.withNodes _) (hrelinked.withNodes _)
  rw [List.append_nil, List.append_nil, ← hrelinked.nodes] at hdrop
  have hsome : (OrderedDict.lookup c₁._nodes k).isSome := by
    rw [hrelinked.nodes, hlook]
    rfl
  refine ⟨{ c₁ with _nodes := OrderedDict.erase c₁._nodes k }, ?_, hrelinked.capacity, hdrop⟩
  unfold LruCache.evict
  rw [call_bind call_get, hprev, call_bind (call_assertSome i), if_neg hhead, call_bind hunlink,
    call_bind call_get, hrelinked.key, hkey, call_bind (call_delNode hsome), call_pure]

/-- A new node, entered under its key and put in front. -/
theorem Represents.insert (h : c.Represents ids entries)
    (hk : OrderedDict.lookup c._nodes k = none) (v : V) :
    ∃ c', call (push_front c.fresh : Method K V E Unit)
        { c.withNode k v with _nodes := OrderedDict.set c._nodes k c.fresh } = (.ok (), c') ∧
      c'._capacity = c._capacity ∧ c'.Represents (c.fresh :: ids) ((k, v) :: entries) := by
  -- No node of the list, nor a sentinel, is the new object.
  have hnew : ∀ i ∈ c._head :: (ids ++ [c._tail]), i ≠ c.fresh := by
    intro i hi
    rw [List.mem_cons, List.mem_append, List.mem_singleton] at hi
    rcases hi with rfl | hi | rfl
    · exact Nat.ne_of_lt h.sentinels.1
    · exact Nat.ne_of_lt (h.owned i hi)
    · exact Nat.ne_of_lt h.sentinels.2
  have hids : ∀ i ∈ ids, i ≠ c.fresh :=
    fun i hi => hnew i (List.mem_cons_of_mem _ (List.mem_append_left _ hi))
  have hchained : (c.withNode k v).Chained ids := by
    refine ⟨?_, h.chained.nodup⟩
    rw [next_withNode, prev_withNode]
    exact h.chained.linked.frame
      (fun i hi => Function.update_of_ne (hnew i (List.dropLast_subset _ hi)) _ _)
      (fun i hi => Function.update_of_ne (hnew i (List.mem_of_mem_tail hi)) _ _)
  obtain ⟨c', hcall, hrelinked, hchained'⟩ := push_front_ok (E := E)
    (hchained.withNodes (OrderedDict.set c._nodes k c.fresh)) (fun hmem => hnew _ hmem rfl)
  have hkeys : c'.key = Function.update c.key c.fresh (some k) := hrelinked.key.trans key_withNode
  have hvalues : c'.value = Function.update c.value c.fresh (some v) :=
    hrelinked.value.trans value_withNode
  have hfresh : c'.fresh = c.fresh + 1 := hrelinked.fresh
  refine ⟨c', hcall, hrelinked.capacity, ⟨hchained', fun i hi => ?_, ?_, ?_, fun k' i => ?_⟩⟩
  · rw [hfresh]
    rcases List.mem_cons.mp hi with rfl | hi
    · exact Nat.lt_succ_self _
    · exact Nat.lt_succ_of_lt (h.owned i hi)
  · rw [hrelinked.head, hrelinked.tail, hfresh]
    exact ⟨Nat.lt_succ_of_lt h.sentinels.1, Nat.lt_succ_of_lt h.sentinels.2⟩
  · rw [List.map_cons, List.map_cons, hkeys, hvalues, Function.update_self, Function.update_self,
      ← h.contents]
    refine congrArg _ (List.map_congr_left (fun i hi => ?_))
    rw [Function.update_of_ne (hids i hi), Function.update_of_ne (hids i hi)]
  · have hnodes : c'._nodes = OrderedDict.set c._nodes k c.fresh := hrelinked.nodes
    rw [hnodes, OrderedDict.lookup_set, hkeys, List.mem_cons]
    by_cases hi : i = c.fresh
    · subst hi
      rw [Function.update_self]
      have hnot : c.fresh ∉ ids := fun hmem => hids _ hmem rfl
      by_cases hk' : k' = k
      · simp [hk']
      · have hother : OrderedDict.lookup c._nodes k' ≠ some c.fresh :=
          fun hlook => hnot ((h.index k' c.fresh).mp hlook).1
        rw [if_neg hk']
        exact iff_of_false hother (fun hkey => hk' (Option.some.inj hkey.2).symm)
    · rw [Function.update_of_ne hi, or_iff_right hi, ← h.index]
      by_cases hk' : k' = k
      · subst hk'
        rw [if_pos rfl, hk]
        exact iff_of_false (fun heq => hi (Option.some.inj heq).symm) (by simp)
      · rw [if_neg hk']

end Represents

/-! ## The public operations -/

/-- `c` is a cache of this capacity that stands for `entries`. -/
structure Refines (capacity : ℕ) (c : LruCache K V) (entries : List (K × V)) : Prop where
  capped : c._capacity = capacity
  bounded : entries.length ≤ capacity
  represents : ∃ ids, c.Represents ids entries

section Refines

variable {capacity : ℕ} {c : LruCache K V} {entries : List (K × V)} {k : K} {i : ℕ} {v : V}

/-- An entry that is there moves to the front, and nothing is cut off. -/
theorem Refines.found (h : Refines capacity c entries)
    (hk : OrderedDict.lookup c._nodes k = some i) :
    ∃ v c', find entries k = some v ∧
      ((k, v) :: without entries k).length ≤ capacity ∧
      call (move_to_front i : Method K V E Unit) c = (.ok (), c') ∧ c'.value i = some v ∧
      Refines capacity c' (insertFront capacity entries k v) := by
  obtain ⟨ids, hrep⟩ := h.represents
  obtain ⟨xs, ys, before, after, v, rfl, rfl, hv, hbefore, hafter⟩ := hrep.split hk
  obtain ⟨hfind, hwithout⟩ := find_split hrep.nodup_keys
  have hlength : xs.length = before.length := by simpa using congrArg List.length hbefore
  obtain ⟨c', hcall, hrelinked, hrep'⟩ := hrep.move_to_front (E := E) hlength
  have hfits : ((k, v) :: (before ++ after)).length ≤ capacity := by
    have hbounded := h.bounded
    simp only [List.length_append, List.length_cons] at hbounded ⊢
    exact hbounded
  unfold insertFront
  rw [hwithout]
  refine ⟨v, c', hfind, hfits, hcall, by rw [hrelinked.value, hv], ?_, ?_, ?_⟩
  · rw [hrelinked.capacity, h.capped]
  · exact List.length_take_le _ _
  · rw [List.take_of_length_le hfits]
    exact ⟨_, hrep'⟩

theorem Refines.counted (h : Refines capacity c entries) (hits misses : ℕ) :
    Refines capacity { c with _hits := hits, _misses := misses } entries := by
  obtain ⟨ids, hrep⟩ := h.represents
  exact ⟨h.capped, h.bounded, ids, hrep.counted hits misses⟩

/-- An absent key has no pair. -/
theorem Refines.absent (h : Refines capacity c entries)
    (hk : OrderedDict.lookup c._nodes k = none) :
    find entries k = none ∧ without entries k = entries := by
  obtain ⟨ids, hrep⟩ := h.represents
  exact hrep.absent hk

/-- A key is in the dictionary when it has a pair. -/
theorem Refines.contains (h : Refines capacity c entries) (k : K) :
    c.contains k = (find entries k).isSome := by
  unfold LruCache.contains
  cases hk : OrderedDict.lookup c._nodes k with
  | none =>
      rw [(h.absent hk).1]
      rfl
  | some i =>
      obtain ⟨v, c', hfind, -⟩ := h.found (E := Empty) hk
      rw [hfind]
      rfl

/-- Assigning to the value of a node changes the value of its pair. -/
theorem Refines.withValue (h : Refines capacity c entries)
    (hk : OrderedDict.lookup c._nodes k = some i) (v : V) :
    ∃ entries', Refines capacity (c.withValue i v) entries' ∧ find entries' k = some v ∧
      without entries' k = without entries k := by
  obtain ⟨ids, hrep⟩ := h.represents
  obtain ⟨xs, ys, before, after, v₀, rfl, rfl, hv, hbefore, hafter⟩ := hrep.split hk
  have hkey := ((hrep.index k i).mp hk).2
  have hout : ∀ j ∈ xs ++ ys, j ≠ i := by
    rintro j hj rfl
    exact hrep.chained.without.1 (List.mem_cons_of_mem _ (List.mem_append_left _ hj))
  have hrep' : (c.withValue i v).Represents (xs ++ i :: ys) (before ++ (k, v) :: after) := by
    refine ⟨⟨?_, hrep.chained.nodup⟩, hrep.owned, hrep.sentinels, ?_, ?_⟩
    · rw [next_withValue, prev_withValue]
      exact hrep.chained.linked
    · have hkept : ∀ zs : List ℕ, (∀ j ∈ zs, j ∈ xs ++ ys) →
          zs.map (fun j => (c.key j, Function.update c.value i (some v) j))
            = zs.map (fun j => (c.key j, c.value j)) := by
        intro zs hzs
        refine List.map_congr_left (fun j hj => ?_)
        rw [Function.update_of_ne (hout j (hzs j hj))]
      rw [key_withValue, value_withValue, List.map_append, List.map_cons, List.map_append,
        List.map_cons, hkept xs (fun j hj => List.mem_append_left _ hj),
        hkept ys (fun j hj => List.mem_append_right _ hj), hbefore, hafter, hkey,
        Function.update_self]
    · rw [key_withValue]
      exact hrep.index
  obtain ⟨hfind, hwithout⟩ := find_split hrep'.nodup_keys
  refine ⟨_, ⟨h.capped, ?_, _, hrep'⟩, hfind, ?_⟩
  · have hbounded := h.bounded
    simp only [List.length_append, List.length_cons] at hbounded ⊢
    exact hbounded
  · rw [hwithout, (find_split hrep.nodup_keys).2]

theorem get_ok (h : Refines capacity c entries) (k : K) (default : Option V) :
    ∃ c', call (LruCache.get k default : Method K V E (Option V)) c
        = (.ok ((find entries k).or default), c') ∧
      Refines capacity c' (match find entries k with
        | none => entries
        | some v => insertFront capacity entries k v) := by
  unfold LruCache.get
  rw [call_bind call_get]
  cases hk : OrderedDict.lookup c._nodes k with
  | none =>
      rw [(h.absent hk).1, call_bind (call_modify _), call_pure]
      exact ⟨_, rfl, h.counted c._hits (c._misses + 1)⟩
  | some i =>
      have hcounted := h.counted (c._hits + 1) c._misses
      obtain ⟨v, c', hfind, -, hmove, hv, hrefines⟩ := hcounted.found (E := E) (k := k) (i := i) hk
      rw [hfind, call_bind (call_modify _), call_bind hmove, call_bind call_get, call_pure, hv]
      exact ⟨c', rfl, hrefines⟩

/-- One pair too many at most, and then the last one goes. -/
theorem cut_ok {ids : List ℕ} {e : K × V} (hrep : c.Represents ids (e :: entries))
    (hcap : c._capacity = capacity) (hbounded : entries.length ≤ capacity) :
    ∃ c', call (if (c.len : ℤ) > c._capacity then evict else pure none :
        Method K V E (Option K)) c
        = (.ok ((((e :: entries).drop capacity).head?).map Prod.fst), c') ∧
      Refines capacity c' ((e :: entries).take capacity) := by
  have hlen : c.len = entries.length + 1 := hrep.len
  by_cases hfull : (c.len : ℤ) > c._capacity
  · rw [hcap, hlen] at hfull
    have hlength : entries.length = capacity := by omega
    -- The last pair and the last node.
    obtain ⟨before, ⟨k, v⟩, hbefore⟩ : ∃ before last, e :: entries = before ++ [last] :=
      ⟨_, _, (List.dropLast_append_getLast (List.cons_ne_nil e entries)).symm⟩
    have hids : ids ≠ [] := by
      rintro rfl
      cases hrep.length
    obtain ⟨xs, i, rfl⟩ : ∃ xs i, ids = xs ++ [i] :=
      ⟨_, _, (List.dropLast_append_getLast hids).symm⟩
    have hcapacity : before.length = capacity := by
      have hlengths := congrArg List.length hbefore
      rw [List.length_cons, List.length_append, List.length_singleton] at hlengths
      omega
    rw [hbefore] at hrep ⊢
    obtain ⟨c', hevict, hcap', hrep'⟩ := hrep.evict (E := E)
    rw [if_pos (by rw [hcap, hlen]; exact hfull), List.drop_left' hcapacity,
      List.take_left' hcapacity]
    exact ⟨c', hevict, hcap'.trans hcap, hcapacity.le, xs, hrep'⟩
  · rw [if_neg hfull]
    rw [hcap, hlen] at hfull
    have hfits : (e :: entries).length ≤ capacity := by
      rw [List.length_cons]
      omega
    rw [List.drop_eq_nil_of_le hfits, List.take_of_length_le hfits]
    exact ⟨c, rfl, hcap, hfits, ids, hrep⟩

/-- `put` puts the pair in front and returns the key that is cut off. -/
theorem put_ok (h : Refines capacity c entries) (k : K) (v : V) :
    ∃ c', call (LruCache.put k v : Method K V E (Option K)) c
        = (.ok (cutOff capacity entries k v), c') ∧
      Refines capacity c' (insertFront capacity entries k v) := by
  unfold LruCache.put
  rw [call_bind call_get]
  by_cases hzero : c._capacity = 0
  · -- With no capacity nothing is kept, and the pair itself is cut off.
    have hcap : capacity = 0 := by
      rw [h.capped] at hzero
      exact Int.natCast_eq_zero.mp hzero
    subst hcap
    have hnil : entries = [] := List.length_eq_zero_iff.mp (Nat.le_zero.mp h.bounded)
    subst hnil
    rw [if_pos hzero]
    exact ⟨c, rfl, h⟩
  · rw [if_neg hzero]
    cases hk : OrderedDict.lookup c._nodes k with
    | some i =>
        obtain ⟨entries', hrefines, hfind, hwithout⟩ := h.withValue hk v
        obtain ⟨v', c', hfind', hfits, hmove, -, hrefines'⟩ := hrefines.found (E := E) (k := k) (i := i) hk
        have hv : v' = v := Option.some.inj (hfind'.symm.trans hfind)
        subst hv
        rw [hwithout] at hfits
        refine ⟨c', ?_, ?_⟩
        · rw [call_bind (call_modify _), call_bind hmove, call_pure, cutOff,
            List.drop_eq_nil_of_le hfits]
          rfl
        · rw [insertFront, hwithout] at hrefines'
          exact hrefines'
    | none =>
        obtain ⟨ids, hrep⟩ := h.represents
        obtain ⟨c', hpush, hcap, hrep'⟩ := hrep.insert (E := E) hk v
        have hlen : c'.len = entries.length + 1 := hrep'.len
        obtain ⟨c'', hcut, hrefines⟩ := cut_ok (E := E) hrep' (hcap.trans h.capped) h.bounded
        refine ⟨c'', ?_, ?_⟩
        · rw [call_bind (call_modify _), call_bind (call_modify _), cutOff, (hrep.absent hk).2,
            ← hcut]
          exact (call_bind hpush).trans (call_bind call_get)
        · rw [insertFront, (hrep.absent hk).2]
          exact hrefines

theorem invalidate_ok (h : Refines capacity c entries) (k : K) :
    ∃ c', call (LruCache.invalidate k : Method K V E Bool) c
        = (.ok (find entries k).isSome, c') ∧ Refines capacity c' (without entries k) := by
  unfold LruCache.invalidate
  rw [call_bind call_get]
  cases hk : OrderedDict.lookup c._nodes k with
  | none =>
      rw [(h.absent hk).1, (h.absent hk).2]
      exact ⟨c, rfl, h⟩
  | some i =>
      obtain ⟨ids, hrep⟩ := h.represents
      obtain ⟨xs, ys, before, after, v, rfl, rfl, -, hbefore, -⟩ := hrep.split hk
      obtain ⟨hfind, hwithout⟩ := find_split hrep.nodup_keys
      have hlength : xs.length = before.length := by simpa using congrArg List.length hbefore
      obtain ⟨c', hunlink, hrelinked, hchained⟩ := unlink_ok (E := E)
        (hrep.chained.withNodes (OrderedDict.erase c._nodes k))
      refine ⟨c', ?_, ?_, ?_, xs ++ ys, ?_⟩
      · rw [call_bind (call_modify _), call_bind hunlink, call_pure, hfind]
        rfl
      · exact hrelinked.capacity.trans h.capped
      · exact (List.length_filter_le _ _).trans h.bounded
      · rw [hwithout]
        exact hrep.drop hlength hchained hrelinked

theorem clear_ok (h : Refines capacity c entries) :
    ∃ c', call (LruCache.clear : Method K V E Unit) c = (.ok (), c') ∧ Refines capacity c' [] := by
  obtain ⟨ids, hrep⟩ := h.represents
  have hne : c._head ≠ c._tail := by
    intro heq
    exact (List.nodup_cons.mp hrep.chained.nodup).1 (by rw [heq]; simp)
  refine ⟨({ c with _nodes := Table.empty }.withNext c._head (some c._tail)).withPrev c._tail
    (some c._head), ?_, h.capped, Nat.zero_le _, [], ⟨⟨?_, ?_⟩, ?_, hrep.sentinels, rfl, ?_⟩⟩
  · unfold LruCache.clear
    rw [call_bind (call_modify _), call_bind (call_modify _), call_modify]
    rfl
  · rw [next_withPrev, next_withNext, prev_withPrev]
    refine List.isChain_cons_cons.mpr ⟨⟨?_, ?_⟩, List.IsChain.singleton _⟩
    · exact Function.update_self _ _ _
    · exact Function.update_self _ _ _
  · exact List.nodup_cons.mpr ⟨fun hmem => hne (List.mem_singleton.mp hmem), List.nodup_singleton _⟩
  · intro i hi
    cases hi
  · intro k i
    refine iff_of_false (fun hlook => ?_) (fun hmem => ?_)
    · cases hlook
    · cases hmem.1

/-- `get_or_load` on a key that is there. -/
theorem get_or_load_found (h : Refines capacity c entries) (loader : K → Except E V)
    (hk : OrderedDict.lookup c._nodes k = some i) :
    ∃ v c', find entries k = some v ∧
      call (LruCache.get_or_load k loader) c = (.ok (some v), c') ∧
      Refines capacity c' (insertFront capacity entries k v) := by
  have hcounted := h.counted (c._hits + 1) c._misses
  obtain ⟨v, c', hfind, -, hmove, hv, hrefines⟩ := hcounted.found (E := E) (k := k) (i := i) hk
  refine ⟨v, c', hfind, ?_, hrefines⟩
  unfold LruCache.get_or_load
  rw [call_bind call_get, hk]
  show call (modify _ >>= fun _ => _) c = _
  rw [call_bind (call_modify _), call_bind hmove, call_bind call_get, call_pure, hv]

/-- A loader that raises leaves the entries as they were. -/
theorem get_or_load_raises (h : Refines capacity c entries) {loader : K → Except E V} {err : E}
    (hk : OrderedDict.lookup c._nodes k = none) (hload : loader k = .error err) :
    ∃ c', call (LruCache.get_or_load k loader) c = (.error (.loader err), c') ∧
      Refines capacity c' entries := by
  refine ⟨_, ?_, h.counted c._hits (c._misses + 1)⟩
  unfold LruCache.get_or_load
  rw [call_bind call_get, hk]
  show call (modify _ >>= fun _ => _) c = _
  rw [call_bind (call_modify _), hload]
  rfl

/-- What a loader returns is put in front. -/
theorem get_or_load_loads (h : Refines capacity c entries) {loader : K → Except E V}
    (hk : OrderedDict.lookup c._nodes k = none) (hload : loader k = .ok v) :
    ∃ c', call (LruCache.get_or_load k loader) c = (.ok (some v), c') ∧
      Refines capacity c' (insertFront capacity entries k v) := by
  obtain ⟨c', hput, hrefines⟩ := put_ok (E := E) (h.counted c._hits (c._misses + 1)) k v
  refine ⟨c', ?_, hrefines⟩
  unfold LruCache.get_or_load
  rw [call_bind call_get, hk]
  show call (modify _ >>= fun _ => _) c = _
  rw [call_bind (call_modify _), hload]
  show call (LruCache.put k v >>= fun _ => _) _ = _
  rw [call_bind hput, call_pure]

/-! ## Walks -/

/-- There are more objects than nodes in the list. -/
theorem Represents.length_lt {ids : List ℕ} (h : c.Represents ids entries) :
    ids.length < c.fresh := by
  have hnodup : (c._head :: ids).Nodup :=
    h.chained.nodup.sublist ((List.sublist_append_left ids [c._tail]).cons_cons c._head)
  have hsub : (c._head :: ids) ⊆ List.range c.fresh := by
    intro i hi
    rw [List.mem_range]
    rcases List.mem_cons.mp hi with rfl | hi
    · exact h.sentinels.1
    · exact h.owned i hi
  have hlength := (List.subperm_of_subset hnodup hsub).length_le
  rw [List.length_cons, List.length_range] at hlength
  exact hlength

/-- The forward walk from `_head`. -/
def forward (c : LruCache K V) : Option (List ℕ) :=
  Links.walk c.next c._tail c.fresh (c.next c._head)

/-- The backward walk from `_tail`. -/
def backward (c : LruCache K V) : Option (List ℕ) :=
  Links.walk c.prev c._head c.fresh (c.prev c._tail)

theorem Represents.forward {ids : List ℕ} (h : c.Represents ids entries) :
    c.forward = some ids := by
  refine h.chained.linked.walk (fun hmem => ?_) h.length_lt
  have hnodup := (List.nodup_cons.mp h.chained.nodup).2
  exact (List.nodup_append.mp hnodup).2.2 _ hmem _ (by simp) rfl

theorem Represents.backward {ids : List ℕ} (h : c.Represents ids entries) :
    c.backward = some ids.reverse := by
  have hlinked := h.chained.linked.reverse
  rw [List.reverse_cons, List.reverse_append, List.reverse_singleton, List.singleton_append,
    List.cons_append] at hlinked
  refine hlinked.walk (fun hmem => ?_) (by rw [List.length_reverse]; exact h.length_lt)
  rw [List.mem_reverse] at hmem
  exact (List.nodup_cons.mp h.chained.nodup).1 (List.mem_append_left _ hmem)

omit [DecidableEq K] in
/-- `__iter__` yields the keys of the nodes it walks along. -/
theorem iterLoop_eq {ids : List ℕ} {rounds : ℕ} {start : Option ℕ}
    (h : Links.walk c.next c._tail rounds start = some ids) :
    c.iterLoop rounds start = (.ok (ids.map c.key) : Except (CacheError E) _) := by
  induction rounds generalizing start ids with
  | zero => cases h
  | succ rounds ih =>
      cases start with
      | none =>
          cases h
          rfl
      | some i =>
          rw [Links.walk] at h
          rw [iterLoop]
          by_cases hi : i = c._tail
          · rw [if_pos hi] at h ⊢
            cases h
            rfl
          · rw [if_neg hi] at h ⊢
            obtain ⟨rest, hrest, rfl⟩ := Option.map_eq_some_iff.mp h
            rw [ih hrest]
            rfl

theorem Represents.iter {ids : List ℕ} (h : c.Represents ids entries) :
    c.iter = (.ok (entries.map (fun e => some e.1)) : Except (CacheError E) _) := by
  rw [← h.keys]
  exact iterLoop_eq h.forward

/-! ## The refinement -/

/-- Every operation is answered as in the reference model. -/
theorem perform_ok (h : Refines capacity c entries) (op : Operation K V E) :
    ∃ c', call (perform op) c = ((answer capacity entries op).1, c') ∧
      Refines capacity c' (answer capacity entries op).2 := by
  cases op with
  | get k default =>
      obtain ⟨c', hget, hrefines⟩ := get_ok (E := E) h k default
      refine ⟨c', ?_, ?_⟩
      · rw [perform, call_bind hget, call_pure, answer]
        cases find entries k with
        | none => rfl
        | some v => rfl
      · rw [answer]
        cases hfind : find entries k with
        | none =>
            rw [hfind] at hrefines
            exact hrefines
        | some v =>
            rw [hfind] at hrefines
            exact hrefines
  | put k v =>
      obtain ⟨c', hput, hrefines⟩ := put_ok (E := E) h k v
      exact ⟨c', call_bind hput, hrefines⟩
  | get_or_load k loader =>
      rw [perform, answer]
      -- The loader is asked only where the key is absent, and what it raises leaves the cache alone.
      cases hk : OrderedDict.lookup c._nodes k with
      | some i =>
          obtain ⟨v, c', hfind, hcall, hrefines⟩ := get_or_load_found h loader hk
          rw [hfind]
          exact ⟨c', call_bind hcall, hrefines⟩
      | none =>
          rw [(h.absent hk).1]
          cases hload : loader k with
          | error err =>
              obtain ⟨c', hcall, hrefines⟩ := get_or_load_raises h hk hload
              exact ⟨c', call_bind_error hcall, hrefines⟩
          | ok v =>
              obtain ⟨c', hcall, hrefines⟩ := get_or_load_loads h hk hload
              exact ⟨c', call_bind hcall, hrefines⟩
  | invalidate k =>
      obtain ⟨c', hcall, hrefines⟩ := invalidate_ok (E := E) h k
      exact ⟨c', call_bind hcall, hrefines⟩
  | clear =>
      obtain ⟨c', hcall, hrefines⟩ := clear_ok (E := E) h
      exact ⟨c', call_bind hcall, hrefines⟩
  -- The last three only look.
  | contains k =>
      refine ⟨c, ?_, h⟩
      rw [perform, call_bind call_get, call_pure, h.contains]
      rfl
  | len =>
      obtain ⟨ids, hrep⟩ := h.represents
      refine ⟨c, ?_, h⟩
      rw [perform, call_bind call_get, call_pure, hrep.len]
      rfl
  | iter =>
      obtain ⟨ids, hrep⟩ := h.represents
      refine ⟨c, ?_, h⟩
      rw [perform, call_bind call_get, hrep.iter]
      rfl

/-- A new cache is empty. -/
theorem new_ok (capacity : ℕ) :
    ∃ c : LruCache K V, new (capacity : ℤ) = .ok c ∧ Refines capacity c [] := by
  refine ⟨_, if_neg (Int.not_lt.mpr (Int.natCast_nonneg capacity)), rfl, Nat.zero_le _, [],
    ⟨⟨?_, (by decide : ([0, 1] : List ℕ).Nodup)⟩, by simp, ⟨Nat.zero_lt_two, Nat.one_lt_two⟩, rfl,
      ?_⟩⟩
  · exact List.isChain_cons_cons.mpr ⟨⟨rfl, rfl⟩, List.IsChain.singleton _⟩
  · intro k i
    refine iff_of_false (fun hlook => ?_) (fun hmem => ?_)
    · cases hlook
    · cases hmem.1

/-- The answers of the reference model raise nothing but what a loader raised. -/
theorem answer_error {op : Operation K V E} {err : CacheError E}
    (h : (answer capacity entries op).1 = .error err) : ∃ e, err = .loader e := by
  cases op with
  | get_or_load k loader =>
      simp only [answer] at h
      split at h
      · cases h
      · split at h
        · cases h
          exact ⟨_, rfl⟩
        · cases h
  | get k default =>
      simp only [answer] at h
      split at h
      · cases h
      · cases h
  | put k v => cases h
  | invalidate k => cases h
  | clear => cases h
  | contains k => cases h
  | len => cases h
  | iter => cases h

end Refines

/-- **The cache is its reference model.** Whatever is asked of a new cache, in
whatever order: every answer is the one of the reference model, nothing is raised
but what a loader raised, and the nodes between the sentinels are, each once, those
the dictionary leads to, in one order forwards and in the reverse order backwards,
and no more than the capacity. -/
theorem cache_equals_reference (capacity : ℕ) (ops : List (Operation K V E)) :
    ∃ c : LruCache K V, new (capacity : ℤ) = .ok c ∧
      let run := Lts.replies (fun c op => call (perform op) c) c ops
      let reference := Lts.replies (answer capacity) [] ops
      run.1 = reference.1 ∧
      (∀ reply ∈ run.1, ∀ err, reply = .error err → ∃ e, err = .loader e) ∧
      (reference.2.map Prod.fst).Nodup ∧
      ∃ ids, run.2.forward = some ids ∧ run.2.backward = some ids.reverse ∧ ids.Nodup ∧
        ids.Perm (run.2._nodes.rows.map Prod.snd) ∧ ids.length ≤ capacity := by
  obtain ⟨c, hnew, hrefines⟩ := new_ok (K := K) (V := V) capacity
  refine ⟨c, hnew, ?_⟩
  have hstep : ∀ (c : LruCache K V) (entries : List (K × V)) (op : Operation K V E),
      Refines capacity c entries →
      (call (perform op) c).1 = (answer capacity entries op).1 ∧
        Refines capacity (call (perform op) c).2 (answer capacity entries op).2 := by
    intro c entries op h
    obtain ⟨c', hcall, hrefines'⟩ := perform_ok h op
    rw [hcall]
    exact ⟨rfl, hrefines'⟩
  obtain ⟨hreplies, hend⟩ := Lts.replies_refine hstep hrefines ops
  obtain ⟨ids, hrep⟩ := hend.represents
  have hraise : ∀ reply ∈ (Lts.replies (answer capacity) ([] : List (K × V)) ops).1,
      ∀ err, reply = .error err → ∃ e, err = .loader e :=
    Lts.forall_replies (fun entries op err => answer_error) [] ops
  refine ⟨hreplies, ?_, hrep.nodup_keys, ids, hrep.forward, hrep.backward, hrep.nodup_ids,
    hrep.values, ?_⟩
  · rw [hreplies]
    exact hraise
  · rw [hrep.length]
    exact hend.bounded

end LruCache

end Conductor
