/-
What `build_policy` does with the options of a spec.

A spec is read three times: its `type` picks the class, its keys are held against the
fields of the class, and its values go to the constructor. Two things come between.
`max_attempts` is renamed to `attempts` before the keys are checked, and takes the place
of an `attempts` that is there already. And the fields are those of
`__dataclass_fields__`, where the `ClassVar` `wire_name` stands beside the options; the
constructor does not take it.

Everything is said of `argument`, the value under a name: what renaming does to it, what
the constructor reads of it, and what the policy that comes out has in its place.
-/
import Conductor.RetryWire

set_option autoImplicit false

namespace Conductor

/-! ## Arguments -/

/-- The value under a name. -/
def argument (items : List (String × Json)) (name : String) : Option Json :=
  (items.find? (fun item => item.1 = name)).map Prod.snd

theorem argument_nil (name : String) : argument [] name = none := rfl

theorem argument_cons (item : String × Json) (items : List (String × Json)) (name : String) :
    argument (item :: items) name = if item.1 = name then some item.2 else argument items name := by
  unfold argument
  by_cases he : item.1 = name
  · rw [List.find?_cons_of_pos (by simpa using he), if_pos he]
    rfl
  · rw [List.find?_cons_of_neg (by simpa using he), if_neg he]

/-- Of two arguments of one name the first counts. -/
theorem argument_append (items more : List (String × Json)) (name : String) :
    argument (items ++ more) name = (argument items name).or (argument more name) := by
  induction items with
  | nil => rfl
  | cons item items ih =>
      rw [List.cons_append, argument_cons, argument_cons, ih]
      split <;> rfl

/-- Leaving out a name leaves the other arguments. -/
theorem argument_filter (items : List (String × Json)) (left name : String) :
    argument (items.filter (fun item => item.1 ≠ left)) name =
      if name = left then none else argument items name := by
  induction items with
  | nil => exact (ite_self none).symm
  | cons item items ih =>
      by_cases hleft : item.1 = left
      · rw [List.filter_cons_of_neg (by simpa using hleft), ih, argument_cons]
        by_cases hname : name = left
        · rw [if_pos hname, if_pos hname]
        · rw [if_neg hname, if_neg hname, if_neg (fun he => hname (he.symm.trans hleft))]
      · rw [List.filter_cons_of_pos (by simpa using hleft), argument_cons, argument_cons, ih]
        by_cases hitem : item.1 = name
        · rw [if_pos hitem, if_pos hitem, if_neg (fun he => hleft (hitem.trans he))]
        · rw [if_neg hitem, if_neg hitem]

/-- Overwriting the values under a name. -/
theorem argument_map (items : List (String × Json)) (target name : String) (value : Json) :
    argument (items.map (fun item => if item.1 = target then (target, value) else item)) name =
      if name = target then (argument items name).map (fun _ => value)
      else argument items name := by
  induction items with
  | nil => exact (ite_self none).symm
  | cons item items ih =>
      rw [List.map_cons, argument_cons, argument_cons, ih]
      by_cases hitem : item.1 = target
      · rw [if_pos hitem, hitem]
        by_cases hname : name = target
        · rw [if_pos hname.symm, if_pos hname, if_pos hname.symm]
          rfl
        · rw [if_neg (Ne.symm hname), if_neg hname, if_neg (Ne.symm hname), if_neg hname]
      · rw [if_neg hitem]
        by_cases hname : name = target
        · have hne : item.1 ≠ name := fun he => hitem (he.trans hname)
          rw [if_neg hne, if_neg hne]
        · rw [if_neg hname, if_neg hname]

theorem argument_isSome {items : List (String × Json)} {name : String} :
    (argument items name).isSome = true ↔ name ∈ items.map Prod.fst := by
  induction items with
  | nil => exact iff_of_false Bool.false_ne_true List.not_mem_nil
  | cons item items ih =>
      rw [argument_cons, List.map_cons, List.mem_cons]
      by_cases he : item.1 = name
      · rw [if_pos he]
        exact iff_of_true rfl (.inl he.symm)
      · rw [if_neg he, ih, or_iff_right (Ne.symm he)]

/-- The value under a name of a `dict`. -/
theorem argument_eq_some {items : List (String × Json)} (hnodup : (items.map Prod.fst).Nodup)
    {name : String} {value : Json} :
    argument items name = some value ↔ (name, value) ∈ items := by
  induction items with
  | nil => exact iff_of_false (fun h => by cases h) List.not_mem_nil
  | cons item items ih =>
      obtain ⟨hfresh, hrest⟩ := List.nodup_cons.mp hnodup
      rw [argument_cons, List.mem_cons]
      by_cases he : item.1 = name
      · have hlater : (name, value) ∉ items := by
          intro hmem
          rw [he] at hfresh
          exact hfresh (List.mem_map.mpr ⟨_, hmem, rfl⟩)
        rw [if_pos he, or_iff_left hlater, Option.some.injEq]
        constructor
        · rintro rfl
          rw [← he]
        · rintro rfl
          rfl
      · rw [if_neg he, ih hrest]
        refine (or_iff_right (fun hitem => he ?_)).symm
        rw [← hitem]

/-- **Renaming.** `max_attempts` stands for `attempts`, and before it. -/
theorem argument_rename (items : List (String × Json)) (name : String) :
    argument (renameMaxAttempts items) name =
      if name = "attempts" then (argument items "max_attempts").or (argument items "attempts")
      else if name = "max_attempts" then none
      else argument items name := by
  have hspellings : "attempts" ≠ "max_attempts" := by decide
  unfold renameMaxAttempts
  cases hfind : items.find? (fun item => item.1 = "max_attempts") with
  | none =>
      have hnone : argument items "max_attempts" = none := by
        unfold argument
        rw [hfind]
        rfl
      rw [hnone, Option.none_or]
      dsimp only
      by_cases hattempts : name = "attempts"
      · rw [if_pos hattempts, hattempts]
      · rw [if_neg hattempts]
        by_cases hmax : name = "max_attempts"
        · rw [if_pos hmax, hmax, hnone]
        · rw [if_neg hmax]
  | some item =>
      obtain ⟨key, value⟩ := item
      have hsome : argument items "max_attempts" = some value := by
        unfold argument
        rw [hfind]
        rfl
      rw [hsome, Option.some_or]
      dsimp only
      by_cases hthere : (items.filter (fun item => item.1 ≠ "max_attempts")).any
          (fun item => item.1 = "attempts") = true
      · -- The value replaces the one that is there.
        rw [if_pos hthere, argument_map, argument_filter]
        have hset : (argument items "attempts").isSome = true := by
          obtain ⟨item, hitem, hkey⟩ := List.any_eq_true.mp hthere
          refine argument_isSome.mpr (List.mem_map.mpr ⟨item, (List.mem_filter.mp hitem).1, ?_⟩)
          exact of_decide_eq_true hkey
        obtain ⟨given, hgiven⟩ := Option.isSome_iff_exists.mp hset
        by_cases hattempts : name = "attempts"
        · rw [if_pos hattempts, if_pos hattempts, hattempts, if_neg hspellings, hgiven]
          rfl
        · rw [if_neg hattempts, if_neg hattempts]
      · -- There is none, and it comes last.
        rw [if_neg hthere, argument_append, argument_filter, argument_cons, argument_nil]
        by_cases hattempts : name = "attempts"
        · have hnone : argument items "attempts" = none := by
            rw [← Option.not_isSome_iff_eq_none]
            intro hset
            obtain ⟨item, hitem, hkey⟩ := List.mem_map.mp (argument_isSome.mp hset)
            refine hthere (List.any_eq_true.mpr ⟨item, List.mem_filter.mpr ⟨hitem, ?_⟩,
              decide_eq_true hkey⟩)
            rw [hkey]
            decide
          rw [if_pos hattempts, hattempts, if_neg hspellings, hnone, Option.none_or, if_pos rfl]
        · rw [if_neg hattempts, if_neg (Ne.symm hattempts), Option.or_none]

/-- A keyword argument that is not there has its default. -/
theorem kwarg_eq {α : Type} (kwargs : List (String × Json)) (name : String)
    (convert : Json → Except Exn α) (default : α) :
    kwarg kwargs name convert default =
      ((argument kwargs name).map convert).getD (.ok default) := by
  unfold kwarg argument
  cases kwargs.find? (fun item => item.1 = name) <;> rfl

/-! ## Specs -/

/-- The field an option sets: `max_attempts` is the other spelling of `attempts`. -/
def fieldOf (key : String) : String := if key = "max_attempts" then "attempts" else key

namespace Json

def isInt : Json → Bool
  | .int _ | .bool _ => true
  | _ => false

def isFloat : Json → Bool
  | .int _ | .float _ | .bool _ => true
  | _ => false

def isBool : Json → Bool
  | .bool _ => true
  | _ => false

def isStr : Json → Bool
  | .str _ => true
  | _ => false

/-- `v == w` of two numbers, to which `True` and `False` belong. -/
def NumEq (v w : Json) : Prop := ∃ q, v.number = .ok q ∧ w.number = .ok q

theorem NumEq.symm {v w : Json} (h : v.NumEq w) : w.NumEq v := by
  obtain ⟨q, hv, hw⟩ := h
  exact ⟨q, hw, hv⟩

theorem NumEq.trans {v w x : Json} (h : v.NumEq w) (h' : w.NumEq x) : v.NumEq x := by
  obtain ⟨q, hv, hw⟩ := h
  obtain ⟨q', hw', hx⟩ := h'
  rw [hw] at hw'
  cases hw'
  exact ⟨q, hv, hx⟩

end Json

/-- A value of the type that the option is annotated with. A key that is no option may
have any value. -/
def WellTyped (key : String) (value : Json) : Bool :=
  if key = "type" then value.isStr
  else if fieldOf key = "attempts" then value.isInt
  else if key ∈ ["delay", "base", "factor", "max_delay"] then value.isFloat
  else if key = "jitter" then value.isBool
  else true

namespace Dict

/-- A spec with correctly typed values. -/
def Typed (d : Dict) : Prop := ∀ item ∈ d.items, WellTyped item.1 item.2 = true

instance (d : Dict) : Decidable d.Typed :=
  inferInstanceAs (Decidable (∀ item ∈ d.items, WellTyped item.1 item.2 = true))

/-- `kind`: the policy that a spec names. -/
def kind (d : Dict) : String := ((d.get "type").getD (.str "exponential")).pyStr.toLower

/-- `kwargs`, as they come to the check of the keys. -/
def kwargs (d : Dict) : List (String × Json) :=
  renameMaxAttempts (d.items.filter (fun item => item.1 ≠ "type"))

theorem get_eq_some {d : Dict} {key : String} {value : Json} :
    d.get key = some value ↔ (key, value) ∈ d.items :=
  argument_eq_some d.nodup

/-- `max_attempts` goes by the name of the field, `attempts`, and comes before it; the type
is no argument. -/
theorem argument_kwargs (d : Dict) (name : String) :
    argument d.kwargs name =
      if name = "attempts" then (d.get "max_attempts").or (d.get "attempts")
      else if name = "max_attempts" ∨ name = "type" then none
      else d.get name := by
  unfold kwargs
  rw [argument_rename, argument_filter, argument_filter, argument_filter,
    if_neg (by decide : "max_attempts" ≠ "type"), if_neg (by decide : "attempts" ≠ "type")]
  by_cases hattempts : name = "attempts"
  · rw [if_pos hattempts, if_pos hattempts]
    rfl
  · rw [if_neg hattempts, if_neg hattempts]
    by_cases hmax : name = "max_attempts"
    · rw [if_pos hmax, if_pos (.inl hmax)]
    · by_cases htype : name = "type"
      · rw [if_neg hmax, if_pos htype, if_pos (.inr htype)]
      · rw [if_neg hmax, if_neg htype, if_neg (not_or.mpr ⟨hmax, htype⟩)]
        rfl

/-- Where an argument comes from: an option of the spec, which is not an `attempts` that
has been replaced. -/
theorem of_argument_kwargs {d : Dict} {name : String} {value : Json}
    (h : argument d.kwargs name = some value) :
    ∃ key, (key, value) ∈ d.items ∧ key ≠ "type" ∧ fieldOf key = name ∧
      (key = "attempts" → d.get "max_attempts" = none) := by
  rw [argument_kwargs] at h
  by_cases hattempts : name = "attempts"
  · rw [if_pos hattempts] at h
    cases hmax : d.get "max_attempts" with
    | none =>
        rw [hmax, Option.none_or] at h
        exact ⟨"attempts", get_eq_some.mp h, by decide, hattempts.symm, fun _ => rfl⟩
    | some counted =>
        rw [hmax, Option.some_or] at h
        cases h
        refine ⟨"max_attempts", get_eq_some.mp hmax, by decide, hattempts.symm, fun he => ?_⟩
        exact absurd he (by decide)
  · rw [if_neg hattempts] at h
    by_cases hother : name = "max_attempts" ∨ name = "type"
    · rw [if_pos hother] at h
      cases h
    · rw [if_neg hother] at h
      obtain ⟨hmax, htype⟩ := not_or.mp hother
      exact ⟨name, get_eq_some.mp h, htype, if_neg hmax, fun he => absurd he hattempts⟩

/-- Every option of a spec is an argument; under `attempts`, the value that counts. -/
theorem argument_fieldOf {d : Dict} {key : String} {value : Json}
    (hitem : (key, value) ∈ d.items) (htype : key ≠ "type") :
    ∃ counted, argument d.kwargs (fieldOf key) = some counted ∧
      (key ≠ "attempts" ∨ d.get "max_attempts" = none → counted = value) ∧
      (key = "attempts" → ∀ other, d.get "max_attempts" = some other → counted = other) := by
  have hget := get_eq_some.mpr hitem
  by_cases hmax : key = "max_attempts"
  · subst hmax
    refine ⟨value, ?_, fun _ => rfl, fun he => absurd he (by decide)⟩
    rw [argument_kwargs, if_pos (by decide), hget]
    rfl
  · have hfield : fieldOf key = key := if_neg hmax
    rw [hfield, argument_kwargs]
    by_cases hattempts : key = "attempts"
    · rw [if_pos hattempts]
      subst hattempts
      cases hcounted : d.get "max_attempts" with
      | none =>
          rw [Option.none_or]
          exact ⟨value, hget, fun _ => rfl, fun _ _ ho => by cases ho⟩
      | some counted =>
          rw [Option.some_or]
          refine ⟨counted, rfl, fun hor => ?_, fun _ other ho => Option.some.inj ho⟩
          rcases hor with hne | hnone
          · exact absurd rfl hne
          · cases hnone
    · rw [if_neg hattempts, if_neg (not_or.mpr ⟨hmax, htype⟩)]
      exact ⟨value, hget, fun _ => rfl, fun he => absurd he hattempts⟩

/-- The names that a constructor is given. -/
theorem mem_kwargs {d : Dict} {name : String} :
    name ∈ d.kwargs.map Prod.fst ↔
      ∃ item ∈ d.items, item.1 ≠ "type" ∧ fieldOf item.1 = name := by
  rw [← argument_isSome, Option.isSome_iff_exists]
  constructor
  · rintro ⟨value, hvalue⟩
    obtain ⟨key, hitem, htype, hfield, -⟩ := of_argument_kwargs hvalue
    exact ⟨(key, value), hitem, htype, hfield⟩
  · rintro ⟨⟨key, value⟩, hitem, htype, rfl⟩
    obtain ⟨counted, hcounted, -⟩ := argument_fieldOf hitem htype
    exact ⟨counted, hcounted⟩

end Dict

end Conductor
