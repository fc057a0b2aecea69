/-
Cursor tokens, well-formed and not.

A token is base64 without its padding. The padding is a function of the length, so it can
be put back, and every step of `encode` can be undone for a position that the standard
library reads back.

Any other string may arrive as a token too. What goes wrong while it is decoded is
translated into one `ValueError`; the id it carries is not looked at before `uuid.UUID`
reads it, behind the block that translates, and there a value that is no string raises
something else.
-/
import Conductor.Pages

set_option autoImplicit false

open Relational

namespace Conductor

/-! ## Round trips -/

/-- The standard library reads back what it wrote of a cursor. -/
structure Stdlib.ReadsBack (lib : Stdlib) (c : Cursor) : Prop where
  json : lib.loads (lib.dumps (c.payload lib)) = .ok (c.payload lib)
  time : lib.fromisoformat (.str (lib.isoformat c.created_at)) = .ok c.created_at

/-- **Tokens round-trip.** A cursor that the standard library reads back is decoded from its
own token, which has URL-safe characters only and no padding, and which is no other such
cursor's token. -/
theorem token_round_trip {lib : Stdlib} {c : Cursor} (hc : lib.ReadsBack c) :
    Cursor.decode lib (c.encode lib) = .ok c ∧
    (∀ ch ∈ (c.encode lib).toList, ch ∈ Base64.alphabet) ∧ '=' ∉ (c.encode lib).toList ∧
    ∀ c', lib.ReadsBack c' → c'.encode lib = c.encode lib → c' = c := by
  have htext : (c.encode lib).toList = Base64.strip (Base64.b2a (lib.dumps (c.payload lib))) := by
    unfold Cursor.encode
    rw [String.toList_ofList]
  have hdecode := decode_encode hc.json hc.time
  refine ⟨hdecode, ?_, ?_, fun c' hc' hsame => ?_⟩
  · rw [htext]
    exact Base64.strip_b2a_alphabet _
  · rw [htext]
    exact Base64.strip_b2a_ne _
  · -- Both are what the one token decodes to.
    have hdecode' := decode_encode hc'.json hc'.time
    rw [hsame, hdecode] at hdecode'
    exact (Except.ok.inj hdecode').symm

/-- The cursor of a position that occurs in the samples. -/
def sampleCursor (p : Time × UUID) : Cursor := ⟨p.1, .str (sampleStr p.2)⟩

theorem sampleCursor_readsBack {p : Time × UUID} (hp : p ∈ samplePositions) :
    sampleLib.ReadsBack (sampleCursor p) := by
  have hinverts := sampleLib_inverts hp
  exact ⟨hinverts.json, hinverts.time⟩

theorem token_round_trip_sample :
    Cursor.decode sampleLib ((sampleCursor (0, 1)).encode sampleLib) =
        .ok (sampleCursor (0, 1)) ∧
      '=' ∉ ((sampleCursor (0, 1)).encode sampleLib).toList := by
  obtain ⟨hdecode, -, hpadding, -⟩ :=
    token_round_trip (sampleCursor_readsBack (p := (0, 1)) List.mem_cons_self)
  exact ⟨hdecode, hpadding⟩

/-! ## Malformed tokens -/

/-- The value is a string. -/
def Json.isText : Json → Bool
  | .str _ => true
  | _ => false

/-- What the standard library raises: a `ValueError` on a text it cannot read, and another
error on what is no text. -/
structure Stdlib.Documented (lib : Stdlib) : Prop where
  loads : ∀ bytes err, lib.loads bytes = .error err → ∃ msg, err = .ValueError msg
  iso : ∀ text err, lib.fromisoformat (.str text) = .error err → ∃ msg, err = .ValueError msg
  iso_other : ∀ value, value.isText = false → lib.fromisoformat value = .error .TypeError
  uuid : ∀ text err, lib.toUUID (.str text) = .error err → ∃ msg, err = .ValueError msg
  uuid_other : ∀ value, value.isText = false →
    lib.toUUID value = .error .TypeError ∨ lib.toUUID value = .error .AttributeError

/-- The errors that `decode` translates. -/
def CursorError.translated : CursorError → Bool
  | .ValueError _ | .KeyError | .TypeError => true
  | .AttributeError | .IndexError => false

/-- A token of a JSON object with a timestamp, whose id is no string. -/
def StrayId (lib : Stdlib) (token : String) : Prop :=
  ∃ bytes payload t created_at id,
    urlsafe_b64decode (Base64.pad token.toList) = .ok bytes ∧ lib.loads bytes = .ok payload ∧
    subscript payload "t" = .ok (.str t) ∧ lib.fromisoformat (.str t) = .ok created_at ∧
    subscript payload "i" = .ok id ∧ id.isText = false

/-- A listing starts at a timestamp and a UUID, or it raises a `ValueError`. -/
def CleanStart (lib : Stdlib) (token : String) : Prop :=
  (∃ created_at uuid, startOf lib (some token) = .ok (some (toLex (created_at, uuid)))) ∨
  ∃ msg, startOf lib (some token) = .error (.ValueError msg) ∧ ∀ db limit,
    WorkflowRepository.list_page lib db limit (some token) = .error (.ValueError msg) ∧
    ∀ state workflow_id,
      RunRepository.list_page lib db limit (some token) state workflow_id =
        .error (.ValueError msg)

section Malformed

variable {lib : Stdlib} {token : String}

/-- Text that is no Base64 raises a `ValueError`. -/
theorem urlsafe_b64decode_error {text : List Char} {err : CursorError}
    (h : urlsafe_b64decode text = .error err) : ∃ msg, err = .ValueError msg := by
  unfold urlsafe_b64decode at h
  split at h
  · exact ⟨_, (Except.error.inj h).symm⟩
  · cases hdecoded : Base64.a2b text with
    | error msg =>
        rw [hdecoded] at h
        exact ⟨msg, (Except.error.inj h).symm⟩
    | ok bytes =>
        rw [hdecoded] at h
        cases h

theorem subscript_error {payload : Json} {field : String} {err : CursorError}
    (h : subscript payload field = .error err) : err.translated = true := by
  unfold subscript at h
  split at h
  · split at h
    · cases h
    · rw [← Except.error.inj h]
      rfl
  · rw [← Except.error.inj h]
    rfl

/-- What `decode` translates becomes a `ValueError`. -/
theorem decode_of_parse_error {err : CursorError} (h : Cursor.parse lib token = .error err)
    (herr : err.translated = true) : ∃ msg, Cursor.decode lib token = .error (.ValueError msg) := by
  unfold Cursor.decode
  rw [h]
  cases err with
  | ValueError _ => exact ⟨_, rfl⟩
  | KeyError => exact ⟨_, rfl⟩
  | TypeError => exact ⟨_, rfl⟩
  | AttributeError => cases herr
  | IndexError => cases herr

/-- One stage after another: which of the two raised. -/
theorem bind_eq_error {α β : Type} {x : Except CursorError α} {f : α → Except CursorError β}
    {err : CursorError} :
    x >>= f = .error err ↔ x = .error err ∨ ∃ a, x = .ok a ∧ f a = .error err := by
  cases x with
  | error err' =>
      constructor
      · exact fun h => .inl (congrArg Except.error (Except.error.inj h))
      · rintro (h | ⟨a, ha, -⟩)
        · rw [Except.error.inj h]
          rfl
        · cases ha
  | ok a =>
      constructor
      · exact fun h => .inr ⟨a, rfl, h⟩
      · rintro (h | ⟨a', ha, h⟩)
        · cases h
        · rw [Except.ok.inj ha]
          exact h

theorem bind_eq_ok {α β : Type} {x : Except CursorError α} {f : α → Except CursorError β} {b : β} :
    x >>= f = .ok b ↔ ∃ a, x = .ok a ∧ f a = .ok b := by
  cases x with
  | error err =>
      refine iff_of_false (fun h => ?_) ?_
      · cases h
      · rintro ⟨a, ha, -⟩
        cases ha
  | ok a =>
      constructor
      · exact fun h => ⟨a, rfl, h⟩
      · rintro ⟨a', ha, h⟩
        rw [Except.ok.inj ha]
        exact h

/-- Whatever the `try` block raises is translated. -/
theorem parse_error (hlib : lib.Documented) {err : CursorError}
    (h : Cursor.parse lib token = .error err) : err.translated = true := by
  -- The stages of the block in their order; the first that raises decides.
  unfold Cursor.parse at h
  rcases bind_eq_error.mp h with h | ⟨bytes, -, h⟩
  · obtain ⟨msg, rfl⟩ := urlsafe_b64decode_error h
    rfl
  rcases bind_eq_error.mp h with h | ⟨payload, -, h⟩
  · obtain ⟨msg, rfl⟩ := hlib.loads bytes err h
    rfl
  rcases bind_eq_error.mp h with h | ⟨t, -, h⟩
  · exact subscript_error h
  rcases bind_eq_error.mp h with h | ⟨created_at, -, h⟩
  · cases htext : t.isText with
    | true =>
        cases t with
        | str text =>
            obtain ⟨msg, rfl⟩ := hlib.iso text err h
            rfl
        | _ => cases htext
    | false =>
        rw [hlib.iso_other t htext] at h
        rw [← Except.error.inj h]
        rfl
  rcases bind_eq_error.mp h with h | ⟨id, -, h⟩
  · exact subscript_error h
  · cases h

/-- What the `try` block returns, it has read from an object with both fields. -/
theorem parse_ok (hlib : lib.Documented) {c : Cursor} (h : Cursor.parse lib token = .ok c) :
    ∃ bytes payload t, urlsafe_b64decode (Base64.pad token.toList) = .ok bytes ∧
      lib.loads bytes = .ok payload ∧ subscript payload "t" = .ok (.str t) ∧
      lib.fromisoformat (.str t) = .ok c.created_at ∧ subscript payload "i" = .ok c.id := by
  unfold Cursor.parse at h
  obtain ⟨bytes, hbytes, h⟩ := bind_eq_ok.mp h
  obtain ⟨payload, hpayload, h⟩ := bind_eq_ok.mp h
  obtain ⟨t, ht, h⟩ := bind_eq_ok.mp h
  obtain ⟨created_at, htime, h⟩ := bind_eq_ok.mp h
  obtain ⟨id, hid, h⟩ := bind_eq_ok.mp h
  obtain rfl := Except.ok.inj h
  cases htext : t.isText with
  | true =>
      cases t with
      | str text => exact ⟨bytes, payload, text, hbytes, hpayload, ht, htime, hid⟩
      | _ => cases htext
  | false =>
      rw [hlib.iso_other t htext] at htime
      cases htime

theorem parse_eq {bytes : List UInt8} {payload id : Json} {t : String} {created_at : Time}
    (hbytes : urlsafe_b64decode (Base64.pad token.toList) = .ok bytes)
    (hpayload : lib.loads bytes = .ok payload) (ht : subscript payload "t" = .ok (.str t))
    (htime : lib.fromisoformat (.str t) = .ok created_at) (hid : subscript payload "i" = .ok id) :
    Cursor.parse lib token = .ok ⟨created_at, id⟩ := by
  unfold Cursor.parse
  refine bind_eq_ok.mpr ⟨bytes, hbytes, bind_eq_ok.mpr ⟨payload, hpayload, ?_⟩⟩
  refine bind_eq_ok.mpr ⟨.str t, ht, bind_eq_ok.mpr ⟨created_at, htime, ?_⟩⟩
  exact bind_eq_ok.mpr ⟨id, hid, rfl⟩

theorem decode_of_parse_ok {c : Cursor} (h : Cursor.parse lib token = .ok c) :
    Cursor.decode lib token = .ok c := by
  unfold Cursor.decode
  rw [h]

/-- A listing raises what finding its start raises. -/
theorem list_page_error {err : CursorError} (h : startOf lib (some token) = .error err) (db : Db)
    (limit : ℕ) :
    WorkflowRepository.list_page lib db limit (some token) = .error err ∧ ∀ state workflow_id,
      RunRepository.list_page lib db limit (some token) state workflow_id = .error err := by
  unfold WorkflowRepository.list_page RunRepository.list_page listPage
  rw [h]
  exact ⟨rfl, fun _ _ => rfl⟩

/-- **When a malformed token is a client error.** A listing starts at a timestamp and a UUID
or raises a `ValueError` exactly when its token is none with a stray id. -/
theorem clean_start_iff (hlib : lib.Documented) (token : String) :
    CleanStart lib token ↔ ¬ StrayId lib token := by
  constructor
  · rintro hclean ⟨bytes, payload, t, created_at, id, hbytes, hpayload, ht, htime, hid, hstray⟩
    have hdecode := decode_of_parse_ok (parse_eq hbytes hpayload ht htime hid)
    -- `uuid.UUID` raises outside the block that translates.
    have hraised : ∃ err, startOf lib (some token) = .error err ∧
        (err = .TypeError ∨ err = .AttributeError) := by
      rw [startOf, hdecode]
      show ∃ err, (lib.toUUID id >>= fun uuid => _) = _ ∧ _
      rcases hlib.uuid_other id hstray with h | h
      · rw [h]
        exact ⟨_, rfl, .inl rfl⟩
      · rw [h]
        exact ⟨_, rfl, .inr rfl⟩
    obtain ⟨err, hstart, herr⟩ := hraised
    rcases hclean with ⟨_, _, h⟩ | ⟨msg, h, -⟩
    · rw [hstart] at h
      cases h
    · rw [hstart] at h
      rw [Except.error.inj h] at herr
      rcases herr with herr | herr
      · cases herr
      · cases herr
  · intro hno
    cases hparse : Cursor.parse lib token with
    | error err =>
        obtain ⟨msg, hdecode⟩ := decode_of_parse_error hparse (parse_error hlib hparse)
        have hstart : startOf lib (some token) = .error (.ValueError msg) := by
          rw [startOf, hdecode]
          rfl
        exact .inr ⟨msg, hstart, list_page_error hstart⟩
    | ok c =>
        obtain ⟨bytes, payload, t, hbytes, hpayload, ht, htime, hid⟩ := parse_ok hlib hparse
        have hstart : startOf lib (some token) =
            lib.toUUID c.id >>= fun uuid => .ok (some (toLex (c.created_at, uuid))) := by
          rw [startOf, decode_of_parse_ok hparse]
          rfl
        cases htext : c.id.isText with
        | false =>
            exact absurd
              ⟨bytes, payload, t, c.created_at, c.id, hbytes, hpayload, ht, htime, hid, htext⟩ hno
        | true =>
            cases huuid : lib.toUUID c.id with
            | ok uuid =>
                rw [huuid] at hstart
                exact .inl ⟨c.created_at, uuid, hstart⟩
            | error err =>
                rw [huuid] at hstart
                obtain ⟨created_at, id⟩ := c
                cases id with
                | str text =>
                    obtain ⟨msg, rfl⟩ := hlib.uuid text err huuid
                    exact .inr ⟨msg, hstart, list_page_error hstart⟩
                | _ => cases htext

end Malformed

/-! ## A token with a number for its id -/

/-- `{"t": "1970-01-01T00:00:00+00:00", "i": 5}`. -/
def numericText : String := "\x7b\"t\": \"1970-01-01T00:00:00+00:00\", \"i\": 5\x7d"

def numericBytes : List UInt8 := numericText.toList.map (fun c => UInt8.ofNat c.toNat)

def numericToken : String := "eyJ0IjogIjE5NzAtMDEtMDFUMDA6MDA6MDArMDA6MDAiLCAiaSI6IDV9"

/-- The standard library, on what occurs below. -/
def numericLib : Stdlib :=
  { sampleLib with
    loads := fun bytes =>
      if bytes = numericBytes then
        .ok (.object [("t", .str "1970-01-01T00:00:00+00:00"), ("i", .int 5)])
      else .error (.ValueError "Expecting value") }

theorem numericLib_documented : numericLib.Documented := by
  constructor
  · intro bytes err h
    unfold numericLib at h
    dsimp only at h
    split at h
    · cases h
    · exact ⟨_, (Except.error.inj h).symm⟩
  · intro text err h
    unfold numericLib sampleLib at h
    dsimp only at h
    split at h
    · cases h
    · exact ⟨_, (Except.error.inj h).symm⟩
  · intro value htext
    cases value with
    | str text => cases htext
    | _ => rfl
  · intro text err h
    unfold numericLib sampleLib at h
    dsimp only at h
    split at h
    · cases h
    · exact ⟨_, (Except.error.inj h).symm⟩
  · intro value htext
    refine .inr ?_
    cases value with
    | str text => cases htext
    | _ => rfl

theorem numericToken_bytes :
    urlsafe_b64decode (Base64.pad numericToken.toList) = .ok numericBytes := by
  rfl

theorem numericToken_payload : numericLib.loads numericBytes =
    .ok (.object [("t", .str "1970-01-01T00:00:00+00:00"), ("i", .int 5)]) := by
  unfold numericLib
  dsimp only
  exact if_pos rfl

theorem numericToken_stray : StrayId numericLib numericToken :=
  ⟨numericBytes, _, "1970-01-01T00:00:00+00:00", 0, .int 5, numericToken_bytes,
    numericToken_payload, rfl, rfl, rfl, rfl⟩

/-- The id 5 is an `AttributeError` in both listings. -/
theorem numeric_id_escapes :
    numericLib.Documented ∧ startOf numericLib (some numericToken) = .error .AttributeError ∧
      WorkflowRepository.list_page numericLib Db.empty 10 (some numericToken) =
        .error .AttributeError ∧
      RunRepository.list_page numericLib Db.empty 10 (some numericToken) none none =
        .error .AttributeError := by
  have hdecode : Cursor.decode numericLib numericToken = .ok ⟨0, .int 5⟩ :=
    decode_of_parse_ok (parse_eq numericToken_bytes numericToken_payload rfl rfl rfl)
  have hstart : startOf numericLib (some numericToken) = .error .AttributeError := by
    rw [startOf, hdecode]
    rfl
  obtain ⟨hworkflows, hruns⟩ := list_page_error hstart Db.empty 10
  exact ⟨numericLib_documented, hstart, hworkflows, hruns none none⟩

theorem clean_start_iff_numeric : ¬ CleanStart numericLib numericToken :=
  fun hclean => (clean_start_iff numericLib_documented numericToken).mp hclean numericToken_stray

end Conductor
