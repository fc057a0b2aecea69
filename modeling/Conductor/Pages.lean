/-
Keyset pagination: `Cursor` and `Page` of `db/repositories/base.py`, and the
`list_page` of the two repositories.

What the cursor uses of the standard library beyond base64 is a parameter
(`Stdlib`): JSON, ISO timestamps, and UUIDs as text. `Stdlib.Inverts` says of one
position that reading it back gives what was written.
-/
import Mathlib.Data.Prod.Lex
import Conductor.Lib.Base64
import Conductor.Lib.Keyset
import Conductor.Models

set_option autoImplicit false

open Relational

namespace Conductor

/-! ## Cursors -/

/-- What decoding a cursor can raise. -/
inductive CursorError where
  | ValueError (msg : String)
  | KeyError
  | TypeError
  | AttributeError
  | IndexError
deriving DecidableEq

/-- What the cursor uses of the standard library. -/
structure Stdlib where
  /-- `json.dumps(payload).encode()`. -/
  dumps : Json → List UInt8
  /-- `json.loads`. -/
  loads : List UInt8 → Except CursorError Json
  /-- `datetime.isoformat`. -/
  isoformat : Time → String
  /-- `datetime.fromisoformat`. -/
  fromisoformat : Json → Except CursorError Time
  /-- `str` of a `uuid.UUID`. -/
  str : UUID → String
  /-- `uuid.UUID`. -/
  toUUID : Json → Except CursorError UUID

/-- An opaque position in a `(created_at DESC, id DESC)` ordering. A decoded cursor
holds whatever JSON value the token had for the id. -/
structure Cursor where
  created_at : Time
  id : Json

/-- The payload of a token. -/
def Cursor.payload (lib : Stdlib) (c : Cursor) : Json :=
  .object [("t", .str (lib.isoformat c.created_at)), ("i", c.id)]

def Cursor.encode (lib : Stdlib) (c : Cursor) : String :=
  String.ofList (Base64.strip (Base64.b2a (lib.dumps (c.payload lib))))

/-- `payload[field]`. -/
def subscript (payload : Json) (field : String) : Except CursorError Json :=
  match payload with
  | .object fields =>
      match fields.find? (fun item => item.1 = field) with
      | some item => .ok item.2
      | none => .error .KeyError
  | _ => .error .TypeError

/-- `base64.urlsafe_b64decode` of a string. -/
def urlsafe_b64decode (text : List Char) : Except CursorError (List UInt8) :=
  if text.any (fun c => 127 < c.toNat) then
    .error (.ValueError "string argument should contain only ASCII characters")
  else (Base64.a2b text).mapError .ValueError

/-- The `try` block of `decode`. -/
def Cursor.parse (lib : Stdlib) (token : String) : Except CursorError Cursor := do
  let payload ← lib.loads (← urlsafe_b64decode (Base64.pad token.toList))
  let created_at ← lib.fromisoformat (← subscript payload "t")
  let id ← subscript payload "i"
  return ⟨created_at, id⟩

def Cursor.decode (lib : Stdlib) (token : String) : Except CursorError Cursor :=
  match Cursor.parse lib token with
  | .ok cursor => .ok cursor
  -- "A malformed cursor is a client error, not a 500."
  | .error (.ValueError _) | .error .KeyError | .error .TypeError =>
      .error (.ValueError ("malformed cursor: " ++ pyRepr token))
  | .error e => .error e

/-! ## Pages -/

/-- One page of results plus the cursor for the next one. -/
structure Page (ρ : Type) where
  items : List ρ
  next_cursor : Option String

/-- What the rows are ordered by: SQL compares row values lexicographically. -/
def position {ρ : Type} (created_at : ρ → Time) (id : ρ → UUID) (r : ρ) : Time ×ₗ UUID :=
  toLex (created_at r, id r)

/-- Where a page begins. -/
def startOf (lib : Stdlib) : Option String → Except CursorError (Option (Time ×ₗ UUID))
  | none => .ok none
  | some token => do
      let cursor ← Cursor.decode lib token
      let uuid ← lib.toUUID cursor.id
      return some (toLex (cursor.created_at, uuid))

/-- The body of both `list_page`s, on the rows that pass the filters. -/
def listPage {ρ : Type} (lib : Stdlib) (created_at : ρ → Time) (id : ρ → UUID) (rows : List ρ)
    (limit : ℕ) (cursor : Option String) : Except CursorError (Page ρ) := do
  let start ← startOf lib cursor
  let key := position created_at id
  let found := (Keyset.newest key (rows.filter (Keyset.below key start))).take (limit + 1)
  if limit < found.length then
    -- `rows[limit - 1]`, which is `rows[-1]` for a limit of zero.
    match (if limit = 0 then found.getLast? else found[limit - 1]?) with
    | none => .error .IndexError
    | some last =>
        return ⟨found.take limit,
          some (Cursor.encode lib ⟨created_at last, .str (lib.str (id last))⟩)⟩
  else return ⟨found, none⟩

/-- Keyset-paginated listing, newest first. -/
def WorkflowRepository.list_page (lib : Stdlib) (db : Db) (limit : ℕ) (cursor : Option String) :
    Except CursorError (Page Workflow) :=
  listPage lib Workflow.created_at Workflow.id db.workflows.rows limit cursor

def RunRepository.list_page (lib : Stdlib) (db : Db) (limit : ℕ) (cursor : Option String)
    (state : Option RunState) (workflow_id : Option UUID) :
    Except CursorError (Page WorkflowRun) :=
  listPage lib WorkflowRun.created_at WorkflowRun.id
    (db.workflow_runs.rows.filter (fun run =>
      state.all (fun s => decide (run.state = s)) &&
        workflow_id.all (fun w => decide (run.workflow_id = w)))) limit cursor

/-! ## Tokens -/

/-- The standard library reads back the position of a row that it wrote. -/
structure Stdlib.Inverts (lib : Stdlib) (created_at : Time) (id : UUID) : Prop where
  json : lib.loads (lib.dumps (Cursor.payload lib ⟨created_at, .str (lib.str id)⟩))
    = .ok (Cursor.payload lib ⟨created_at, .str (lib.str id)⟩)
  time : lib.fromisoformat (.str (lib.isoformat created_at)) = .ok created_at
  uuid : lib.toUUID (.str (lib.str id)) = .ok id

section Tokens

variable {lib : Stdlib} {created_at : Time} {id : UUID}

/-- Base64 gives back the bytes of a token. -/
theorem urlsafe_b64decode_encode (c : Cursor) :
    urlsafe_b64decode (Base64.pad (c.encode lib).toList) = .ok (lib.dumps (c.payload lib)) := by
  unfold Cursor.encode urlsafe_b64decode
  rw [String.toList_ofList, Base64.pad_strip_b2a, if_neg, Base64.a2b_b2a]
  · rfl
  · rw [List.any_eq_true]
    rintro ⟨c, hc, hbig⟩
    exact absurd (Base64.b2a_ascii _ c hc) (Nat.not_le.mpr (of_decide_eq_true hbig))

/-- A token is decoded to the cursor it was made of. -/
theorem decode_encode {c : Cursor}
    (hjson : lib.loads (lib.dumps (c.payload lib)) = .ok (c.payload lib))
    (htime : lib.fromisoformat (.str (lib.isoformat c.created_at)) = .ok c.created_at) :
    Cursor.decode lib (c.encode lib) = .ok c := by
  have hparse : Cursor.parse lib (c.encode lib) = .ok c := by
    unfold Cursor.parse
    rw [urlsafe_b64decode_encode]
    show (lib.loads _ >>= fun payload => _) = _
    rw [hjson]
    show (lib.fromisoformat (.str (lib.isoformat c.created_at)) >>= fun created_at => _) = _
    rw [htime]
    rfl
  rw [Cursor.decode, hparse]

/-- A token leads back to its position. -/
theorem startOf_encode (h : lib.Inverts created_at id) :
    startOf lib (some (Cursor.encode lib ⟨created_at, .str (lib.str id)⟩))
      = .ok (some (toLex (created_at, id))) := by
  rw [startOf, decode_encode h.json h.time]
  show (lib.toUUID (.str (lib.str id)) >>= fun uuid => _) = _
  rw [h.uuid]
  rfl

end Tokens

/-! ## One page -/

section Page

variable {ρ : Type} {lib : Stdlib} {created_at : ρ → Time} {id : ρ → UUID} {rows : List ρ}
  {limit : ℕ} {cursor : Option String} {start : Option (Time ×ₗ UUID)}

/-- The token of a position. -/
def tokenOf (lib : Stdlib) (p : Time ×ₗ UUID) : String :=
  Cursor.encode lib ⟨(ofLex p).1, .str (lib.str (ofLex p).2)⟩

/-- `list_page` is a page of the rows by position, with its position as a token. -/
theorem listPage_eq (hlimit : 1 ≤ limit) (hstart : startOf lib cursor = .ok start) :
    listPage lib created_at id rows limit cursor
      = .ok ⟨(Keyset.page (position created_at id) limit start rows).1,
          (Keyset.page (position created_at id) limit start rows).2.map (tokenOf lib)⟩ := by
  unfold listPage Keyset.page
  rw [hstart]
  show (if limit < _ then _ else _) = _
  generalize (Keyset.newest (position created_at id) (rows.filter
    (Keyset.below (position created_at id) start))).take (limit + 1) = found
  by_cases hmore : limit < found.length
  · have hindex : limit - 1 < found.length := by omega
    rw [if_pos hmore, if_pos hmore, if_neg (by omega), List.getElem?_eq_getElem hindex]
    rfl
  · rw [if_neg hmore, if_neg hmore]
    rfl

end Page

/-! ## All pages -/

/-- Following `next_cursor` from a cursor on, for at most a number of pages: the
rows, and whether the cursor came to `None`. The `k`-th fetch is `fetch k`. -/
def follow {ρ : Type} (fetch : ℕ → Option String → Except CursorError (Page ρ)) :
    ℕ → ℕ → Option String → Except CursorError (List ρ × Bool)
  | 0, _, _ => .ok ([], false)
  | rounds + 1, k, cursor => do
      let page ← fetch k cursor
      match page.next_cursor with
      | none => return (page.items, true)
      | some token => do
          let (rest, ended) ← follow fetch rounds (k + 1) (some token)
          return (page.items ++ rest, ended)

/-- Rows are inserted, and keep their id and their `created_at`. -/
def OnlyInserts {ρ : Type} (created_at : ρ → Time) (id : ρ → UUID) (rows : ℕ → List ρ) : Prop :=
  ∀ k, ∀ r ∈ rows k, ∃ r' ∈ rows (k + 1), id r' = id r ∧ created_at r' = created_at r

/-- Following the cursors through tables that only grow: nothing is raised, the rows
come in strictly descending order and none comes twice; when the cursor comes to
`None`, every row of the first table has come; it does so once the table stops
growing; and if the table never grew, what came is the sorted table. -/
def PagesThrough {ρ : Type} (created_at : ρ → Time) (id : ρ → UUID) (rows : ℕ → List ρ)
    (fetch : ℕ → Option String → Except CursorError (Page ρ)) : Prop :=
  (∀ rounds, ∃ items ended, follow fetch rounds 0 none = .ok (items, ended) ∧
    items.Pairwise (fun a b => position created_at id b < position created_at id a) ∧
    (items.map id).Nodup ∧ (∀ r ∈ items, ∃ k, r ∈ rows k) ∧
    (ended = true → ∀ r ∈ rows 0, id r ∈ items.map id)) ∧
  ((∃ n, ∀ k, n ≤ k → rows k = rows n) →
    ∃ rounds items, follow fetch rounds 0 none = .ok (items, true)) ∧
  ((∀ k, rows k = rows 0) → ∀ rounds items, follow fetch rounds 0 none = .ok (items, true) →
    items = Keyset.newest (position created_at id) (rows 0))

section Follow

variable {ρ : Type} {lib : Stdlib} {created_at : ρ → Time} {id : ρ → UUID} {rows : ℕ → List ρ}
  {limit : ℕ}

/-- Rows with distinct ids have distinct positions. -/
theorem nodup_positions {rows : List ρ} (h : (rows.map id).Nodup) :
    (rows.map (position created_at id)).Nodup := by
  refine List.Nodup.of_map (fun p => (ofLex p).2) ?_
  rw [List.map_map]
  exact h

/-- Following tokens is following positions. -/
theorem follow_eq (hlimit : 1 ≤ limit) (hnodup : ∀ k, ((rows k).map id).Nodup)
    (hlib : ∀ k, ∀ r ∈ rows k, lib.Inverts (created_at r) (id r)) (rounds k : ℕ)
    {cursor : Option String} {start : Option (Time ×ₗ UUID)}
    (hstart : startOf lib cursor = .ok start) :
    follow (fun k cursor => listPage lib created_at id (rows k) limit cursor) rounds k cursor
      = .ok (Keyset.follow (position created_at id) limit rows rounds k start) := by
  induction rounds generalizing k cursor start with
  | zero => rfl
  | succ rounds ih =>
      have hpage : Keyset.PageOf (position created_at id) limit start (rows k) _ _ :=
        Keyset.page_spec hlimit (nodup_positions (hnodup k))
      rw [follow, listPage_eq hlimit hstart, Keyset.follow]
      generalize Keyset.page (position created_at id) limit start (rows k) = out at hpage
      obtain ⟨items, next⟩ := out
      cases next with
      | none => rfl
      | some p =>
          -- The next position is that of a row, which the library reads back.
          obtain ⟨-, ⟨last, hlast, hkey⟩, -⟩ := hpage.rest p rfl
          have hinverts := hlib k last (hpage.found last hlast).1
          have hnext : startOf lib (some (tokenOf lib p)) = .ok (some p) := by
            rw [← hkey]
            exact startOf_encode hinverts
          show (follow _ rounds (k + 1) (some (tokenOf lib p)) >>= fun out => _) = _
          rw [ih (k + 1) hnext]
          rfl

/-- The positions of the rows are kept by insertions. -/
theorem OnlyInserts.grows (h : OnlyInserts created_at id rows) (k : ℕ) :
    Keyset.Grows (position created_at id) (rows k) (rows (k + 1)) := by
  intro r hr
  obtain ⟨r', hr', hid, hcreated⟩ := h k r hr
  exact ⟨r', hr', by rw [position, position, hid, hcreated]⟩

theorem OnlyInserts.later (h : OnlyInserts created_at id rows) {j k : ℕ} (hjk : j ≤ k) {r : ρ}
    (hr : r ∈ rows j) : ∃ r' ∈ rows k, id r' = id r ∧ created_at r' = created_at r := by
  induction k, hjk using Nat.le_induction with
  | base => exact ⟨r, hr, rfl, rfl⟩
  | succ k _ ih =>
      obtain ⟨r', hr', hid, hcreated⟩ := ih
      obtain ⟨r'', hr'', hid', hcreated'⟩ := h k r' hr'
      exact ⟨r'', hr'', hid'.trans hid, hcreated'.trans hcreated⟩

/-- An id has one position, whichever table it is read from. -/
theorem OnlyInserts.position_eq (h : OnlyInserts created_at id rows)
    (hnodup : ∀ k, ((rows k).map id).Nodup) {j k : ℕ} {r s : ρ} (hr : r ∈ rows j) (hs : s ∈ rows k)
    (hid : id r = id s) : position created_at id r = position created_at id s := by
  obtain ⟨r', hr', hrid, hrc⟩ := h.later (Nat.le_max_left j k) hr
  obtain ⟨s', hs', hsid, hsc⟩ := h.later (Nat.le_max_right j k) hs
  have hsame : r' = s' :=
    List.inj_on_of_nodup_map (hnodup _) hr' hs' (hrid.trans (hid.trans hsid.symm))
  rw [position, position, hid, ← hrc, hsame, hsc]

theorem pagesThrough (hlimit : 1 ≤ limit) (hnodup : ∀ k, ((rows k).map id).Nodup)
    (hlib : ∀ k, ∀ r ∈ rows k, lib.Inverts (created_at r) (id r))
    (hinserts : OnlyInserts created_at id rows) :
    PagesThrough created_at id rows
      (fun k cursor => listPage lib created_at id (rows k) limit cursor) := by
  have hkeys : ∀ k, ((rows k).map (position created_at id)).Nodup :=
    fun k => nodup_positions (hnodup k)
  have hfollow := fun rounds =>
    follow_eq hlimit hnodup hlib rounds 0 (rfl : startOf lib none = .ok none)
  refine ⟨fun rounds => ?_, fun hstill => ?_, fun hstill rounds items hend => ?_⟩
  · obtain ⟨hsorted, hfound, hall⟩ :=
      Keyset.follow_spec hlimit hkeys hinserts.grows rounds 0 none
    refine ⟨_, _, hfollow rounds, hsorted, ?_, fun r hr => ?_, fun hend r hr => ?_⟩
    · -- Two rows with one id would have one position.
      refine List.pairwise_map.mpr (hsorted.imp_of_mem (fun {a b} ha hb hlt hid => ?_))
      obtain ⟨⟨j, -, hj⟩, -⟩ := hfound a ha
      obtain ⟨⟨k, -, hk⟩, -⟩ := hfound b hb
      rw [hinserts.position_eq hnodup hj hk hid] at hlt
      exact lt_irrefl _ hlt
    · obtain ⟨⟨j, -, hj⟩, -⟩ := hfound r hr
      exact ⟨j, hj⟩
    · obtain ⟨r', hr', hkey⟩ := hall hend r hr rfl
      exact List.mem_map.mpr ⟨r', hr', congrArg (fun p => (ofLex p).2) hkey⟩
  · obtain ⟨n, hn⟩ := hstill
    obtain ⟨rounds, hend⟩ := Keyset.exists_follow_ends hlimit (hkeys n) n 0 none
      (fun j hj => hn j (by omega))
    refine ⟨rounds, (Keyset.follow (position created_at id) limit rows rounds 0 none).1, ?_⟩
    rw [hfollow rounds, ← hend]
  · rw [hfollow rounds] at hend
    have hout := Except.ok.inj hend
    have hend' : (Keyset.follow (position created_at id) limit rows rounds 0 none).2 = true := by
      rw [hout]
    rw [← Keyset.follow_still hlimit (hkeys 0) hstill hend', hout]

end Follow

/-- **Keyset pagination loses and repeats nothing,** for workflows and for runs. -/
theorem pagination_exact {lib : Stdlib} {limit : ℕ} (hlimit : 1 ≤ limit) (dbs : ℕ → Db) :
    ((∀ k, ∀ r ∈ (dbs k).workflows.rows, lib.Inverts r.created_at r.id) →
      OnlyInserts Workflow.created_at Workflow.id (fun k => (dbs k).workflows.rows) →
      PagesThrough Workflow.created_at Workflow.id (fun k => (dbs k).workflows.rows)
        (fun k cursor => WorkflowRepository.list_page lib (dbs k) limit cursor)) ∧
    ((∀ k, ∀ r ∈ (dbs k).workflow_runs.rows, lib.Inverts r.created_at r.id) →
      OnlyInserts WorkflowRun.created_at WorkflowRun.id (fun k => (dbs k).workflow_runs.rows) →
      PagesThrough WorkflowRun.created_at WorkflowRun.id (fun k => (dbs k).workflow_runs.rows)
        (fun k cursor => RunRepository.list_page lib (dbs k) limit cursor none none)) := by
  constructor
  · intro hlib hinserts
    exact pagesThrough hlimit (fun k => (dbs k).workflows.nodup) hlib hinserts
  · intro hlib hinserts
    have hall : ∀ k, (dbs k).workflow_runs.rows.filter (fun _ => true)
        = (dbs k).workflow_runs.rows := fun k => List.filter_true _
    have hpages := pagesThrough hlimit (fun k => (dbs k).workflow_runs.nodup) hlib hinserts
    unfold RunRepository.list_page
    simp only [Option.all_none, Bool.and_self, hall]
    exact hpages

/-! ## Two pages and an insertion -/

/-- The positions that occur below. -/
def samplePositions : List (Time × UUID) := [(0, 1), (0, 2), (1, 3)]

/-- The standard library, on what occurs below. -/
def sampleIso (t : Time) : String :=
  if t = 0 then "1970-01-01T00:00:00+00:00" else "1970-01-01T00:00:01+00:00"

def sampleStr (id : UUID) : String := "00000000-0000-0000-0000-00000000000" ++ toString id

def sampleText (p : Time × UUID) : String :=
  "\x7b\"t\": \"" ++ sampleIso p.1 ++ "\", \"i\": \"" ++ sampleStr p.2 ++ "\"\x7d"

def sampleBytes (p : Time × UUID) : List UInt8 :=
  (sampleText p).toList.map (fun c => UInt8.ofNat c.toNat)

def samplePayload (p : Time × UUID) : Json :=
  .object [("t", .str (sampleIso p.1)), ("i", .str (sampleStr p.2))]

def sampleLib : Stdlib where
  dumps payload :=
    match payload with
    | .object [(_, .str t), (_, .str i)] =>
        ("\x7b\"t\": \"" ++ t ++ "\", \"i\": \"" ++ i ++ "\"\x7d").toList.map
          (fun c => UInt8.ofNat c.toNat)
    | _ => []
  loads bytes :=
    match samplePositions.find? (fun p => sampleBytes p = bytes) with
    | some p => .ok (samplePayload p)
    | none => .error (.ValueError "Expecting value")
  isoformat := sampleIso
  fromisoformat value :=
    match value with
    | .str text =>
        match samplePositions.find? (fun p => sampleIso p.1 = text) with
        | some p => .ok p.1
        | none => .error (.ValueError "Invalid isoformat string")
    | _ => .error .TypeError
  str := sampleStr
  toUUID value :=
    match value with
    | .str text =>
        match samplePositions.find? (fun p => sampleStr p.2 = text) with
        | some p => .ok p.2
        | none => .error (.ValueError "badly formed hexadecimal UUID string")
    | _ => .error .AttributeError

theorem sampleLib_inverts {p : Time × UUID} (hp : p ∈ samplePositions) :
    sampleLib.Inverts p.1 p.2 := by
  have hbytes : ∀ p ∈ samplePositions,
      samplePositions.find? (fun q => sampleBytes q = sampleBytes p) = some p := by decide +kernel
  have htime : ∀ p ∈ samplePositions,
      (samplePositions.find? (fun q => sampleIso q.1 = sampleIso p.1)).map Prod.fst = some p.1 := by
    decide +kernel
  have huuid : ∀ p ∈ samplePositions,
      (samplePositions.find? (fun q => sampleStr q.2 = sampleStr p.2)).map Prod.snd = some p.2 := by
    decide +kernel
  refine ⟨?_, ?_, ?_⟩
  · show sampleLib.loads (sampleBytes p) = .ok (samplePayload p)
    simp only [sampleLib, hbytes p hp]
  · obtain ⟨q, hq, hqt⟩ := Option.map_eq_some_iff.mp (htime p hp)
    show sampleLib.fromisoformat (.str (sampleIso p.1)) = .ok p.1
    simp only [sampleLib, hq, hqt]
  · obtain ⟨q, hq, hqi⟩ := Option.map_eq_some_iff.mp (huuid p hp)
    show sampleLib.toUUID (.str (sampleStr p.2)) = .ok p.2
    simp only [sampleLib, hq, hqi]

def sampleWorkflow (p : Time × UUID) : Workflow := ⟨p.2, "flow", p.2, none, p.1⟩

/-- Two workflows of one instant, and a newer one once the first page is fetched. -/
def samplePublished (k : ℕ) : Db :=
  { Db.empty with workflows :=
      if k = 0 then ⟨[sampleWorkflow (0, 1), sampleWorkflow (0, 2)], by decide⟩
      else ⟨[sampleWorkflow (0, 1), sampleWorkflow (0, 2), sampleWorkflow (1, 3)], by decide⟩ }

theorem pagination_exact_sample :
    (follow (fun k cursor => WorkflowRepository.list_page sampleLib (samplePublished k) 1 cursor) 2 0
        none).toOption.map (fun out => (out.1.map Workflow.id, out.2)) = some ([2, 1], true) ∧
    PagesThrough Workflow.created_at Workflow.id (fun k => (samplePublished k).workflows.rows)
      (fun k cursor => WorkflowRepository.list_page sampleLib (samplePublished k) 1 cursor) := by
  have hrows : ∀ k, ∀ r ∈ (samplePublished k).workflows.rows,
      ∃ p ∈ samplePositions, r = sampleWorkflow p := by
    intro k r hr
    unfold samplePublished at hr
    split at hr
    · simp only [List.mem_cons, List.not_mem_nil, or_false] at hr
      rcases hr with rfl | rfl
      · exact ⟨(0, 1), by simp [samplePositions], rfl⟩
      · exact ⟨(0, 2), by simp [samplePositions], rfl⟩
    · simp only [List.mem_cons, List.not_mem_nil, or_false] at hr
      rcases hr with rfl | rfl | rfl
      · exact ⟨(0, 1), by simp [samplePositions], rfl⟩
      · exact ⟨(0, 2), by simp [samplePositions], rfl⟩
      · exact ⟨(1, 3), by simp [samplePositions], rfl⟩
  refine ⟨by decide +kernel, (pagination_exact (Nat.le_refl 1) samplePublished).1 ?_ ?_⟩
  · intro k r hr
    obtain ⟨p, hp, rfl⟩ := hrows k r hr
    exact sampleLib_inverts hp
  · intro k r hr
    refine ⟨r, ?_, rfl, rfl⟩
    -- only the first step inserts a row
    cases k with
    | zero => exact List.mem_append_left [sampleWorkflow (1, 3)] hr
    | succ k => exact hr

end Conductor
