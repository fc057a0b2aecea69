/-
Base64 with the URL-safe alphabet, as the Python standard library has it.

`b2a` encodes three bytes into four characters and pads the last group. `a2b` is
the lenient decoder: it skips characters outside the alphabet, takes `+` and `/`
for `-` and `_`, stops at a padding that completes a group, and refuses a group
that is left incomplete. `strip` and `pad` remove the padding and put it back.
-/
import Mathlib.Data.List.DropRight
import Mathlib.Tactic.IntervalCases

set_option autoImplicit false

namespace Base64

/-- The 64 characters, by value. -/
def alphabet : List Char :=
  "ABCDEFGHIJKLMNOPQRSTUVWXYZabcdefghijklmnopqrstuvwxyz0123456789-_".toList

/-- The character for a value below 64. -/
def symbol (v : ℕ) : Char := alphabet.getD v 'A'

/-- The value of a character, after `-` and `_` have been put for `+` and `/`. -/
def value (c : Char) : Option ℕ :=
  match c with
  | '+' => some 62
  | '/' => some 63
  | c => alphabet.idxOf? c

/-- `urlsafe_b64encode`. -/
def b2a : List UInt8 → List Char
  | [] => []
  | [a] => [symbol (a.toNat / 4), symbol (a.toNat % 4 * 16), '=', '=']
  | [a, b] =>
      [symbol (a.toNat / 4), symbol (a.toNat % 4 * 16 + b.toNat / 16), symbol (b.toNat % 16 * 4), '=']
  | a :: b :: c :: rest =>
      symbol (a.toNat / 4) :: symbol (a.toNat % 4 * 16 + b.toNat / 16)
        :: symbol (b.toNat % 16 * 4 + c.toNat / 64) :: symbol (c.toNat % 64) :: b2a rest

/-- The loop of the decoder: how many characters of the present group have been read,
the bits of the last one not yet written out, and the padding seen since. -/
def decodeFrom : List Char → ℕ → ℕ → ℕ → Except String (List UInt8)
  | [], 0, _, _ => .ok []
  | [], 1, _, _ => .error "number of data characters cannot be 1 more than a multiple of 4"
  | [], _ + 2, _, _ => .error "Incorrect padding"
  | c :: cs, quad, left, pads =>
      if c = '=' then
        if 2 ≤ quad then
          if 4 ≤ quad + (pads + 1) then .ok [] else decodeFrom cs quad left (pads + 1)
        else decodeFrom cs quad left pads
      else
        match value c with
        | none => decodeFrom cs quad left pads
        | some v =>
            match quad with
            | 0 => decodeFrom cs 1 v 0
            | 1 => (decodeFrom cs 2 (v % 16) 0).map (UInt8.ofNat (left * 4 + v / 16) :: ·)
            | 2 => (decodeFrom cs 3 (v % 4) 0).map (UInt8.ofNat (left * 16 + v / 4) :: ·)
            | _ => (decodeFrom cs 0 0 0).map (UInt8.ofNat (left * 64 + v) :: ·)

/-- `urlsafe_b64decode`. -/
def a2b (cs : List Char) : Except String (List UInt8) := decodeFrom cs 0 0 0

/-- `rstrip("=")`. -/
def strip (cs : List Char) : List Char := cs.rdropWhile (· = '=')

/-- `token + "=" * (-len(token) % 4)`. -/
def pad (cs : List Char) : List Char :=
  cs ++ List.replicate ((-(cs.length : ℤ)) % 4).toNat '='

/-! ## Decoding what was encoded -/

theorem value_symbol : ∀ v < 64, value (symbol v) = some v := by decide +kernel

theorem length_alphabet : alphabet.length = 64 := by decide +kernel

theorem symbol_mem : ∀ v < 64, symbol v ∈ alphabet := by
  intro v hv
  have hlt : v < alphabet.length := by rw [length_alphabet]; exact hv
  unfold symbol
  rw [List.getD_eq_getElem?_getD, List.getElem?_eq_getElem hlt]
  exact List.getElem_mem hlt

theorem symbol_ascii : ∀ v < 64, (symbol v).toNat ≤ 127 := by
  intro v hv
  have hall : alphabet.all (fun c => c.toNat ≤ 127) = true := by decide +kernel
  simpa using List.all_eq_true.mp hall (symbol v) (symbol_mem v hv)

theorem symbol_ne : ∀ v < 64, symbol v ≠ '=' := by
  intro v hv heq
  have hpadding : '=' ∉ alphabet := by decide +kernel
  exact hpadding (heq ▸ symbol_mem v hv)

section Symbols

variable {v left pads : ℕ} {cs : List Char}

theorem decodeFrom_first (hv : v < 64) :
    decodeFrom (symbol v :: cs) 0 left pads = decodeFrom cs 1 v 0 := by
  rw [decodeFrom, if_neg (symbol_ne v hv), value_symbol v hv]
  rfl

theorem decodeFrom_second (hv : v < 64) : decodeFrom (symbol v :: cs) 1 left pads
    = (decodeFrom cs 2 (v % 16) 0).map (UInt8.ofNat (left * 4 + v / 16) :: ·) := by
  rw [decodeFrom, if_neg (symbol_ne v hv), value_symbol v hv]
  rfl

theorem decodeFrom_third (hv : v < 64) : decodeFrom (symbol v :: cs) 2 left pads
    = (decodeFrom cs 3 (v % 4) 0).map (UInt8.ofNat (left * 16 + v / 4) :: ·) := by
  rw [decodeFrom, if_neg (symbol_ne v hv), value_symbol v hv]
  rfl

theorem decodeFrom_fourth (hv : v < 64) : decodeFrom (symbol v :: cs) 3 left pads
    = (decodeFrom cs 0 0 0).map (UInt8.ofNat (left * 64 + v) :: ·) := by
  rw [decodeFrom, if_neg (symbol_ne v hv), value_symbol v hv]
  rfl

end Symbols

/-- A byte put together again from its parts. -/
theorem ofNat_eq {n : ℕ} {a : UInt8} (h : n = a.toNat) : UInt8.ofNat n = a := by
  rw [h, UInt8.ofNat_toNat]

/-- **Decoding inverts encoding.** -/
theorem a2b_b2a (bytes : List UInt8) : a2b (b2a bytes) = .ok bytes := by
  unfold a2b
  induction bytes using b2a.induct with
  | case1 => rfl
  | case2 a =>
      have ha : a.toNat < 256 := a.toNat_lt
      have hbyte : UInt8.ofNat (a.toNat / 4 * 4 + a.toNat % 4 * 16 / 16) = a := ofNat_eq (by omega)
      have hpad : ∀ left, decodeFrom ['=', '='] 2 left 0 = .ok [] := fun _ => rfl
      rw [b2a, decodeFrom_first (by omega), decodeFrom_second (by omega), hpad, hbyte]
      rfl
  | case3 a b =>
      have ha : a.toNat < 256 := a.toNat_lt
      have hb : b.toNat < 256 := b.toNat_lt
      have hfirst : UInt8.ofNat (a.toNat / 4 * 4 + (a.toNat % 4 * 16 + b.toNat / 16) / 16) = a :=
        ofNat_eq (by omega)
      have hsecond : UInt8.ofNat ((a.toNat % 4 * 16 + b.toNat / 16) % 16 * 16
          + b.toNat % 16 * 4 / 4) = b := ofNat_eq (by omega)
      have hpad : ∀ left, decodeFrom ['='] 3 left 0 = .ok [] := fun _ => rfl
      rw [b2a, decodeFrom_first (by omega), decodeFrom_second (by omega),
        decodeFrom_third (by omega), hpad, hfirst, hsecond]
      rfl
  | case4 a b c rest ih =>
      have ha : a.toNat < 256 := a.toNat_lt
      have hb : b.toNat < 256 := b.toNat_lt
      have hc : c.toNat < 256 := c.toNat_lt
      have hfirst : UInt8.ofNat (a.toNat / 4 * 4 + (a.toNat % 4 * 16 + b.toNat / 16) / 16) = a :=
        ofNat_eq (by omega)
      have hsecond : UInt8.ofNat ((a.toNat % 4 * 16 + b.toNat / 16) % 16 * 16
          + (b.toNat % 16 * 4 + c.toNat / 64) / 4) = b := ofNat_eq (by omega)
      have hthird : UInt8.ofNat ((b.toNat % 16 * 4 + c.toNat / 64) % 4 * 64 + c.toNat % 64) = c :=
        ofNat_eq (by omega)
      rw [b2a, decodeFrom_first (by omega), decodeFrom_second (by omega),
        decodeFrom_third (by omega), decodeFrom_fourth (by omega), ih, hfirst, hsecond, hthird]
      rfl

/-! ## Padding -/

/-- What was encoded is characters of the alphabet and then the padding that its
length asks for. -/
theorem b2a_eq (bytes : List UInt8) :
    ∃ body, b2a bytes = body ++ List.replicate ((-(body.length : ℤ)) % 4).toNat '=' ∧
      ∀ c ∈ body, ∃ v < 64, c = symbol v := by
  induction bytes using b2a.induct with
  | case1 => exact ⟨[], rfl, by simp⟩
  | case2 a =>
      have ha : a.toNat < 256 := a.toNat_lt
      refine ⟨[symbol (a.toNat / 4), symbol (a.toNat % 4 * 16)], rfl, fun c hc => ?_⟩
      simp only [List.mem_cons, List.not_mem_nil, or_false] at hc
      rcases hc with rfl | rfl
      · exact ⟨_, by omega, rfl⟩
      · exact ⟨_, by omega, rfl⟩
  | case3 a b =>
      have ha : a.toNat < 256 := a.toNat_lt
      have hb : b.toNat < 256 := b.toNat_lt
      refine ⟨[symbol (a.toNat / 4), symbol (a.toNat % 4 * 16 + b.toNat / 16),
        symbol (b.toNat % 16 * 4)], rfl, fun c hc => ?_⟩
      simp only [List.mem_cons, List.not_mem_nil, or_false] at hc
      rcases hc with rfl | rfl | rfl
      · exact ⟨_, by omega, rfl⟩
      · exact ⟨_, by omega, rfl⟩
      · exact ⟨_, by omega, rfl⟩
  | case4 a b c rest ih =>
      have ha : a.toNat < 256 := a.toNat_lt
      have hb : b.toNat < 256 := b.toNat_lt
      have hc : c.toNat < 256 := c.toNat_lt
      obtain ⟨body, hbody, hsymbols⟩ := ih
      refine ⟨symbol (a.toNat / 4) :: symbol (a.toNat % 4 * 16 + b.toNat / 16)
        :: symbol (b.toNat % 16 * 4 + c.toNat / 64) :: symbol (c.toNat % 64) :: body, ?_,
        fun x hx => ?_⟩
      · have hlength : ∀ n : ℕ, ((-((n + 1 + 1 + 1 + 1 : ℕ) : ℤ)) % 4).toNat
            = ((-(n : ℤ)) % 4).toNat := by
          intro n
          omega
        rw [b2a, hbody]
        simp only [List.length_cons, hlength, List.cons_append]
      · simp only [List.mem_cons] at hx
        rcases hx with rfl | rfl | rfl | rfl | hx
        · exact ⟨_, by omega, rfl⟩
        · exact ⟨_, by omega, rfl⟩
        · exact ⟨_, by omega, rfl⟩
        · exact ⟨_, by omega, rfl⟩
        · exact hsymbols x hx

theorem b2a_ascii (bytes : List UInt8) : ∀ c ∈ b2a bytes, c.toNat ≤ 127 := by
  obtain ⟨body, hbody, hsymbols⟩ := b2a_eq bytes
  intro c hc
  rw [hbody, List.mem_append] at hc
  rcases hc with hc | hc
  · obtain ⟨v, hv, rfl⟩ := hsymbols c hc
    exact symbol_ascii v hv
  · rw [List.eq_of_mem_replicate hc]
    decide

theorem strip_append (body : List Char) (n : ℕ) :
    strip (body ++ List.replicate n '=') = strip body := by
  induction n with
  | zero => rw [List.replicate_zero, List.append_nil]
  | succ n ih =>
      rw [List.replicate_succ', ← List.append_assoc, strip,
        List.rdropWhile_concat_pos _ _ _ (by simp)]
      exact ih

/-- What stripping the padding leaves of what was encoded. -/
theorem strip_b2a (bytes : List UInt8) :
    b2a bytes = strip (b2a bytes) ++
        List.replicate ((-((strip (b2a bytes)).length : ℤ)) % 4).toNat '=' ∧
      ∀ c ∈ strip (b2a bytes), ∃ v < 64, c = symbol v := by
  obtain ⟨body, hbody, hsymbols⟩ := b2a_eq bytes
  have hstrip : strip (b2a bytes) = body := by
    rw [hbody, strip_append, strip, List.rdropWhile_eq_self_iff]
    intro hne hlast
    obtain ⟨v, hv, hsymbol⟩ := hsymbols _ (List.getLast_mem hne)
    rw [hsymbol] at hlast
    exact symbol_ne v hv (by simpa using hlast)
  rw [hstrip]
  exact ⟨hbody, hsymbols⟩

/-- The padding can be put back. -/
theorem pad_strip_b2a (bytes : List UInt8) : pad (strip (b2a bytes)) = b2a bytes :=
  (strip_b2a bytes).1.symm

/-- Without its padding, what was encoded is characters of the alphabet only. -/
theorem strip_b2a_alphabet (bytes : List UInt8) : ∀ c ∈ strip (b2a bytes), c ∈ alphabet := by
  intro c hc
  obtain ⟨v, hv, rfl⟩ := (strip_b2a bytes).2 c hc
  exact symbol_mem v hv

theorem strip_b2a_ne (bytes : List UInt8) : '=' ∉ strip (b2a bytes) := by
  intro hc
  obtain ⟨v, hv, hsymbol⟩ := (strip_b2a bytes).2 _ hc
  exact symbol_ne v hv hsymbol.symm

end Base64
