import Mathlib.Init

/-!
# Texts of C programs

A text is a list of characters; a buffer is a text in which the first NUL ends
the string. Here are `%d` of `printf`, `%d` of `scanf`, `atoi` and the tokens
that repeated calls of `strtok` return. Values are unbounded integers.
-/

namespace Memtrade.CText

abbrev Text := List Char

def nul : Char := Char.ofNat 0

/-- The string that a buffer holds. -/
def cstr (buf : Text) : Text := buf.takeWhile fun c => c != nul

/-- `memcpy` of a text to the front of a buffer. -/
def memcpy (buf t : Text) : Text := t ++ buf.drop t.length

/-- A field of a record and the character behind it. -/
def sep (field : Text) (c : Char) (rest : Text) : Text := field ++ c :: rest

/-! ## Decimal numbers -/

/-- The conversion `%d` of `printf`. -/
def decimal : Int → Text
  | .ofNat n => Nat.toDigits 10 n
  | .negSucc n => '-' :: Nat.toDigits 10 (n + 1)

/-- `isspace` in the C locale. -/
def isSpace (c : Char) : Bool := c == ' ' || (9 ≤ c.toNat && c.toNat ≤ 13)

/-- Digits up to the first other character, with what follows them. -/
def scanNat (t : Text) : Option (Nat × Text) :=
  match t.takeWhile Char.isDigit with
  | [] => none
  | d :: ds => some (Nat.ofDigitChars 10 (d :: ds) 0, t.dropWhile Char.isDigit)

/-- The conversion `%d` of `scanf`: blanks, a sign, digits. -/
def scanInt (t : Text) : Option (Int × Text) :=
  match t.dropWhile isSpace with
  | [] => none
  | c :: cs =>
      if c = '-' then (scanNat cs).map fun r => (-(r.1 : Int), r.2)
      else if c = '+' then (scanNat cs).map fun r => ((r.1 : Int), r.2)
      else (scanNat (c :: cs)).map fun r => ((r.1 : Int), r.2)

/-- `atoi`, which is 0 on a text without a number. -/
def atoi (t : Text) : Int := ((scanInt t).map Prod.fst).getD 0

/-- `sscanf` with the format `%d,%d,…` of `k` conversions: the values converted
before the first mismatch. -/
def scanInts : Nat → Text → List Int
  | 0, _ => []
  | k + 1, t =>
      match scanInt t with
      | none => []
      | some (v, rest) =>
          match rest with
          | [] => [v]
          | c :: rest => if c = ',' then v :: scanInts k rest else [v]

/-- The tokens of a string whose current token has begun with `tok`. -/
def tokensFrom (delim : Char → Bool) : Text → Text → List Text
  | tok, [] => if tok = [] then [] else [tok]
  | tok, c :: cs =>
      if delim c then
        if tok = [] then tokensFrom delim [] cs else tok :: tokensFrom delim [] cs
      else tokensFrom delim (tok ++ [c]) cs

/-- What successive calls of `strtok` return on a string. -/
def tokens (delim : Char → Bool) (t : Text) : List Text := tokensFrom delim [] t

/-! ## Reading back what was printed -/

theorem isDigit_of_mem_digits {c : Char} {n : Nat} (h : c ∈ Nat.toDigits 10 n) : c.isDigit = true :=
  Nat.isDigit_of_mem_toDigits (by decide) (by decide) h

theorem takeWhile_digits (n : Nat) {rest : Text}
    (hrest : ∀ c, rest.head? = some c → c.isDigit = false) :
    (Nat.toDigits 10 n ++ rest).takeWhile Char.isDigit = Nat.toDigits 10 n := by
  rw [List.takeWhile_append_of_pos fun c hc => isDigit_of_mem_digits hc]
  cases rest with
  | nil => simp
  | cons c cs => simp [hrest c rfl]

theorem dropWhile_digits (n : Nat) {rest : Text}
    (hrest : ∀ c, rest.head? = some c → c.isDigit = false) :
    (Nat.toDigits 10 n ++ rest).dropWhile Char.isDigit = rest := by
  rw [List.dropWhile_append_of_pos fun c hc => isDigit_of_mem_digits hc]
  cases rest with
  | nil => simp
  | cons c cs => simp [hrest c rfl]

theorem scanNat_digits (n : Nat) {rest : Text}
    (hrest : ∀ c, rest.head? = some c → c.isDigit = false) :
    scanNat (Nat.toDigits 10 n ++ rest) = some (n, rest) := by
  unfold scanNat
  rw [takeWhile_digits n hrest, dropWhile_digits n hrest]
  cases hd : Nat.toDigits 10 n with
  | nil => exact absurd hd Nat.toDigits_ne_nil
  | cons d ds => simp [← hd]

theorem digit_plain {c : Char} (h : c.isDigit = true) :
    isSpace c = false ∧ c ≠ '-' ∧ c ≠ '+' := by
  have hrange : 48 ≤ c.toNat ∧ c.toNat ≤ 57 := Char.isDigit_iff_toNat.mp h
  refine ⟨?_, ?_, ?_⟩
  · have hne : c ≠ ' ' := by
      rintro rfl
      simp at hrange
    have hgt : ¬ c.toNat ≤ 13 := by omega
    simp [isSpace, hne, hgt]
  · rintro rfl
    simp at hrange
  · rintro rfl
    simp at hrange

theorem scanInt_decimal (v : Int) (rest : Text)
    (hrest : ∀ c, rest.head? = some c → c.isDigit = false) :
    scanInt (decimal v ++ rest) = some (v, rest) := by
  cases v with
  | ofNat n =>
      have hscan := scanNat_digits n hrest
      cases hd : Nat.toDigits 10 n with
      | nil => exact absurd hd Nat.toDigits_ne_nil
      | cons d ds =>
          have hdig : d.isDigit = true := isDigit_of_mem_digits (n := n) (by simp [hd])
          obtain ⟨hspace, hminus, hplus⟩ := digit_plain hdig
          rw [hd] at hscan
          have hdrop : (decimal (.ofNat n) ++ rest).dropWhile isSpace = d :: ds ++ rest := by
            simp [decimal, hd, hspace]
          unfold scanInt
          simp only [hdrop, List.cons_append, hminus, hplus, if_false]
          rw [← List.cons_append, hscan]
          rfl
  | negSucc n =>
      have hscan := scanNat_digits (n + 1) hrest
      have hdrop : (decimal (.negSucc n) ++ rest).dropWhile isSpace =
          '-' :: (Nat.toDigits 10 (n + 1) ++ rest) := by
        simp [decimal, isSpace]
      unfold scanInt
      simp only [hdrop, if_true, hscan, Option.map_some]
      rfl

theorem atoi_decimal (v : Int) (rest : Text)
    (hrest : ∀ c, rest.head? = some c → c.isDigit = false) : atoi (decimal v ++ rest) = v := by
  simp [atoi, scanInt_decimal v rest hrest]

theorem decimal_injective : Function.Injective decimal := by
  intro v w h
  have hv := atoi_decimal v [] (by simp)
  have hw := atoi_decimal w [] (by simp)
  rw [List.append_nil] at hv hw
  rw [← hv, ← hw, h]

theorem decimal_ne_nil (v : Int) : decimal v ≠ [] := by
  cases v with
  | ofNat n => exact Nat.toDigits_ne_nil
  | negSucc n => simp [decimal]

theorem mem_decimal {c : Char} {v : Int} (h : c ∈ decimal v) : c.isDigit = true ∨ c = '-' := by
  cases v with
  | ofNat n => exact .inl (isDigit_of_mem_digits h)
  | negSucc n =>
      rcases List.mem_cons.mp h with rfl | h
      · exact .inr rfl
      · exact .inl (isDigit_of_mem_digits h)

theorem scanInts_sep (k : Nat) (v : Int) (rest : Text) :
    scanInts (k + 1) (sep (decimal v) ',' rest) = v :: scanInts k rest := by
  have hcomma : ∀ c, (',' :: rest).head? = some c → c.isDigit = false := by
    intro c hc
    simp only [List.head?_cons, Option.some.injEq] at hc
    subst hc
    decide
  simp [scanInts, sep, scanInt_decimal v (',' :: rest) hcomma]

theorem scanInts_last (k : Nat) (v : Int) : scanInts (k + 1) (decimal v) = [v] := by
  have hscan := scanInt_decimal v [] (by simp)
  rw [List.append_nil] at hscan
  simp [scanInts, hscan]

/-! ## Strings in buffers -/

theorem cstr_append {t : Text} (h : nul ∉ t) (rest : Text) : cstr (t ++ rest) = t ++ cstr rest := by
  unfold cstr
  rw [List.takeWhile_append_of_pos]
  intro c hc
  have hne : c ≠ nul := fun heq => h (heq ▸ hc)
  simpa using hne

theorem nul_not_mem_decimal (v : Int) : nul ∉ decimal v := by
  intro hmem
  rcases mem_decimal hmem with h | h
  · exact absurd h (by decide)
  · exact absurd h (by decide)

theorem nul_not_mem_sep {field rest : Text} {c : Char} (hfield : nul ∉ field) (hc : nul ≠ c)
    (hrest : nul ∉ rest) : nul ∉ sep field c rest := by
  simp [sep, hfield, hc, hrest]

/-- A string that is written with its terminator is what the buffer holds then. -/
theorem cstr_terminated {t : Text} (h : nul ∉ t) (buf more : Text) :
    cstr (memcpy buf (t ++ nul :: more)) = t := by
  unfold memcpy
  rw [List.append_assoc, cstr_append h]
  simp [cstr]

/-! ## Tokens of a record -/

section Tokens

variable {delim : Char → Bool}

theorem tokensFrom_append {tok t : Text} (h : ∀ c ∈ t, delim c = false) (rest : Text) :
    tokensFrom delim tok (t ++ rest) = tokensFrom delim (tok ++ t) rest := by
  induction t generalizing tok with
  | nil => simp
  | cons c t ih =>
      have hc := h c List.mem_cons_self
      rw [List.cons_append, tokensFrom]
      simp only [hc, Bool.false_eq_true, if_false]
      rw [ih fun d hd => h d (List.mem_cons_of_mem _ hd)]
      simp

theorem tokens_sep {field : Text} (hne : field ≠ []) (hfree : ∀ c ∈ field, delim c = false) {c : Char}
    (hc : delim c = true) (rest : Text) :
    tokens delim (sep field c rest) = field :: tokens delim rest := by
  unfold tokens sep
  rw [tokensFrom_append hfree, List.nil_append, tokensFrom]
  simp [hc, hne]

/-- The last field of a record and what comes behind it up to a delimiter are one token. -/
theorem tokens_append {field : Text} (hne : field ≠ []) (hfree : ∀ c ∈ field, delim c = false)
    (rest : Text) :
    tokens delim (field ++ rest) =
      (field ++ rest.takeWhile fun c => !delim c) :: tokens delim (rest.dropWhile fun c => !delim c) := by
  unfold tokens
  rw [tokensFrom_append hfree, List.nil_append]
  induction rest generalizing field with
  | nil => simp [tokensFrom, hne]
  | cons c rest ih =>
      cases hc : delim c with
      | true =>
          rw [tokensFrom]
          simp [hc, hne, tokensFrom]
      | false =>
          rw [tokensFrom]
          simp only [hc, Bool.false_eq_true, if_false]
          have hfree' : ∀ d ∈ field ++ [c], delim d = false := by
            intro d hd
            rcases List.mem_append.mp hd with hd | hd
            · exact hfree d hd
            · rw [List.mem_singleton.mp hd]
              exact hc
          rw [ih (by simp) hfree']
          simp [hc]

end Tokens

end Memtrade.CText
