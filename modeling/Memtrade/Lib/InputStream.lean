import Mathlib.Algebra.Ring.Int.Defs
import Mathlib.Data.List.Basic
import Mathlib.Data.List.TakeWhile
import Memtrade.Lib.CText

/-!
# Formatted input from a stream

`>>` of a C++ input stream into a `string` and into a `long`, and the loop
`while (in >> key >> value)`, which ends at the first extraction that fails. Lines
of a key, blanks and a number are read one by one, whatever the loop does with them.
-/

namespace Memtrade.CText

/-- `in >> key`: skip blanks, then take everything up to the next one. -/
def extractString (t : Text) : Option (Text × Text) :=
  match (t.dropWhile isSpace).takeWhile fun c => !isSpace c with
  | [] => none
  | c :: cs => some (c :: cs, (t.dropWhile isSpace).dropWhile fun c => !isSpace c)

/-- A value of the 64-bit type `long`. -/
def InLong (v : Int) : Prop := -2 ^ 63 ≤ v ∧ v < 2 ^ 63

instance decidableInLong (v : Int) : Decidable (InLong v) :=
  inferInstanceAs (Decidable (_ ∧ _))

/-- `in >> value`; a number out of range sets `failbit` like a text that is no number. -/
def extractLong (t : Text) : Option (Int × Text) :=
  match scanInt t with
  | none => none
  | some (v, rest) => if InLong v then some (v, rest) else none

theorem length_dropWhile_le {α : Type} (p : α → Bool) (t : List α) :
    (t.dropWhile p).length ≤ t.length :=
  (List.dropWhile_sublist p).length_le

theorem extractString_shorter {t key rest : Text} (h : extractString t = some (key, rest)) :
    rest.length < t.length := by
  have hsplit := List.takeWhile_append_dropWhile (p := fun c => !isSpace c)
    (l := t.dropWhile isSpace)
  have hle := length_dropWhile_le isSpace t
  unfold extractString at h
  cases hkey : (t.dropWhile isSpace).takeWhile fun c => !isSpace c with
  | nil => simp [hkey] at h
  | cons c cs =>
      simp only [hkey, Option.some.injEq, Prod.mk.injEq] at h
      have hlen := congrArg List.length hsplit
      rw [hkey, h.2, List.length_append, List.length_cons] at hlen
      omega

theorem scanNat_shorter {t rest : Text} {n : Nat} (h : scanNat t = some (n, rest)) :
    rest.length ≤ t.length := by
  unfold scanNat at h
  cases hdigits : t.takeWhile Char.isDigit with
  | nil => simp [hdigits] at h
  | cons d ds =>
      simp only [hdigits, Option.some.injEq, Prod.mk.injEq] at h
      rw [← h.2]
      exact length_dropWhile_le _ t

theorem scanInt_shorter {t rest : Text} {v : Int} (h : scanInt t = some (v, rest)) :
    rest.length ≤ t.length := by
  have hle := length_dropWhile_le isSpace t
  unfold scanInt at h
  cases hd : t.dropWhile isSpace with
  | nil => simp [hd] at h
  | cons c cs =>
      rw [hd, List.length_cons] at hle
      have hsigned : ∀ (u : Text) (f : Nat → Int), u.length ≤ t.length →
          (scanNat u).map (fun r => (f r.1, r.2)) = some (v, rest) → rest.length ≤ t.length := by
        intro u f hu hmap
        obtain ⟨r, hr, heq⟩ := Option.map_eq_some_iff.mp hmap
        rw [Prod.mk.injEq] at heq
        rw [← heq.2]
        exact (scanNat_shorter hr).trans hu
      simp only [hd] at h
      split at h
      · exact hsigned cs (fun n => -(n : Int)) (by omega) h
      · split at h
        · exact hsigned cs (fun n => (n : Int)) (by omega) h
        · exact hsigned (c :: cs) (fun n => (n : Int)) hle h

theorem extractLong_shorter {t rest : Text} {v : Int} (h : extractLong t = some (v, rest)) :
    rest.length ≤ t.length := by
  unfold extractLong at h
  cases hs : scanInt t with
  | none => simp [hs] at h
  | some r =>
      simp only [hs] at h
      split at h
      · rw [Option.some.injEq, Prod.mk.injEq] at h
        rw [← h.2]
        exact scanInt_shorter hs
      · cases h

section Loop

variable {σ : Type}

/-- `while (in >> key >> value)` with the given body, and the text that is left unread. -/
def readWhile (body : σ → Text → Int → σ) (s : σ) (t : Text) : σ × Text :=
  match _hkey : extractString t with
  | none => (s, t.dropWhile isSpace)
  | some (key, rest) =>
      match _hvalue : extractLong rest with
      | none => (s, rest)
      | some (value, rest') => readWhile body (body s key value) rest'
termination_by t.length
decreasing_by
  have hlt := extractString_shorter _hkey
  have hle := extractLong_shorter _hvalue
  omega

theorem readWhile_end (body : σ → Text → Int → σ) (s : σ) {t : Text}
    (hkey : extractString t = none) : readWhile body s t = (s, t.dropWhile isSpace) := by
  rw [readWhile]
  split
  · rfl
  · simp_all

theorem readWhile_next (body : σ → Text → Int → σ) (s : σ) {t key rest rest' : Text} {v : Int}
    (hkey : extractString t = some (key, rest)) (hvalue : extractLong rest = some (v, rest')) :
    readWhile body s t = readWhile body (body s key v) rest' := by
  rw [readWhile]
  split
  · simp_all
  · rename_i key' rest₁ hkey'
    rw [hkey, Option.some.injEq, Prod.mk.injEq] at hkey'
    split
    · simp_all
    · simp_all

theorem dropWhile_blanks {blanks t : Text} (hblanks : ∀ c ∈ blanks, isSpace c = true)
    (ht : ∀ c, t.head? = some c → isSpace c = false) :
    (blanks ++ t).dropWhile isSpace = t := by
  rw [List.dropWhile_append_of_pos hblanks]
  cases t with
  | nil => rfl
  | cons c cs => rw [List.dropWhile_cons_of_neg (by simp [ht c rfl])]

theorem mem_of_head?_append {t rest : Text} {c : Char} (hne : t ≠ [])
    (h : (t ++ rest).head? = some c) : c ∈ t := by
  rw [List.head?_append_of_ne_nil t hne] at h
  exact List.mem_of_head? h

/-- A word without blanks is read behind blanks and up to the next one. -/
theorem extractString_word {blanks key rest : Text} (hblanks : ∀ c ∈ blanks, isSpace c = true)
    (hne : key ≠ []) (hkey : ∀ c ∈ key, isSpace c = false)
    (hrest : ∀ c, rest.head? = some c → isSpace c = true) :
    extractString (blanks ++ (key ++ rest)) = some (key, rest) := by
  have hhead : ∀ c, (key ++ rest).head? = some c → isSpace c = false := by
    intro c hc
    exact hkey c (mem_of_head?_append hne hc)
  have hword : ∀ c ∈ key, (!isSpace c) = true := by
    intro c hc
    rw [hkey c hc]
    rfl
  have htake : (key ++ rest).takeWhile (fun c => !isSpace c) = key := by
    rw [List.takeWhile_append_of_pos hword]
    cases rest with
    | nil => simp
    | cons c cs => simp [hrest c rfl]
  have hdrop : (key ++ rest).dropWhile (fun c => !isSpace c) = rest := by
    rw [List.dropWhile_append_of_pos hword]
    cases rest with
    | nil => simp
    | cons c cs => simp [hrest c rfl]
  unfold extractString
  rw [dropWhile_blanks hblanks hhead, htake, hdrop]
  cases key with
  | nil => exact absurd rfl hne
  | cons c cs => rfl

theorem decimal_head {v : Int} {rest : Text} {c : Char} (h : (decimal v ++ rest).head? = some c) :
    isSpace c = false := by
  cases mem_decimal (mem_of_head?_append (decimal_ne_nil v) h) with
  | inl hdigit => exact (digit_plain hdigit).1
  | inr hminus => rw [hminus]; rfl

theorem extractLong_decimal {blanks rest : Text} {v : Int}
    (hblanks : ∀ c ∈ blanks, isSpace c = true) (hv : InLong v)
    (hrest : ∀ c, rest.head? = some c → c.isDigit = false) :
    extractLong (blanks ++ (decimal v ++ rest)) = some (v, rest) := by
  have hhead : ∀ c, (decimal v ++ rest).head? = some c → isSpace c = false := fun c => decimal_head
  have hscan : scanInt (blanks ++ (decimal v ++ rest)) = some (v, rest) := by
    have hplain := scanInt_decimal v rest hrest
    have hself : ([] ++ (decimal v ++ rest)).dropWhile isSpace = decimal v ++ rest :=
      dropWhile_blanks (by simp) hhead
    rw [List.nil_append] at hself
    unfold scanInt at hplain ⊢
    rw [dropWhile_blanks hblanks hhead]
    rw [hself] at hplain
    exact hplain
  unfold extractLong
  rw [hscan]
  simp [hv]

/-! ## A table of keys and numbers -/

/-- A label of the table is a key and the blanks behind it. -/
def labelKey (label : Text) : Text := label.takeWhile fun c => !isSpace c

def IsLabel (label : Text) : Prop :=
  labelKey label ≠ [] ∧ (label.dropWhile fun c => !isSpace c) ≠ [] ∧
    (label.dropWhile fun c => !isSpace c).all isSpace = true

instance decidableIsLabel (label : Text) : Decidable (IsLabel label) :=
  inferInstanceAs (Decidable (_ ∧ _ ∧ _))

/-- A line of the table. -/
def tableLine (l : Text × Int) : Text := l.1 ++ decimal l.2 ++ ['\n']

/-- One turn of the loop reads one line, from behind the blanks before it up to its end. -/
theorem readWhile_line (body : σ → Text → Int → σ) (s : σ) {blanks rest : Text} {l : Text × Int}
    (hblanks : ∀ c ∈ blanks, isSpace c = true) (hlabel : IsLabel l.1) (hv : InLong l.2) :
    readWhile body s (blanks ++ (tableLine l ++ rest)) =
      readWhile body (body s (labelKey l.1) l.2) ('\n' :: rest) := by
  obtain ⟨hkey, hpad, hall⟩ := hlabel
  have hspaces := List.all_eq_true.mp hall
  have hsplit : labelKey l.1 ++ (l.1.dropWhile fun c => !isSpace c) = l.1 :=
    List.takeWhile_append_dropWhile
  have hline : tableLine l ++ rest = labelKey l.1 ++
      ((l.1.dropWhile fun c => !isSpace c) ++ (decimal l.2 ++ '\n' :: rest)) := by
    rw [← List.append_assoc, hsplit]
    simp [tableLine]
  have hplain : ∀ c ∈ labelKey l.1, isSpace c = false := by
    intro c hc
    simpa using List.mem_takeWhile_imp hc
  have hnext : ∀ c, ((l.1.dropWhile fun c => !isSpace c) ++ (decimal l.2 ++ '\n' :: rest)).head? =
      some c → isSpace c = true := fun c hc => hspaces c (mem_of_head?_append hpad hc)
  rw [hline]
  apply readWhile_next
  · exact extractString_word hblanks hkey hplain hnext
  · apply extractLong_decimal hspaces hv
    intro c hc
    rw [List.head?_cons, Option.some.injEq] at hc
    rw [← hc]
    rfl

theorem readWhile_table (body : σ → Text → Int → σ) (table : List (Text × Int))
    (htable : ∀ l ∈ table, IsLabel l.1 ∧ InLong l.2) :
    ∀ (s : σ) {blanks : Text}, (∀ c ∈ blanks, isSpace c = true) →
      readWhile body s (blanks ++ table.flatMap tableLine) =
        (table.foldl (fun s l => body s (labelKey l.1) l.2) s, []) := by
  induction table with
  | nil =>
      intro s blanks hblanks
      have hdrop : blanks.dropWhile isSpace = [] := by
        rw [← List.append_nil blanks]
        exact dropWhile_blanks hblanks (by simp)
      have hkey : extractString blanks = none := by simp [extractString, hdrop]
      rw [List.flatMap_nil, List.append_nil, readWhile_end body s hkey, hdrop]
      rfl
  | cons l table ih =>
      intro s blanks hblanks
      have hl := htable l List.mem_cons_self
      rw [List.flatMap_cons, readWhile_line body s hblanks hl.1 hl.2]
      have hrest : ∀ l' ∈ table, IsLabel l'.1 ∧ InLong l'.2 :=
        fun l' hl' => htable l' (List.mem_cons_of_mem _ hl')
      have hnewline : ∀ c ∈ ['\n'], isSpace c = true := by
        intro c hc
        rw [List.mem_singleton.mp hc]
        rfl
      exact ih hrest _ hnewline

end Loop

end Memtrade.CText
