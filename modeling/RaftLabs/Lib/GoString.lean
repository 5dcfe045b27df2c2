import Mathlib.Data.Nat.Digits.Lemmas
import Mathlib.Tactic

/-!
# Strings of Go

Strings as sequences of bytes, and integers as the bytes of their decimal numerals.  A numeral is
read as `strconv.Atoi` reads it: an optional sign, one or more digits, and a value that fits into 64
bits.  Numerals are injective, are read back, and hold no byte but digits and the minus sign, so that
they can be put side by side with a separator between them.
-/

namespace RaftLabs

/-- Go's `string`: a sequence of bytes. -/
abbrev GoString := List UInt8

namespace Lib.Decimal

/-- The byte of a digit. -/
def digit (d : ℕ) : UInt8 := UInt8.ofNat (48 + d)

/-- The numeral of a natural number. -/
def formatNat (n : ℕ) : GoString :=
  if n = 0 then [digit 0] else (Nat.digits 10 n).reverse.map digit

/-- The numeral of an integer. -/
def formatInt : ℤ → GoString
  | .ofNat n => formatNat n
  | .negSucc n => 45 :: formatNat (n + 1)

def IsDigit (b : UInt8) : Prop := 48 ≤ b.toNat ∧ b.toNat ≤ 57

instance : DecidablePred IsDigit := fun _ => inferInstanceAs (Decidable (_ ∧ _))

/-- The value of a string of digits. -/
def valueOf (s : GoString) : ℕ := s.foldl (fun acc b => 10 * acc + (b.toNat - 48)) 0

/-- A string of one or more digits. -/
def parseNat (s : GoString) : Option ℕ :=
  if s ≠ [] ∧ s.all fun b => decide (IsDigit b) then some (valueOf s) else none

/-- A value of 64 bits. -/
def inRange (i : ℤ) : Option ℤ := if -2 ^ 63 ≤ i ∧ i < 2 ^ 63 then some i else none

/-- `Atoi`: `none` is an error. -/
def parseInt (s : GoString) : Option ℤ :=
  match s with
  | [] => none
  | b :: rest =>
    if b = 43 then (parseNat rest).bind fun n => inRange n
    else if b = 45 then (parseNat rest).bind fun n => inRange (-n)
    else (parseNat s).bind fun n => inRange n

/-! ### Digits -/

lemma toNat_digit {d : ℕ} (h : d < 10) : (digit d).toNat = 48 + d := by
  rw [digit, UInt8.toNat_ofNat']
  omega

lemma isDigit_digit {d : ℕ} (h : d < 10) : IsDigit (digit d) := by
  rw [IsDigit, toNat_digit h]
  omega

lemma lt_of_mem_digits {n d : ℕ} (h : d ∈ Nat.digits 10 n) : d < 10 :=
  Nat.digits_lt_base (by norm_num) h

lemma formatNat_ne_nil (n : ℕ) : formatNat n ≠ [] := by
  unfold formatNat
  split_ifs with h
  · simp
  · simpa using Nat.digits_ne_nil_iff_ne_zero.2 h

lemma isDigit_of_mem_formatNat {n : ℕ} {b : UInt8} (h : b ∈ formatNat n) : IsDigit b := by
  unfold formatNat at h
  split_ifs at h
  · rw [List.mem_singleton.1 h]
    exact isDigit_digit (by norm_num)
  · obtain ⟨d, hd, rfl⟩ := List.mem_map.1 h
    exact isDigit_digit (lt_of_mem_digits (List.mem_reverse.1 hd))

/-! ### Reading back -/

/-- Reading digits, the most significant one first. -/
lemma valueOf_map_digit {l : List ℕ} (h : ∀ d ∈ l, d < 10) :
    valueOf (l.reverse.map digit) = Nat.ofDigits 10 l := by
  unfold valueOf
  rw [List.map_reverse, List.foldl_reverse, List.foldr_map]
  induction l with
  | nil => rfl
  | cons d l ih =>
    have hd : (digit d).toNat - 48 = d := by
      rw [toNat_digit (h d List.mem_cons_self)]
      omega
    rw [List.foldr_cons, ih fun d hd => h d (List.mem_cons_of_mem _ hd), hd, Nat.ofDigits_cons]
    omega

lemma valueOf_formatNat (n : ℕ) : valueOf (formatNat n) = n := by
  unfold formatNat
  split_ifs with h
  · rw [h]
    rfl
  · rw [valueOf_map_digit fun d hd => lt_of_mem_digits hd, Nat.ofDigits_digits]

theorem parseNat_formatNat (n : ℕ) : parseNat (formatNat n) = some n := by
  have hdig : (formatNat n).all fun b => decide (IsDigit b) := by
    simpa using fun _ => isDigit_of_mem_formatNat
  rw [parseNat, if_pos ⟨formatNat_ne_nil n, hdig⟩, valueOf_formatNat]

theorem formatNat_injective : Function.Injective formatNat := by
  intro m n h
  rw [← valueOf_formatNat m, h, valueOf_formatNat]

lemma inRange_natCast {n : ℕ} (h : n < 2 ^ 63) : inRange (n : ℤ) = some (n : ℤ) := by
  have hlt : (n : ℤ) < 2 ^ 63 := by exact_mod_cast h
  have hge : (-2 ^ 63 : ℤ) ≤ n := (by norm_num : (-2 ^ 63 : ℤ) ≤ 0).trans (Int.natCast_nonneg n)
  unfold inRange
  rw [if_pos ⟨hge, hlt⟩]

/-- A numeral does not start with a sign. -/
lemma parseInt_formatNat {n : ℕ} (h : n < 2 ^ 63) : parseInt (formatNat n) = some (n : ℤ) := by
  have hparse := parseNat_formatNat n
  have hdig : ∀ b ∈ formatNat n, IsDigit b := fun _ => isDigit_of_mem_formatNat
  have hne := formatNat_ne_nil n
  revert hparse hdig hne
  generalize formatNat n = s
  intro hparse hdig hne
  cases s with
  | nil => exact absurd rfl hne
  | cons b rest =>
    have hb := hdig b List.mem_cons_self
    have h₁ : b ≠ 43 := by
      rintro rfl
      exact absurd hb (by decide)
    have h₂ : b ≠ 45 := by
      rintro rfl
      exact absurd hb (by decide)
    rw [parseInt, if_neg h₁, if_neg h₂, hparse, Option.bind_some, inRange_natCast h]

/-! ### Signed numerals -/

lemma of_mem_formatInt {i : ℤ} {b : UInt8} (h : b ∈ formatInt i) : IsDigit b ∨ b = 45 := by
  cases i with
  | ofNat n => exact Or.inl (isDigit_of_mem_formatNat h)
  | negSucc n =>
    rcases List.mem_cons.1 h with rfl | h
    · exact Or.inr rfl
    · exact Or.inl (isDigit_of_mem_formatNat h)

theorem formatInt_injective : Function.Injective formatInt := by
  -- a natural number has no sign
  have hsign : ∀ m n, formatNat m ≠ 45 :: formatNat n := by
    intro m n h
    have : IsDigit 45 := isDigit_of_mem_formatNat (h ▸ List.mem_cons_self)
    exact absurd this (by decide)
  intro i j h
  cases i with
  | ofNat m =>
    cases j with
    | ofNat n => rw [formatNat_injective h]
    | negSucc n => exact absurd h (hsign _ _)
  | negSucc m =>
    cases j with
    | ofNat n => exact absurd h.symm (hsign _ _)
    | negSucc n =>
      have := formatNat_injective (List.cons.inj h).2
      rw [Nat.succ.inj this]

/-- Two numerals with a separator between them. -/
theorem formatInt_separated {sep : UInt8} (hsep : ¬ IsDigit sep) (h45 : sep ≠ 45) {i j i' j' : ℤ}
    (h : formatInt i ++ sep :: formatInt j = formatInt i' ++ sep :: formatInt j') :
    i = i' ∧ j = j' := by
  have hnot : ∀ i, sep ∉ formatInt i := by
    intro i hi
    rcases of_mem_formatInt hi with hd | rfl
    · exact hsep hd
    · exact h45 rfl
  obtain ⟨h₁, -, h₂⟩ := (List.append_cons_inj_of_notMem (hnot i) (hnot j)).1 h
  exact ⟨formatInt_injective h₁, formatInt_injective h₂⟩

end Lib.Decimal

end RaftLabs
