import Mathlib.Algebra.BigOperators.Group.Finset.Basic
import Mathlib.Algebra.Order.BigOperators.Group.Finset
import Mathlib.Data.Fintype.Card
import Mathlib.Tactic

/-!
# Balanced assignments

Items are assigned to the members of a set.  An assignment is balanced when no member has two items
more than another.  Then every member has the quotient of the two numbers, or one more, and the
remainder says how many have one more (`Balanced.size_eq`, `Balanced.card_large`).  A balanced
assignment can agree with a given one only so far: each member keeps at most the quotient, and at
most as many of them keep one more as the remainder allows (`Balanced.agree_le`).
-/

namespace RaftLabs.Lib.Balance

open Finset

variable {α G : Type*} [Fintype α] [DecidableEq α] [DecidableEq G]

/-- The number of items of a member. -/
def size (f : α → G) (g : G) : ℕ := #{a | f a = g}

/-- The number of items that two assignments give to the same member. -/
def agree (f f' : α → G) : ℕ := #{a | f a = f' a}

/-- Every item goes to a member, and no member has two items more than another. -/
structure Balanced (S : Finset G) (f : α → G) : Prop where
  mem : ∀ a, f a ∈ S
  even : ∀ g ∈ S, ∀ g' ∈ S, size f g ≤ size f g' + 1

variable {S : Finset G} {f own : α → G} {g : G} {x r : ℕ}

omit [DecidableEq α] in
lemma sum_size (h : ∀ a, f a ∈ S) : ∑ g ∈ S, size f g = Fintype.card α :=
  (card_eq_sum_card_fiberwise fun a _ => h a).symm

omit [DecidableEq G] in
/-- Numbers that are `x` or `x + 1`: the sum tells how many are the larger. -/
lemma sum_of_two {c : G → ℕ} (h : ∀ g ∈ S, c g = x ∨ c g = x + 1) :
    ∑ g ∈ S, c g = #S * x + #{g ∈ S | c g = x + 1} := by
  have hsplit : ∀ g ∈ S, c g = x + if c g = x + 1 then 1 else 0 := by
    intro g hg
    rcases h g hg with h | h <;> simp [h]
  rw [sum_congr rfl hsplit, sum_add_distrib, sum_const, smul_eq_mul, card_filter]

section Counting

variable {c c' : G → ℕ} (hne : ∀ b ≠ g, c' b = c b)

include hne

/-- One number changes, but not whether it is counted. -/
lemma card_filter_same (hg : c' g = x ↔ c g = x) : #{b ∈ S | c' b = x} = #{b ∈ S | c b = x} := by
  refine congrArg card (filter_congr fun b _ => ?_)
  by_cases hb : b = g
  · rw [hb]
    exact hg
  · rw [hne b hb]

/-- One number becomes what is counted. -/
lemma card_filter_reached (hmem : g ∈ S) (h : c g ≠ x) (h' : c' g = x) :
    #{b ∈ S | c' b = x} = #{b ∈ S | c b = x} + 1 := by
  have hset : ({b ∈ S | c' b = x} : Finset G) = insert g {b ∈ S | c b = x} := by
    ext b
    by_cases hb : b = g
    · subst hb
      simp [hmem, h']
    · simp [hb, hne b hb]
  rw [hset, card_insert_of_notMem (by simp [h])]

end Counting

namespace Balanced

omit [DecidableEq α] in
/-- A member has the quotient, or one more. -/
lemma size_eq (h : Balanced S f) (hg : g ∈ S) :
    size f g = Fintype.card α / #S ∨ size f g = Fintype.card α / #S + 1 := by
  have hpos : 0 < #S := card_pos.2 ⟨g, hg⟩
  have hsum := sum_size h.mem
  have hdiv := Nat.div_add_mod (Fintype.card α) #S
  have hmod := Nat.mod_lt (Fintype.card α) hpos
  set q := Fintype.card α / #S
  -- too few for one means at most the quotient for all, too many for one at least one more
  have hlow : q ≤ size f g := by
    by_contra hlt
    have hle : ∑ k ∈ S.erase g, size f k ≤ #(S.erase g) * q := by
      refine (sum_le_card_nsmul _ _ q fun k hk => ?_).trans_eq (by rw [smul_eq_mul])
      have := h.even k (mem_of_mem_erase hk) g hg
      omega
    have hall := add_sum_erase S (size f) hg
    rw [card_erase_of_mem hg, Nat.sub_mul, one_mul] at hle
    have : q ≤ #S * q := Nat.le_mul_of_pos_left q hpos
    omega
  have hhigh : size f g ≤ q + 1 := by
    by_contra hlt
    have hle : #(S.erase g) * (q + 1) ≤ ∑ k ∈ S.erase g, size f k := by
      refine Eq.trans_le (by rw [smul_eq_mul]) (card_nsmul_le_sum _ _ (q + 1) fun k hk => ?_)
      have := h.even g hg k (mem_of_mem_erase hk)
      omega
    have hall := add_sum_erase S (size f) hg
    rw [card_erase_of_mem hg, Nat.sub_mul, one_mul] at hle
    have : q + 1 ≤ #S * (q + 1) := Nat.le_mul_of_pos_left (q + 1) hpos
    have hexp : #S * (q + 1) = #S * q + #S := by ring
    omega
  omega

omit [DecidableEq α] in
/-- As many members have one more as the remainder says. -/
lemma card_large (h : Balanced S f) :
    #{g ∈ S | size f g = Fintype.card α / #S + 1} = Fintype.card α % #S := by
  have hsum := (sum_of_two fun g hg => h.size_eq hg).symm.trans (sum_size h.mem)
  have hdiv := Nat.div_add_mod (Fintype.card α) #S
  omega

omit [DecidableEq α] in
/-- **How far a balanced assignment can agree with another one.** -/
theorem agree_le (h : Balanced S f) (own : α → G) :
    agree f own ≤ ∑ g ∈ S, min (size own g) (Fintype.card α / #S) +
      min (Fintype.card α % #S) #{g ∈ S | Fintype.card α / #S < size own g} := by
  set q := Fintype.card α / #S
  have hfiber : agree f own = ∑ g ∈ S, #{a ∈ ({a | f a = own a} : Finset α) | f a = g} :=
    card_eq_sum_card_fiberwise fun a _ => h.mem a
  -- what a member keeps is bounded by what it had and by what it gets
  have hkeep : ∀ g ∈ S, #{a ∈ ({a | f a = own a} : Finset α) | f a = g} ≤
      min (size own g) q + if size f g = q + 1 ∧ q < size own g then 1 else 0 := by
    intro g hg
    have hown : #{a ∈ ({a | f a = own a} : Finset α) | f a = g} ≤ size own g := by
      refine card_le_card fun a ha => ?_
      simp only [mem_filter, mem_univ, true_and] at ha ⊢
      exact ha.1.symm.trans ha.2
    have hget : #{a ∈ ({a | f a = own a} : Finset α) | f a = g} ≤ size f g := by
      refine card_le_card fun a ha => ?_
      simp only [mem_filter, mem_univ, true_and] at ha ⊢
      exact ha.2
    rcases h.size_eq hg with hs | hs
    · split_ifs <;> omega
    · split_ifs with hlt
      · omega
      · have : ¬ q < size own g := fun hlt' => hlt ⟨hs, hlt'⟩
        omega
  have hextra : ∑ g ∈ S, (if size f g = q + 1 ∧ q < size own g then 1 else 0) ≤
      min (Fintype.card α % #S) #{g ∈ S | q < size own g} := by
    rw [← card_filter, le_min_iff]
    constructor
    · rw [← h.card_large]
      exact card_le_card fun g hg => by
        simp only [mem_filter] at hg ⊢
        exact ⟨hg.1, hg.2.1⟩
    · exact card_le_card fun g hg => by
        simp only [mem_filter] at hg ⊢
        exact ⟨hg.1, hg.2.2⟩
  calc agree f own
      ≤ ∑ g ∈ S, (min (size own g) q + if size f g = q + 1 ∧ q < size own g then 1 else 0) :=
        hfiber.trans_le (sum_le_sum hkeep)
    _ ≤ _ := by
        rw [sum_add_distrib]
        exact Nat.add_le_add_left hextra _

end Balanced

omit [DecidableEq α] in
/-- The items that agree and those that do not are all items. -/
lemma agree_add_differ (f own : α → G) : agree f own + #{a | f a ≠ own a} = Fintype.card α := by
  rw [agree, card_filter_add_card_filter_not, card_univ]

end RaftLabs.Lib.Balance
