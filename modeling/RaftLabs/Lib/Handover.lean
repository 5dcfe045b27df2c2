import Mathlib.Tactic

/-!
# Handing a resource over from epoch to epoch

In every epoch a resource belongs to one party, `owner n`.  The parties go through the epochs each
at its own pace, one epoch after the other, and know nothing of each other.  A party that goes from
an epoch in which it owns the resource to one in which it does not puts the resource aside; the
owner of the later epoch takes it from there, when it has got to that epoch itself.  The very first
owner has it without taking it.

Whoever has the resource, nobody else has it (`Inv.exclusive`), and a party that takes it takes it
from where it was last put aside (`Inv.frozen_of_receive`).  The resource passes through all epochs
in their order: `place` is where it is, and `number` the epoch it has got to.
-/

set_option linter.unusedSectionVars false

namespace RaftLabs.Lib.Handover

variable {G : Type*} [DecidableEq G]

/-- Where the resource is: nobody has had it yet, a party has it, or a party has put it aside at the
end of an epoch. -/
inductive Place (G : Type*)
  | fresh
  | held (g : G)
  | frozen (g : G) (n : ℕ)

/-- The epoch of every party, who has the resource, and where it is. -/
structure State (G : Type*) where
  epoch : G → ℕ
  holds : G → Prop
  place : Place G

namespace State

variable (st : State G)

/-- How far the resource has got. -/
def number : ℕ :=
  match st.place with
  | .fresh => 0
  | .held g => st.epoch g
  | .frozen _ n => n

/-- Party `g` goes to its next epoch. -/
def advance (owner : ℕ → G) (g : G) : State G where
  epoch := Function.update st.epoch g (st.epoch g + 1)
  holds := Function.update st.holds g
    (owner (st.epoch g + 1) = g ∧ (st.holds g ∨ st.epoch g = 0 ∧ owner 0 ≠ g))
  place :=
    if st.epoch g = 0 then
      if owner 0 ≠ g ∧ owner 1 = g then .held g else st.place
    else if owner (st.epoch g) = g ∧ owner (st.epoch g + 1) ≠ g then .frozen g (st.epoch g)
    else st.place

/-- Party `g` takes the resource. -/
def receive (g : G) : State G where
  epoch := st.epoch
  holds := Function.update st.holds g True
  place := .held g

end State

/-- Party `g` may leave its epoch: it does not own the resource there, or has it, or has owned it
from the start. -/
def MayAdvance (owner : ℕ → G) (st : State G) (g : G) : Prop :=
  1 ≤ st.epoch g → owner (st.epoch g) = g → st.holds g ∨ ∀ m ≤ st.epoch g, owner m = g

/-- Party `g` may take what the owner of epoch `n` has put aside. -/
structure MayReceive (owner : ℕ → G) (st : State G) (g : G) (n : ℕ) : Prop where
  pos : 1 ≤ n
  epoch : st.epoch g = n + 1
  next : owner (n + 1) = g
  other : owner n ≠ g
  left : n < st.epoch (owner n)
  missing : ¬ st.holds g

/-- What holds in every run. -/
structure Inv (owner : ℕ → G) (st : State G) : Prop where
  held : ∀ g, st.holds g ↔ st.place = .held g
  owns : ∀ g, st.holds g → 1 ≤ st.epoch g ∧ owner (st.epoch g) = g
  frozen : ∀ g n, st.place = .frozen g n →
    1 ≤ n ∧ owner n = g ∧ owner (n + 1) ≠ g ∧ n < st.epoch g
  /-- The resource has been with the owner of every epoch before. -/
  visited : ∀ n, 1 ≤ n → n ≤ st.number → n ≤ st.epoch (owner n)
  /-- It has not got to the epoch of a party that is waiting for it. -/
  awaited : ∀ g, 1 ≤ st.epoch g → owner (st.epoch g) = g → ¬ st.holds g → st.number < st.epoch g
  /-- It has got to the end of an epoch that its owner has left. -/
  passed : ∀ n, 1 ≤ n → n < st.epoch (owner n) → owner (n + 1) ≠ owner n →
    n ≤ st.number ∧ (st.number = n → st.place = .frozen (owner n) n)

variable {owner : ℕ → G} {st : State G} {g g' : G} {n : ℕ}

/-- Before anything has happened. -/
lemma inv_init : Inv owner ⟨fun _ => 0, fun _ => False, .fresh⟩ where
  held _ := ⟨False.elim, fun h => nomatch h⟩
  owns _ h := h.elim
  frozen _ _ h := nomatch h
  visited n h h' := absurd (h.trans h') (by simp [State.number])
  awaited _ h := absurd h (by simp)
  passed n _ h := absurd h (Nat.not_lt_zero n)

/-- **At most one party has the resource.** -/
theorem Inv.exclusive (hi : Inv owner st) (h : st.holds g) (h' : st.holds g') : g = g' :=
  (Place.held.inj (((hi.held g).1 h).symm.trans ((hi.held g').1 h')))

/-- **What a party takes is what was put aside last.** -/
theorem Inv.frozen_of_receive (hi : Inv owner st) (h : MayReceive owner st g n) :
    st.place = .frozen (owner n) n := by
  have hlt : st.number < n + 1 := by
    rw [← h.epoch]
    refine hi.awaited g (by rw [h.epoch]; omega) ?_ h.missing
    rw [h.epoch]
    exact h.next
  obtain ⟨hle, heq⟩ := hi.passed n h.pos h.left (by rw [h.next]; exact h.other.symm)
  exact heq (by omega)

/-- Nobody has had the resource when its first owner enters the first epoch. -/
lemma Inv.fresh_of_first (hi : Inv owner st) (h0 : st.epoch g = 0) (h1 : owner 1 = g) :
    st.place = .fresh := by
  have hnum : ¬ 1 ≤ st.number := by
    intro h
    have := hi.visited 1 le_rfl h
    rw [h1, h0] at this
    omega
  cases hp : st.place with
  | fresh => rfl
  | held k =>
    have := (hi.owns k ((hi.held k).2 hp)).1
    exact absurd this (by simpa [State.number, hp] using hnum)
  | frozen k n =>
    have := (hi.frozen k n hp).1
    exact absurd this (by simpa [State.number, hp] using hnum)

/-- Nobody has had the resource while a party owns it from the start without having it. -/
lemma Inv.fresh_of_idle (hi : Inv owner st) (h1 : 1 ≤ st.epoch g) (hg : ¬ st.holds g)
    (hall : ∀ m ≤ st.epoch g, owner m = g) : st.place = .fresh := by
  have hlt := hi.awaited g h1 (hall _ le_rfl) hg
  cases hp : st.place with
  | fresh => rfl
  | held k =>
    have hk := (hi.held k).2 hp
    have hle : st.epoch k ≤ st.epoch g := by
      have : st.number = st.epoch k := by simp [State.number, hp]
      omega
    have : k = g := (hi.owns k hk).2.symm.trans (hall _ hle)
    exact absurd (this ▸ hk) hg
  | frozen k n =>
    have hn : st.number = n := by simp [State.number, hp]
    obtain ⟨-, hk, hk', -⟩ := hi.frozen k n hp
    have h₁ : owner n = g := hall n (by omega)
    have h₂ : owner (n + 1) = g := hall (n + 1) (by omega)
    exact absurd (h₂.trans (h₁.symm.trans hk)) hk'

/-- **Taking the resource keeps the invariant.** -/
theorem Inv.receive (hi : Inv owner st) (h : MayReceive owner st g n) :
    Inv owner (st.receive g) := by
  have hp := hi.frozen_of_receive h
  have hnone : ∀ k, ¬ st.holds k := fun k hk => nomatch hp.symm.trans ((hi.held k).1 hk)
  have hnum : st.number = n := by simp [State.number, hp]
  have hnum' : (st.receive g).number = n + 1 := h.epoch
  have holds_of_ne : ∀ k, k ≠ g → ¬ (st.receive g).holds k := by
    intro k hk hh
    exact hnone k (by simpa [State.receive, hk] using hh)
  have holds_self : (st.receive g).holds g := by simp [State.receive]
  constructor
  · intro k
    by_cases hk : k = g
    · subst hk
      exact ⟨fun _ => rfl, fun _ => holds_self⟩
    · exact ⟨fun hh => absurd hh (holds_of_ne k hk), fun hh => absurd (Place.held.inj hh).symm hk⟩
  · intro k hk
    by_cases hkg : k = g
    · subst hkg
      show 1 ≤ st.epoch k ∧ owner (st.epoch k) = k
      rw [h.epoch]
      exact ⟨by omega, h.next⟩
    · exact absurd hk (holds_of_ne k hkg)
  · intro k m hk
    cases hk
  · intro m hm hle
    rw [hnum'] at hle
    rcases Nat.lt_or_ge n m with hlt | hge
    · obtain rfl : m = n + 1 := by omega
      show n + 1 ≤ st.epoch (owner (n + 1))
      rw [h.next, h.epoch]
    · exact hi.visited m hm (by omega)
  · intro k hk hown hh
    have hkg : k ≠ g := fun he => hh (he ▸ holds_self)
    have hlt := hi.awaited k hk hown (hnone k)
    rw [hnum']
    refine lt_of_le_of_ne (show n + 1 ≤ st.epoch k by omega) fun he => hkg ?_
    -- two owners of one epoch
    rw [← h.next, he]
    exact hown.symm
  · intro m hm hlt hne
    obtain ⟨hle, -⟩ := hi.passed m hm hlt hne
    rw [hnum']
    exact ⟨by omega, fun he => by omega⟩

section Advance

lemma epoch_advance_self : (st.advance owner g).epoch g = st.epoch g + 1 := by
  simp [State.advance]

lemma epoch_advance_ne (h : g' ≠ g) : (st.advance owner g).epoch g' = st.epoch g' := by
  simp [State.advance, h]

lemma epoch_le_advance (k : G) : st.epoch k ≤ (st.advance owner g).epoch k := by
  by_cases hk : k = g
  · subst hk
    rw [epoch_advance_self]
    exact Nat.le_succ _
  · rw [epoch_advance_ne hk]

lemma holds_advance_ne (h : g' ≠ g) : (st.advance owner g).holds g' ↔ st.holds g' := by
  simp [State.advance, h]

lemma holds_advance_self : (st.advance owner g).holds g ↔
    owner (st.epoch g + 1) = g ∧ (st.holds g ∨ st.epoch g = 0 ∧ owner 0 ≠ g) := by
  simp [State.advance]

/-- An epoch that a party has left after the step, it had left before, or it leaves it now. -/
lemma lt_epoch_advance {k : G} {m : ℕ} (h : m < (st.advance owner g).epoch k) :
    m < st.epoch k ∨ k = g ∧ m = st.epoch g := by
  by_cases hk : k = g
  · subst hk
    rw [epoch_advance_self] at h
    exact (Nat.lt_succ_iff_lt_or_eq.1 h).imp_right fun he => ⟨rfl, he⟩
  · rw [epoch_advance_ne hk] at h
    exact Or.inl h

/-- The first owner gets the resource. -/
lemma Inv.advance_first (hi : Inv owner st) (h0 : st.epoch g = 0) (hown : owner 0 ≠ g)
    (h1 : owner 1 = g) : Inv owner (st.advance owner g) := by
  have hp := hi.fresh_of_first h0 h1
  have hnum : st.number = 0 := by simp [State.number, hp]
  have hp' : (st.advance owner g).place = .held g := by simp [State.advance, h0, hown, h1]
  have hself : (st.advance owner g).epoch g = 1 := by rw [epoch_advance_self, h0]
  have hnum' : (st.advance owner g).number = 1 := by simp [State.number, hp', hself]
  have hnone : ∀ k, ¬ st.holds k := fun k hk => nomatch hp.symm.trans ((hi.held k).1 hk)
  have hholds : ∀ k, (st.advance owner g).holds k ↔ k = g := by
    intro k
    by_cases hk : k = g
    · subst hk
      exact ⟨fun _ => rfl, fun _ => holds_advance_self.2 ⟨by rw [h0]; exact h1, Or.inr ⟨h0, hown⟩⟩⟩
    · exact ⟨fun hh => absurd ((holds_advance_ne hk).1 hh) (hnone k), fun hh => absurd hh hk⟩
  constructor
  · intro k
    rw [hholds, hp']
    exact ⟨fun hk => hk ▸ rfl, fun hk => (Place.held.inj hk).symm⟩
  · intro k hk
    rw [(hholds k).1 hk, hself]
    exact ⟨le_rfl, h1⟩
  · intro k m hk
    rw [hp'] at hk
    cases hk
  · intro m hm hle
    rw [hnum'] at hle
    obtain rfl : m = 1 := by omega
    rw [h1, hself]
  · intro k hk hown' hh
    have hkg : k ≠ g := fun he => hh ((hholds k).2 he)
    rw [epoch_advance_ne hkg] at hk hown' ⊢
    rw [hnum']
    exact lt_of_le_of_ne hk fun he => hkg (by rw [← h1, he]; exact hown'.symm)
  · intro m hm hlt hne
    rcases lt_epoch_advance hlt with hlt | ⟨-, hm0⟩
    · have := (hi.passed m hm hlt hne).1
      omega
    · omega

/-- The owner of an epoch puts the resource aside. -/
lemma Inv.advance_lose (hi : Inv owner st) (hmay : MayAdvance owner st g) (h1 : 1 ≤ st.epoch g)
    (hown : owner (st.epoch g) = g) (hnext : owner (st.epoch g + 1) ≠ g) :
    Inv owner (st.advance owner g) := by
  have hp' : (st.advance owner g).place = .frozen g (st.epoch g) := by
    simp [State.advance, show st.epoch g ≠ 0 by omega, hown, hnext]
  have hnum' : (st.advance owner g).number = st.epoch g := by simp [State.number, hp']
  -- it has the resource, or nobody has had it
  have hplace : st.place = .held g ∨ st.place = .fresh ∧ ∀ m ≤ st.epoch g, owner m = g := by
    by_cases hh : st.holds g
    · exact Or.inl ((hi.held g).1 hh)
    · have hall := (hmay h1 hown).resolve_left hh
      exact Or.inr ⟨hi.fresh_of_idle h1 hh hall, hall⟩
  have hnone : ∀ k, k ≠ g → ¬ st.holds k := by
    intro k hk hh
    have := (hi.held k).1 hh
    rcases hplace with hp | ⟨hp, -⟩
    · exact hk (Place.held.inj (this.symm.trans hp))
    · exact nomatch this.symm.trans hp
  have hle : st.number ≤ st.epoch g := by
    rcases hplace with hp | ⟨hp, -⟩ <;> simp [State.number, hp]
  have hnot : ∀ k, ¬ (st.advance owner g).holds k := by
    intro k hh
    by_cases hk : k = g
    · subst hk
      exact hnext (holds_advance_self.1 hh).1
    · exact hnone k hk ((holds_advance_ne hk).1 hh)
  constructor
  · intro k
    rw [hp']
    exact ⟨fun hh => absurd hh (hnot k), fun hh => nomatch hh⟩
  · intro k hk
    exact absurd hk (hnot k)
  · intro k m hk
    rw [hp'] at hk
    obtain ⟨rfl, rfl⟩ := Place.frozen.inj hk
    rw [epoch_advance_self]
    exact ⟨h1, hown, hnext, Nat.lt_succ_self _⟩
  · intro m hm hle
    rw [hnum'] at hle
    rcases hplace with hp | ⟨-, hall⟩
    · exact (hi.visited m hm (by simpa [State.number, hp] using hle)).trans (epoch_le_advance _)
    · rw [hall m hle, epoch_advance_self]
      omega
  · intro k hk hown' _
    rw [hnum']
    by_cases hkg : k = g
    · rw [hkg, epoch_advance_self]
      exact Nat.lt_succ_self _
    · rw [epoch_advance_ne hkg] at hk hown' ⊢
      rcases hplace with hp | ⟨-, hall⟩
      · simpa [State.number, hp] using hi.awaited k hk hown' (hnone k hkg)
      · by_contra hle
        exact hkg (hown'.symm.trans (hall _ (not_lt.1 hle)))
  · intro m hm hlt hne
    rw [hnum', hp']
    rcases lt_epoch_advance hlt with hlt | ⟨hk, rfl⟩
    · refine ⟨(hi.passed m hm hlt hne).1.trans hle, fun he => ?_⟩
      rw [← he, hown]
    · exact ⟨le_rfl, fun _ => by rw [hk]⟩

/-- Any other step of a party leaves the resource where it is. -/
lemma Inv.advance_keep (hi : Inv owner st) (hfirst : ¬ (st.epoch g = 0 ∧ owner 0 ≠ g ∧ owner 1 = g))
    (hlose : ¬ (1 ≤ st.epoch g ∧ owner (st.epoch g) = g ∧ owner (st.epoch g + 1) ≠ g)) :
    Inv owner (st.advance owner g) := by
  have hp' : (st.advance owner g).place = st.place := by
    by_cases h0 : st.epoch g = 0
    · simp only [State.advance, h0, if_true]
      exact if_neg fun h => hfirst ⟨h0, h⟩
    · simp only [State.advance, h0, if_false]
      exact if_neg fun h => hlose ⟨Nat.pos_of_ne_zero h0, h⟩
  have hnext : st.holds g → owner (st.epoch g + 1) = g := by
    intro hh
    obtain ⟨h1, hown⟩ := hi.owns g hh
    by_contra hne
    exact hlose ⟨h1, hown, hne⟩
  have hholds : ∀ k, (st.advance owner g).holds k ↔ st.holds k := by
    intro k
    by_cases hk : k = g
    · subst hk
      rw [holds_advance_self]
      constructor
      · rintro ⟨h1, hh | ⟨h0, hne⟩⟩
        · exact hh
        · exact absurd ⟨h0, hne, by rw [h0] at h1; exact h1⟩ hfirst
      · exact fun hh => ⟨hnext hh, Or.inl hh⟩
    · exact holds_advance_ne hk
  have hnum : st.number ≤ (st.advance owner g).number ∧
      ((st.advance owner g).number = st.number ∨
        st.holds g ∧ st.number = st.epoch g ∧ (st.advance owner g).number = st.epoch g + 1) := by
    cases hp : st.place with
    | fresh => simp [State.number, hp, hp']
    | held k =>
      by_cases hk : k = g
      · subst hk
        simp [State.number, hp, hp', epoch_advance_self, (hi.held k).2 hp]
      · simp [State.number, hp, hp', epoch_advance_ne hk]
    | frozen k m => simp [State.number, hp, hp']
  constructor
  · intro k
    rw [hholds, hp']
    exact hi.held k
  · intro k hk
    have hk' := (hholds k).1 hk
    by_cases hkg : k = g
    · subst hkg
      rw [epoch_advance_self]
      exact ⟨by omega, hnext hk'⟩
    · rw [epoch_advance_ne hkg]
      exact hi.owns k hk'
  · intro k m hk
    rw [hp'] at hk
    obtain ⟨h₁, h₂, h₃, h₄⟩ := hi.frozen k m hk
    exact ⟨h₁, h₂, h₃, h₄.trans_le (epoch_le_advance k)⟩
  · intro m hm hle
    obtain heq | ⟨hh, heq, heq'⟩ := hnum.2
    · rw [heq] at hle
      exact (hi.visited m hm hle).trans (epoch_le_advance _)
    · rw [heq'] at hle
      rcases Nat.lt_or_ge (st.epoch g) m with hlt | hge
      · obtain rfl : m = st.epoch g + 1 := by omega
        rw [hnext hh, epoch_advance_self]
      · exact (hi.visited m hm (by omega)).trans (epoch_le_advance _)
  · intro k hk hown hh
    rw [hholds] at hh
    by_cases hkg : k = g
    · subst hkg
      rw [epoch_advance_self] at hown ⊢
      obtain heq | ⟨hh', -⟩ := hnum.2
      · rw [heq]
        by_contra hle
        have := hi.visited (st.epoch k + 1) (by omega) (not_lt.1 hle)
        rw [hown] at this
        omega
      · exact absurd hh' hh
    · rw [epoch_advance_ne hkg] at hk hown ⊢
      have hlt := hi.awaited k hk hown hh
      obtain heq | ⟨hh', heq, heq'⟩ := hnum.2
      · rw [heq]
        exact hlt
      · rw [heq']
        refine lt_of_le_of_ne (by omega) fun he => hkg ?_
        rw [← he, hnext hh'] at hown
        exact hown.symm
  · intro m hm hlt hne
    have hlt' : m < st.epoch (owner m) := by
      rcases lt_epoch_advance hlt with hlt | ⟨hk, rfl⟩
      · exact hlt
      · exact absurd ⟨hm, hk, by rw [hk] at hne; exact hne⟩ hlose
    obtain ⟨hle, hfro⟩ := hi.passed m hm hlt' hne
    refine ⟨hle.trans hnum.1, fun he => ?_⟩
    rw [hp']
    obtain heq | ⟨-, heq, heq'⟩ := hnum.2
    · exact hfro (heq ▸ he)
    · omega

/-- **Going to the next epoch keeps the invariant.** -/
theorem Inv.advance (hi : Inv owner st) (h : MayAdvance owner st g) :
    Inv owner (st.advance owner g) := by
  by_cases hfirst : st.epoch g = 0 ∧ owner 0 ≠ g ∧ owner 1 = g
  · exact hi.advance_first hfirst.1 hfirst.2.1 hfirst.2.2
  · by_cases hlose : 1 ≤ st.epoch g ∧ owner (st.epoch g) = g ∧ owner (st.epoch g + 1) ≠ g
    · exact hi.advance_lose h hlose.1 hlose.2.1 hlose.2.2
    · exact hi.advance_keep hfirst hlose

end Advance

end RaftLabs.Lib.Handover
