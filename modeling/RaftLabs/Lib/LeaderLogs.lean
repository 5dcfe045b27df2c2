import Mathlib.Data.Fintype.Card
import Mathlib.Tactic

/-!
# Leader completeness, on what a run has recorded

The safety argument of a leader-based replicated log, with the protocol taken out.  A `Ledger` is
what a run has recorded so far: the logs the leader of each term has had, and the logs the
acceptors have acknowledged to the leader of a term.  `Ledger.Lawful` is what a protocol has to
guarantee about these records, and from it follow

* `Ledger.Lawful.completeness`: a log acknowledged by a majority in the term of its last entry is
  part of every log of every later leader;
* `Ledger.Lawful.committed_comparable`: any two such logs agree, one being a piece of the other;
* `Ledger.Lawful.safe_leaderLog`: what is known to be committed never contradicts a leader's log.

The last part is about an acceptor that adopts a leader's log (`Adopts`): it loses nothing that is
known to be committed, and what it loses of its acknowledgements the leader did not have.

Entries are of any type with a term; a log is a list of entries, and index `i` of the log is
position `i - 1` of the list.
-/

namespace RaftLabs.Lib

/-! ### Majorities -/

section Majority

variable {V : Type*} [Fintype V]

/-- More than half of the acceptors. -/
def Majority (Q : Finset V) : Prop := Fintype.card V < 2 * Q.card

/-- Two majorities have a common member. -/
theorem Majority.meet [DecidableEq V] {Q Q' : Finset V} (h : Majority Q) (h' : Majority Q') :
    ∃ v, v ∈ Q ∧ v ∈ Q' := by
  have hc : (Finset.univ : Finset V).card < Q.card + Q'.card := by
    unfold Majority at h h'
    rw [Finset.card_univ]
    omega
  obtain ⟨v, hv⟩ := Finset.inter_nonempty_of_card_lt_card_add_card
    (Finset.subset_univ Q) (Finset.subset_univ Q') hc
  exact ⟨v, Finset.mem_inter.1 hv⟩

end Majority

/-! ### Logs -/

section Logs

variable {A : Type*} (term : A → ℕ)

/-- The term of the last entry, `0` for the empty log. -/
def lastTerm (l : List A) : ℕ := (l.getLast?.map term).getD 0

/-- `l` is at least as up to date as `l'`: a later last term, or the same and no shorter. -/
def UpToDate (l l' : List A) : Prop :=
  lastTerm term l' < lastTerm term l ∨
    (lastTerm term l = lastTerm term l' ∧ l'.length ≤ l.length)

@[simp] lemma lastTerm_nil : lastTerm term [] = 0 := rfl

@[simp] lemma lastTerm_concat (l : List A) (a : A) : lastTerm term (l ++ [a]) = term a := by
  simp [lastTerm]

lemma lastTerm_take {l : List A} {k : ℕ} {x : A} (hk : 0 < k) (h : l[k - 1]? = some x) :
    lastTerm term (l.take k) = term x := by
  unfold lastTerm
  rw [List.getLast?_take, if_neg (by omega), h]
  simp

lemma ne_nil_of_lastTerm_pos {l : List A} (h : 0 < lastTerm term l) : l ≠ [] := by
  rintro rfl
  simp at h

end Logs

/-! ### What a run records -/

/-- The records of a run: the logs of the leader of each term, and the logs acknowledged to it. -/
structure Ledger (V A : Type*) where
  leaderLog : ℕ → List A → Prop
  ack : V → ℕ → List A → Prop

namespace Ledger

variable {V A : Type*} {term : A → ℕ} (L : Ledger V A)

/-- `v` acknowledged, in term `t`, a log that begins with `c`. -/
def Acked (v : V) (t : ℕ) (c : List A) : Prop := ∃ a, L.ack v t a ∧ c <+: a

/-- Where the log `l` of a voter of term `t` stands: what the voter had acknowledged before is
still there, unless a leader in between did not have it. -/
def Attributed (v : V) (t : ℕ) (l : List A) : Prop :=
  ∀ u c, u < t → L.Acked v u c →
    c <+: l ∨ ∃ w m, u < w ∧ w < t ∧ L.leaderLog w m ∧ ¬ c <+: m

/-- Every piece of `l` was, at one time, the whole log of the leader of its last term. -/
def Genuine (term : A → ℕ) (l : List A) : Prop :=
  ∀ p, p <+: l → p ≠ [] → L.leaderLog (lastTerm term p) p

/-- `c` is acknowledged by a majority in the term of its last entry. -/
structure Committed [Fintype V] (term : A → ℕ) (t : ℕ) (c : List A) : Prop where
  ne_nil : c ≠ []
  last : lastTerm term c = t
  leader : ∃ l, L.leaderLog t l ∧ c <+: l
  acked : ∃ Q : Finset V, Majority Q ∧ ∀ v ∈ Q, L.Acked v t c

/-- `q` is a piece of a log committed in a term up to `t`. -/
def Safe [Fintype V] (term : A → ℕ) (t : ℕ) (q : List A) : Prop :=
  q = [] ∨ ∃ u c, u ≤ t ∧ L.Committed term u c ∧ q <+: c

/-- What a protocol guarantees about its records. -/
structure Lawful [Fintype V] (term : A → ℕ) : Prop where
  /-- The logs of one leader are pieces of one another. -/
  chain : ∀ {t l l'}, L.leaderLog t l → L.leaderLog t l' → l <+: l' ∨ l' <+: l
  /-- Every entry was created by the leader of its term, on top of what precedes it. -/
  genuine : ∀ {t l}, L.leaderLog t l → L.Genuine term l
  /-- No entry is from the future. -/
  bound : ∀ {t l p}, L.leaderLog t l → p <+: l → lastTerm term p ≤ t
  /-- A leader was elected by a majority, none of which had a more up-to-date log. -/
  election : ∀ {t l}, L.leaderLog t l → ∃ e, e <+: l ∧ L.leaderLog t e ∧ lastTerm term e < t ∧
    ∃ Q : Finset V, Majority Q ∧
      ∀ v ∈ Q, ∃ lv, L.Genuine term lv ∧ UpToDate term e lv ∧ L.Attributed v t lv

variable {L} [Fintype V]

/-! ### Leader completeness -/

/-- A log at least as up to date as a genuine one that begins with `c` begins with `c` too, provided
the leaders of the terms between do. -/
lemma Lawful.upToDate_carries (hL : L.Lawful term) {t t' : ℕ} {c e lv : List A} (hc : c ≠ [])
    (ht : lastTerm term c = t) (he : L.leaderLog t' e) (het : lastTerm term e < t')
    (hg : L.Genuine term lv) (hup : UpToDate term e lv) (hcv : c <+: lv)
    (ih : ∀ w m, t < w → w < t' → L.leaderLog w m → c <+: m) : c <+: e := by
  have hlv : lv ≠ [] := by
    rintro rfl
    exact hc (List.prefix_nil.1 hcv)
  have hlv' := hg lv (List.prefix_refl _) hlv
  have htv : t ≤ lastTerm term lv := ht ▸ hL.bound hlv' hcv
  rcases hup with hlt | ⟨heq, hlen⟩
  · -- the last entry of `e` is of a term strictly between: its leader already had `c`
    have hne : e ≠ [] := ne_nil_of_lastTerm_pos term (by omega)
    exact ih _ e (by omega) het (hL.genuine he e (List.prefix_refl _) hne)
  · -- both logs end with entries of the same leader, so the longer one contains the shorter
    have hne : e ≠ [] := by
      rintro rfl
      exact hlv (List.length_eq_zero_iff.1 (by simpa using hlen))
    have he' := hL.genuine he e (List.prefix_refl _) hne
    rw [heq] at he'
    rcases hL.chain hlv' he' with h | h
    · exact hcv.trans h
    · exact hcv.trans (h.eq_of_length (le_antisymm h.length_le hlen) ▸ List.prefix_refl _)

/-- **Leader completeness.**  What a majority acknowledged in the term of its last entry is part of
every log of every later leader. -/
theorem Lawful.completeness [DecidableEq V] (hL : L.Lawful term) {t : ℕ} {c : List A}
    (hc : L.Committed term t c) : ∀ t' l, t < t' → L.leaderLog t' l → c <+: l := by
  obtain ⟨Q, hQ, hack⟩ := hc.acked
  intro t'
  -- strong induction on the term of the later leader
  induction t' using Nat.strong_induction_on with
  | _ t' ih =>
    intro l htt hl
    obtain ⟨e, hel, he, het, Q', hQ', hvote⟩ := hL.election hl
    obtain ⟨v, hvQ, hvQ'⟩ := hQ.meet hQ'
    obtain ⟨lv, hg, hup, hattr⟩ := hvote v hvQ'
    have hcv : c <+: lv := by
      rcases hattr t c htt (hack v hvQ) with h | ⟨w, m, htw, hwt, hm, hnot⟩
      · exact h
      · exact absurd (ih w hwt m htw hm) hnot
    exact (hL.upToDate_carries hc.ne_nil hc.last he het hg hup hcv
      fun w m h₁ h₂ h₃ => ih w h₂ m h₁ h₃).trans hel

/-- Committed logs agree. -/
theorem Lawful.committed_comparable [DecidableEq V] (hL : L.Lawful term) {t t' : ℕ} {c c' : List A}
    (hc : L.Committed term t c) (hc' : L.Committed term t' c') : c <+: c' ∨ c' <+: c := by
  have hlt : ∀ {t t' : ℕ} {c c' : List A}, L.Committed term t c → L.Committed term t' c' → t < t' →
      c <+: c' := by
    intro t t' c c' hc hc' htt
    have h' := hL.genuine hc'.leader.choose_spec.1 c' hc'.leader.choose_spec.2 hc'.ne_nil
    rw [hc'.last] at h'
    exact hL.completeness hc t' c' htt h'
  rcases lt_trichotomy t t' with h | rfl | h
  · exact Or.inl (hlt hc hc' h)
  · obtain ⟨l, hl, hcl⟩ := hc.leader
    obtain ⟨l', hl', hcl'⟩ := hc'.leader
    rcases hL.chain hl hl' with h | h
    · exact List.prefix_or_prefix_of_prefix (hcl.trans h) hcl'
    · exact List.prefix_or_prefix_of_prefix hcl (hcl'.trans h)
  · exact Or.inr (hlt hc' hc h)

/-! ### What is known to be committed -/

lemma Safe.mono {t t' : ℕ} {q : List A} (h : L.Safe term t q) (htt : t ≤ t') :
    L.Safe term t' q := by
  rcases h with rfl | ⟨u, c, hu, hc, hq⟩
  · exact Or.inl rfl
  · exact Or.inr ⟨u, c, hu.trans htt, hc, hq⟩

lemma Safe.piece {t : ℕ} {q q' : List A} (h : L.Safe term t q) (hq : q' <+: q) :
    L.Safe term t q' := by
  rcases h with rfl | ⟨u, c, hu, hc, hqc⟩
  · exact Or.inl (List.prefix_nil.1 hq)
  · exact Or.inr ⟨u, c, hu, hc, hq.trans hqc⟩

/-- What is known to be committed in the terms up to `t` does not contradict the leader of `t`. -/
theorem Lawful.safe_leaderLog [DecidableEq V] (hL : L.Lawful term) {t : ℕ} {q l : List A}
    (hq : L.Safe term t q) (hl : L.leaderLog t l) : q <+: l ∨ l <+: q := by
  rcases hq with rfl | ⟨u, c, hu, hc, hqc⟩
  · exact Or.inl (List.nil_prefix)
  · rcases Nat.lt_or_eq_of_le hu with h | rfl
    · exact Or.inl (hqc.trans (hL.completeness hc t l h hl))
    · obtain ⟨l', hl', hcl'⟩ := hc.leader
      rcases hL.chain hl' hl with h | h
      · exact Or.inl (hqc.trans (hcl'.trans h))
      · exact List.prefix_or_prefix_of_prefix (hqc.trans hcl') h

/-- Two logs known to be committed agree. -/
theorem Lawful.safe_comparable [DecidableEq V] (hL : L.Lawful term) {t t' : ℕ} {q q' : List A}
    (hq : L.Safe term t q) (hq' : L.Safe term t' q') : q <+: q' ∨ q' <+: q := by
  rcases hq with rfl | ⟨u, c, -, hc, hqc⟩
  · exact Or.inl List.nil_prefix
  · rcases hq' with rfl | ⟨u', c', -, hc', hqc'⟩
    · exact Or.inr List.nil_prefix
    · rcases hL.committed_comparable hc hc' with h | h
      · exact List.prefix_or_prefix_of_prefix (hqc.trans h) hqc'
      · exact List.prefix_or_prefix_of_prefix hqc (hqc'.trans h)

/-! ### Records that grow -/

/-- `L'` has recorded everything that `L` has. -/
structure Le (L L' : Ledger V A) : Prop where
  leaderLog : ∀ {t l}, L.leaderLog t l → L'.leaderLog t l
  ack : ∀ {v t a}, L.ack v t a → L'.ack v t a

section Le

variable {L' : Ledger V A} {t : ℕ} {l q : List A}

omit [Fintype V] in
lemma Acked.le {v : V} (h : L.Acked v t l) (hle : Le L L') : L'.Acked v t l := by
  obtain ⟨a, ha, hl⟩ := h
  exact ⟨a, hle.ack ha, hl⟩

omit [Fintype V] in
lemma Genuine.le (h : L.Genuine term l) (hle : Le L L') : L'.Genuine term l :=
  fun p hp hne => hle.leaderLog (h p hp hne)

omit [Fintype V] in
lemma Genuine.piece (h : L.Genuine term l) (hq : q <+: l) : L.Genuine term q :=
  fun p hp hne => h p (hp.trans hq) hne

lemma Committed.le (h : L.Committed term t l) (hle : Le L L') : L'.Committed term t l := by
  obtain ⟨m, hm, hlm⟩ := h.leader
  obtain ⟨Q, hQ, hack⟩ := h.acked
  exact ⟨h.ne_nil, h.last, ⟨m, hle.leaderLog hm, hlm⟩, Q, hQ, fun v hv => (hack v hv).le hle⟩

lemma Safe.le (h : L.Safe term t q) (hle : Le L L') : L'.Safe term t q := by
  rcases h with rfl | ⟨u, c, hu, hc, hq⟩
  · exact Or.inl rfl
  · exact Or.inr ⟨u, c, hu, hc.le hle, hq⟩

end Le

/-! ### Log matching -/

/-- Genuine logs with the same last term at the same length are the same up to there. -/
lemma Lawful.take_eq (hL : L.Lawful term) {l m : List A} {k : ℕ} (hl : L.Genuine term l)
    (hm : L.Genuine term m) (hkl : k ≤ l.length) (hkm : k ≤ m.length)
    (ht : lastTerm term (l.take k) = lastTerm term (m.take k)) : l.take k = m.take k := by
  have hlen : (l.take k).length = (m.take k).length := by
    rw [List.length_take, List.length_take, min_eq_left hkl, min_eq_left hkm]
  by_cases hk : l.take k = []
  · rw [hk] at hlen ⊢
    exact (List.length_eq_zero_iff.1 hlen.symm).symm
  · have hk' : m.take k ≠ [] := by
      intro h0
      rw [h0] at hlen
      exact hk (List.length_eq_zero_iff.1 hlen)
    have h₁ := hl _ (List.take_prefix k l) hk
    have h₂ := hm _ (List.take_prefix k m) hk'
    rw [ht] at h₁
    rcases hL.chain h₁ h₂ with h | h
    · exact h.eq_of_length hlen
    · exact (h.eq_of_length hlen.symm).symm

/-- The terms along a genuine log do not decrease. -/
lemma Lawful.lastTerm_mono (hL : L.Lawful term) {l : List A} (hl : L.Genuine term l) {a b : ℕ}
    (hab : a ≤ b) : lastTerm term (l.take a) ≤ lastTerm term (l.take b) := by
  have hpre : l.take a <+: l.take b := List.take_prefix_take_left hab
  by_cases hb : l.take b = []
  · rw [hb, List.prefix_nil] at hpre
    rw [hpre, hb]
  · exact hL.bound (hl _ (List.take_prefix _ _) hb) hpre

/-! ### Adopting a leader's log -/

/-- A log `l` becomes `l'` by adopting `q`: it stays if it contains `q`, and else is replaced. -/
def Adopts (l l' q : List A) : Prop := (q <+: l ∧ l' = l) ∨ (¬ q <+: l ∧ l' = q)

omit [Fintype V] in
lemma Adopts.contains {l l' q : List A} (h : Adopts l l' q) : q <+: l' := by
  rcases h with ⟨hq, rfl⟩ | ⟨-, rfl⟩
  · exact hq
  · exact List.prefix_refl _

/-- Two pieces of one log, the second of which is no piece of `l`, while the first is. -/
lemma prefix_of_not_contained {c q l m : List A} (hc : c <+: m) (hq : q <+: m) (hcl : c <+: l)
    (hql : ¬ q <+: l) : c <+: q := by
  rcases List.prefix_or_prefix_of_prefix hc hq with h | h
  · exact h
  · exact absurd (h.trans hcl) hql

/-- What is known to be committed survives. -/
theorem Lawful.adopt_safe [DecidableEq V] (hL : L.Lawful term) {t : ℕ} {l l' q m p : List A}
    (h : Adopts l l' q) (hq : q <+: m) (hm : L.leaderLog t m) (hp : p <+: l)
    (hs : L.Safe term t p) : p <+: l' := by
  rcases h with ⟨-, rfl⟩ | ⟨hnot, rfl⟩
  · exact hp
  · rcases hL.safe_leaderLog hs hm with h | h
    · exact prefix_of_not_contained h hq hp hnot
    · exact absurd ((hq.trans h).trans hp) hnot

/-- What was acknowledged to a leader up to this one survives, or this leader is a later one and
does not have it. -/
theorem Lawful.adopt_acked (hL : L.Lawful term) {t u : ℕ} {l l' q m m' c : List A}
    (h : Adopts l l' q) (hq : q <+: m) (hm : L.leaderLog t m) (hut : u ≤ t) (hc : c <+: l)
    (hm' : L.leaderLog u m') (hcm : c <+: m') : c <+: l' ∨ (u < t ∧ ¬ c <+: m) := by
  rcases h with ⟨-, rfl⟩ | ⟨hnot, rfl⟩
  · exact Or.inl hc
  · by_cases hcm' : c <+: m
    · exact Or.inl (prefix_of_not_contained hcm' hq hc hnot)
    · rcases Nat.lt_or_eq_of_le hut with hlt | rfl
      · exact Or.inr ⟨hlt, hcm'⟩
      · rcases hL.chain hm hm' with h | h
        · exact Or.inl (prefix_of_not_contained hcm (hq.trans h) hc hnot)
        · exact absurd (hcm.trans h) hcm'

/-- Overwriting a log from index `k` on with the rest of a leader's log, and keeping what follows
unless there is a conflict, adopts the leader's log. -/
theorem Lawful.splice_adopts (hL : L.Lawful term) {l m r : List A} {k : ℕ} (hl : L.Genuine term l)
    (hm : L.Genuine term m) (hkl : k ≤ l.length) (hkm : k ≤ m.length)
    (ht : lastTerm term (l.take k) = lastTerm term (m.take k))
    (h : ((∀ (j : ℕ) (x e : A), k ≤ j → l[j]? = some x → m[j]? = some e → term x = term e) ∧
        r = l.take k ++ m.drop k ++ l.drop m.length) ∨
      ((∃ (j : ℕ) (x e : A), l[j]? = some x ∧ m[j]? = some e ∧ term x ≠ term e) ∧
        r = l.take k ++ m.drop k)) : Adopts l r m := by
  have hk := hL.take_eq hl hm hkl hkm ht
  have hjoin : l.take k ++ m.drop k = m := by rw [hk, List.take_append_drop]
  rcases h with ⟨hagree, rfl⟩ | ⟨⟨j, x, e, hx, he, hne⟩, rfl⟩
  · rw [hjoin]
    rcases Nat.lt_or_ge l.length m.length with hlt | hge
    · -- the leader's log is longer
      right
      refine ⟨fun h => absurd h.length_le (not_le.2 hlt), ?_⟩
      rw [List.drop_eq_nil_of_le hlt.le, List.append_nil]
    · left
      -- the last terms agree, so the log contains the leader's
      have hlast : lastTerm term (l.take m.length) = lastTerm term (m.take m.length) := by
        rcases Nat.lt_or_eq_of_le hkm with hlt | heq
        · have hx : l[m.length - 1]? = some l[m.length - 1] :=
            List.getElem?_eq_getElem (by omega)
          have he : m[m.length - 1]? = some m[m.length - 1] :=
            List.getElem?_eq_getElem (by omega)
          rw [lastTerm_take term (by omega) hx, lastTerm_take term (by omega) he]
          exact hagree _ _ _ (by omega) hx he
        · rw [← heq]
          exact ht
      have heq := hL.take_eq hl hm hge le_rfl hlast
      rw [List.take_length] at heq
      have hpre : m <+: l := heq ▸ List.take_prefix _ _
      refine ⟨hpre, ?_⟩
      obtain ⟨rest, rfl⟩ := hpre
      rw [List.drop_left]
  · rw [hjoin]
    refine Or.inr ⟨fun hpre => ?_, rfl⟩
    obtain ⟨rest, rfl⟩ := hpre
    rw [List.getElem?_append_left (List.getElem?_eq_some_iff.1 he).1, he] at hx
    cases hx
    exact hne rfl

end Ledger

end RaftLabs.Lib
