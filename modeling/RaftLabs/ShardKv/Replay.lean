import RaftLabs.ShardKv.Group

/-!
# The states along a log

A log is `Lawful` when every command may stand where it stands.  The states after its prefixes are
then in order (`Lawful.books`), and they only go forward (`Lawful.later`): the number of the
configuration grows, within a configuration shards arrive and requests are settled, and the table of
last operations never goes back.  What a group has set aside for a shard is, until it is released,
exactly what it had when it left the configuration (`Lawful.setAside`, `Lawful.kept_or_collected`).
-/

namespace RaftLabs.ShardKv

open Lib Ctrler ShardKV

variable {H : History} {gid : Gid} {kv kv' kv'' : ShardKV} {log before : List Command}
  {command : Command}

@[simp] lemma replay_nil : replay gid [] = ShardKV.init gid := rfl

@[simp] lemma replay_concat (log : List Command) (command : Command) :
    replay gid (log ++ [command]) = ((replay gid log).exec command).1 := by
  simp [replay]

lemma replay_lastApplied (gid : Gid) (log : List Command) :
    (replay gid log).lastApplied = log.length := by
  induction log using List.reverseRecOn with
  | nil => rfl
  | append_singleton log command ih => rw [replay_concat, exec_lastApplied, ih]; simp

/-- A list and one element more, as an initial part of a list that has grown by one. -/
lemma concat_isPrefix_concat {α : Type*} {l m : List α} {a b : α} (h : l ++ [a] <+: m ++ [b]) :
    l ++ [a] <+: m ∨ l = m ∧ a = b := by
  rcases List.prefix_concat_iff.1 h with h | h
  · exact Or.inr (by simpa using List.append_inj' h rfl)
  · exact Or.inl h

/-- Every command may stand where it stands. -/
def Lawful (H : History) (gid : Gid) (log : List Command) : Prop :=
  ∀ before command, before ++ [command] <+: log → Legit H gid (replay gid before) command

lemma lawful_nil : Lawful H gid [] := fun before command h => by
  simp at h

lemma Lawful.mono (h : Lawful H gid log) (hb : before <+: log) : Lawful H gid before :=
  fun b c hbc => h b c (hbc.trans hb)

lemma Lawful.concat (h : Lawful H gid log) (hc : Legit H gid (replay gid log) command) :
    Lawful H gid (log ++ [command]) := by
  intro b c hbc
  rcases concat_isPrefix_concat hbc with hbc | ⟨rfl, rfl⟩
  · exact h b c hbc
  · exact hc

lemma Lawful.front (h : Lawful H gid (log ++ [command])) : Lawful H gid log :=
  h.mono (List.prefix_append log [command])

lemma Lawful.last (h : Lawful H gid (log ++ [command])) : Legit H gid (replay gid log) command :=
  h log command List.prefix_rfl

/-- **The books are in order** after every lawful log. -/
theorem Lawful.books (h : Lawful H gid log) : (replay gid log).Local H gid := by
  induction log using List.reverseRecOn with
  | nil => exact local_init H gid
  | append_singleton log command ih =>
    rw [replay_concat]
    exact (ih h.front).exec h.last

/-- What the last command of a lawful log has done. -/
lemma Lawful.change (h : Lawful H gid (log ++ [command])) :
    Change H gid (replay gid log) command (replay gid (log ++ [command])) := by
  rw [replay_concat]
  exact h.front.books.change h.last

/-! ### Forward -/

/-- The second state may come later in a log than the first. -/
structure Later (kv kv' : ShardKV) : Prop where
  num : kv.config.num ≤ kv'.config.num
  served : kv.config.num = kv'.config.num → kv.myShards ⊆ kv'.myShards
  settled : kv.config.num = kv'.config.num → ∀ i, kv.shardDataReqs i = none →
    kv'.shardDataReqs i = none
  calls : ∀ c v, kv.lastOp c = some v → ∃ v', kv'.lastOp c = some v' ∧ v.callId ≤ v'.callId

lemma Later.refl (kv : ShardKV) : Later kv kv :=
  ⟨le_rfl, fun _ => Finset.Subset.refl _, fun _ _ h => h, fun _ v h => ⟨v, h, le_rfl⟩⟩

lemma Later.trans (h : Later kv kv') (h' : Later kv' kv'') : Later kv kv'' := by
  have hnum : kv.config.num = kv''.config.num →
      kv.config.num = kv'.config.num ∧ kv'.config.num = kv''.config.num := by
    have := h.num
    have := h'.num
    omega
  refine ⟨h.num.trans h'.num, fun he => ?_, fun he i hi => ?_, fun c v hv => ?_⟩
  · exact (h.served (hnum he).1).trans (h'.served (hnum he).2)
  · exact h'.settled (hnum he).2 i (h.settled (hnum he).1 i hi)
  · obtain ⟨v', hv', hle⟩ := h.calls c v hv
    obtain ⟨v'', hv'', hle'⟩ := h'.calls c v' hv'
    exact ⟨v'', hv'', hle.trans hle'⟩

/-- Merging keeps the later of two last operations. -/
lemma mergeOp_calls (lop v : Option LastOperation) {w : LastOperation}
    (h : lop = some w ∨ v = some w) : ∃ w', mergeOp lop v = some w' ∧ w.callId ≤ w'.callId := by
  unfold mergeOp
  rcases lop with _ | a <;> rcases v with _ | b
  · simp at h
  · exact ⟨b, rfl, by simp at h; rw [h]⟩
  · exact ⟨a, rfl, by simp at h; rw [h]⟩
  · simp only [Option.some.injEq] at h
    dsimp only
    split_ifs with hle
    · exact ⟨b, rfl, by rcases h with rfl | rfl <;> omega⟩
    · exact ⟨a, rfl, by rcases h with rfl | rfl <;> omega⟩

/-- An operation that is executed is later than the last one of its client. -/
lemma perform_calls (kv : ShardKV) {op : Op} (h : kv.performs op) (c : ℕ) (v : LastOperation)
    (hv : kv.lastOp c = some v) :
    ∃ v', (kv.perform op).lastOp c = some v' ∧ v.callId ≤ v'.callId := by
  by_cases hc : c = op.clientId
  · subst hc
    refine ⟨_, Function.update_self _ _ _, ?_⟩
    have hdone : kv.done op = false := by
      simp only [performs, Bool.and_eq_true, Bool.not_eq_true'] at h
      exact h.1
    simp only [done, hv, decide_eq_false_iff_not, not_le] at hdone
    exact hdone.le
  · refine ⟨v, ?_, le_rfl⟩
    exact (Function.update_of_ne hc _ _).trans hv

/-- A change is a step forward. -/
lemma ShardKV.Change.later (h : Change H gid kv command kv') : Later kv kv' := by
  cases h with
  | skip =>
    exact ⟨le_rfl, fun _ => Finset.Subset.refl _, fun _ _ h => h, fun _ v h => ⟨v, h, le_rfl⟩⟩
  | config config hn =>
    obtain ⟨hcfg, -, hlast, -⟩ := applyConfig_rest hn.tick
    have hlt : kv.config.num < (kv.tick.execApplyConfig config).config.num := by
      rw [hcfg]
      exact hn.lt
    refine ⟨hlt.le, fun he => absurd he hlt.ne, fun he => absurd he hlt.ne, fun c v hv => ?_⟩
    exact ⟨v, by rw [hlast]; exact hv, le_rfl⟩
  | migrate m num missing asked =>
    obtain ⟨-, hlast, hcfg, hmy, -, -⟩ := (kv.tick.adopt m).settle_fields m
    refine ⟨by rw [hcfg]; exact le_rfl, fun _ => ?_, fun _ i hi => ?_, fun c v hv => ?_⟩
    · rw [hmy]
      exact Finset.subset_insert m.shard kv.myShards
    · rw [settle_shardDataReqs]
      split_ifs
      · rfl
      · exact hi
    · rw [hlast]
      exact mergeOp_calls _ _ (Or.inl hv)
  | gc cfgNum shard =>
    exact ⟨le_rfl, fun _ => Finset.Subset.refl _, fun _ _ h => h, fun _ v h => ⟨v, h, le_rfl⟩⟩
  | op op h =>
    exact ⟨le_rfl, fun _ => Finset.Subset.refl _, fun _ _ h => h, perform_calls kv.tick h⟩

/-- **Forward only.** -/
theorem Lawful.later (h : Lawful H gid log) (hb : before <+: log) :
    Later (replay gid before) (replay gid log) := by
  induction log using List.reverseRecOn with
  | nil =>
    rw [List.prefix_nil.1 hb]
    exact Later.refl _
  | append_singleton log command ih =>
    rcases List.prefix_concat_iff.1 hb with rfl | hb
    · exact Later.refl _
    · exact (ih h.front hb).trans h.change.later

/-! ### What is set aside -/

/-- The group had this data of the shard when it left configuration `n`. -/
def SetAside (gid : Gid) (log : List Command) (n : ℕ) (i : Shard) (d : Data) : Prop :=
  ∃ before config, before ++ [.config config] <+: log ∧ (replay gid before).config.num = n ∧
    config.num = n + 1 ∧
    d = fun k => if key2shard k = i then (replay gid before).data k else none

lemma SetAside.mono {n : ℕ} {i : Shard} {d : Data} (h : SetAside gid before n i d)
    (hb : before <+: log) : SetAside gid log n i d := by
  obtain ⟨b, config, hp, h⟩ := h
  exact ⟨b, config, hp.trans hb, h⟩

/-- **What is held for the next owner is what the group had.** -/
theorem Lawful.setAside (h : Lawful H gid log) {n : ℕ} {i : Shard} {d : Data}
    (hd : (replay gid log).dataForMigration n i = some d) : SetAside gid log n i d := by
  induction log using List.reverseRecOn with
  | nil => cases hd
  | append_singleton log command ih =>
    have hold : (replay gid log).dataForMigration n i = some d →
        SetAside gid (log ++ [command]) n i d := fun hd =>
      (ih h.front hd).mono (List.prefix_append log [command])
    have hchange := h.change
    generalize replay gid (log ++ [command]) = kv' at hd hchange
    cases hchange with
    | skip => exact hold hd
    | config config hn =>
      rw [h.front.books.tick.dataForMigration_applyConfig hn.tick] at hd
      split_ifs at hd with hi
      · obtain ⟨rfl, -⟩ := hi
        cases hd
        exact ⟨log, config, List.prefix_rfl, rfl, hn.num, rfl⟩
      · exact hold hd
    | migrate m =>
      rw [(ShardKV.settle_fields _ m).2.2.2.2.1] at hd
      exact hold hd
    | gc cfgNum shard =>
      rw [execGC_dataForMigration] at hd
      split_ifs at hd
      exact hold hd
    | op op => exact hold hd

/-- **Data is set aside when a shard is lost, and there until it is released.** -/
theorem Lawful.kept_or_collected (h : Lawful H gid log) {n : ℕ} {i : Shard}
    (hn : n < (replay gid log).config.num) (hown : H.owner i n = gid)
    (hnext : H.owner i (n + 1) ≠ gid) :
    (∃ d, (replay gid log).dataForMigration n i = some d) ∨ .gc n i ∈ log := by
  induction log using List.reverseRecOn with
  | nil => exact absurd hn (Nat.not_lt_zero n)
  | append_singleton log command ih =>
    -- the map of an earlier state, unless the command has touched it
    have hold : n < (replay gid log).config.num →
        (∃ d, (replay gid log).dataForMigration n i = some d) ∨ .gc n i ∈ log ++ [command] :=
      fun hn => (ih h.front hn).imp_right (List.mem_append_left [command])
    have hchange := h.change
    generalize replay gid (log ++ [command]) = kv' at hn hchange
    cases hchange with
    | skip => exact hold hn
    | config config hnx =>
      rw [(applyConfig_rest hnx.tick).1, hnx.num] at hn
      rw [h.front.books.tick.dataForMigration_applyConfig hnx.tick]
      split_ifs with hi
      · exact Or.inl ⟨_, rfl⟩
      · refine hold ?_
        have hne : n ≠ (replay gid log).config.num := fun he => hi ⟨he, hown, hnext⟩
        omega
    | migrate m =>
      rw [(ShardKV.settle_fields _ m).2.2.1] at hn
      rw [(ShardKV.settle_fields _ m).2.2.2.2.1]
      exact hold hn
    | gc cfgNum shard =>
      rw [execGC_dataForMigration]
      by_cases hi : n = cfgNum ∧ i = shard
      · obtain ⟨rfl, rfl⟩ := hi
        exact Or.inr (by simp)
      · rw [if_neg hi]
        exact hold hn
    | op op => exact hold hn

end RaftLabs.ShardKv
