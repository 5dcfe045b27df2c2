import RaftLabs.Lib.Balance
import RaftLabs.ShardCtrler.Server

/-!
# `makeShardBalance`

The first loop decides which shards stay: a group keeps up to `x` of its shards, and one more while
`r` allows it (`Visited`).  The second loop hands the others out (`Handing`); it never finds the
stack empty, because what is missing from the groups still to come is exactly what is on the stack.
So the result is balanced, and it keeps as many shards as any balanced assignment can.
-/

namespace RaftLabs.Ctrler

open Lib Balance Finset

/-- The groups as a set. -/
def Config.members (config : Config) : Finset Gid := config.groups.keys.toFinset

lemma Config.mem_members {config : Config} {gid : Gid} :
    gid ∈ config.members ↔ gid ∈ config.groups := by
  rw [members, List.mem_toFinset, AList.mem_keys]

lemma Config.card_members (config : Config) : config.members.card = config.groups.keys.length := by
  rw [members, List.toFinset_card_of_nodup config.groups.keys_nodup]

/-! ### The first loop -/

/-- The shards of a group among those seen. -/
def seenOf (config : Config) (seen : Finset (Fin nShards)) (gid : Gid) : ℕ :=
  #{i ∈ seen | config.shards i = gid}

/-- What holds in the first loop, when it has seen these shards. -/
structure Visited (config : Config) (x r₀ : ℕ) (seen : Finset (Fin nShards)) (sp : Surplus) :
    Prop where
  nodup : sp.shards.Nodup
  sub : ∀ i ∈ sp.shards, i ∈ seen
  kept : ∀ i ∈ seen, i ∉ sp.shards → config.shards i ∈ config.groups
  cnt : ∀ gid ∈ config.groups, #{i ∈ seen | i ∉ sp.shards ∧ config.shards i = gid} = sp.cnt gid
  le : ∀ gid ∈ config.groups, sp.cnt gid ≤ x + 1
  enough : ∀ gid ∈ config.groups, min (seenOf config seen gid) x ≤ sp.cnt gid
  larger : #{gid ∈ config.members | sp.cnt gid = x + 1} + sp.r = r₀
  /-- While `r` is not used up, no group has been refused. -/
  generous : 0 < sp.r → ∀ gid ∈ config.groups, x < seenOf config seen gid → sp.cnt gid = x + 1

section FirstLoop

variable {config : Config} {x r₀ : ℕ} {seen : Finset (Fin nShards)} {sp : Surplus} {i : Fin nShards}

lemma seenOf_insert (hi : i ∉ seen) (gid : Gid) : seenOf config (insert i seen) gid =
    seenOf config seen gid + if config.shards i = gid then 1 else 0 := by
  unfold seenOf
  rw [filter_insert]
  split_ifs with h
  · rw [card_insert_of_notMem (by simp [hi])]
  · rfl

/-- A shard goes on the stack: its group is gone, or has its share. -/
lemma Visited.spare (hv : Visited config x r₀ seen sp) (hi : i ∉ seen)
    (hfull : config.shards i ∈ config.groups →
      x ≤ sp.cnt (config.shards i) ∧ (0 < sp.r → sp.cnt (config.shards i) = x + 1)) :
    Visited config x r₀ (insert i seen) { sp with shards := sp.shards ++ [i] } := by
  have hnew : i ∉ sp.shards := fun h => hi (hv.sub i h)
  refine ⟨?_, ?_, ?_, ?_, hv.le, ?_, hv.larger, ?_⟩
  · exact List.nodup_append.2 ⟨hv.nodup, List.nodup_singleton i, fun a ha b hb => by
      rw [List.mem_singleton.1 hb]
      rintro rfl
      exact hnew ha⟩
  · intro j hj
    rcases List.mem_append.1 hj with hj | hj
    · exact mem_insert_of_mem (hv.sub j hj)
    · rw [List.mem_singleton.1 hj]
      exact mem_insert_self i seen
  · intro j hj hj'
    simp only [List.mem_append, List.mem_singleton, not_or] at hj'
    exact hv.kept j ((mem_insert.1 hj).resolve_left hj'.2) hj'.1
  · intro gid hgid
    rw [← hv.cnt gid hgid, filter_insert, if_neg (by simp)]
    refine congrArg card (filter_congr fun j hj => ?_)
    have hne : j ≠ i := by
      rintro rfl
      exact hi hj
    simp [hne]
  · intro gid hgid
    rw [seenOf_insert hi]
    have := hv.enough gid hgid
    split_ifs with h
    · subst h
      exact (min_le_right _ _).trans (hfull hgid).1
    · exact this
  · intro hr gid hgid hlt
    rw [seenOf_insert hi] at hlt
    split_ifs at hlt with h
    · subst h
      exact (hfull hgid).2 hr
    · exact hv.generous hr gid hgid hlt

/-- A shard stays with its group. -/
lemma Visited.keep (hv : Visited config x r₀ seen sp) (hi : i ∉ seen)
    (hmem : config.shards i ∈ config.groups) {r' : ℕ}
    (hroom : sp.cnt (config.shards i) < x ∧ r' = sp.r ∨
      sp.cnt (config.shards i) = x ∧ r' + 1 = sp.r) :
    Visited config x r₀ (insert i seen)
      { sp with
        cnt := Function.update sp.cnt (config.shards i) (sp.cnt (config.shards i) + 1)
        r := r' } := by
  have hnew : i ∉ sp.shards := fun h => hi (hv.sub i h)
  set own := config.shards i with hown
  refine ⟨hv.nodup, fun j hj => mem_insert_of_mem (hv.sub j hj), ?_, ?_, ?_, ?_, ?_, ?_⟩
  · intro j hj hj'
    rcases mem_insert.1 hj with rfl | hj
    · exact hmem
    · exact hv.kept j hj hj'
  · intro gid hgid
    dsimp only
    rw [filter_insert]
    by_cases h : own = gid
    · subst h
      rw [if_pos ⟨hnew, rfl⟩, card_insert_of_notMem (by simp [hi]), hv.cnt own hgid,
        Function.update_self]
    · rw [if_neg (fun hh => h hh.2), hv.cnt gid hgid, Function.update_of_ne (Ne.symm h)]
  · intro gid hgid
    dsimp only
    by_cases h : gid = own
    · subst h
      rw [Function.update_self]
      omega
    · rw [Function.update_of_ne h]
      exact hv.le gid hgid
  · intro gid hgid
    dsimp only
    rw [seenOf_insert hi, ← hown]
    have := hv.enough gid hgid
    by_cases h : gid = own
    · subst h
      rw [Function.update_self, if_pos rfl]
      omega
    · rw [Function.update_of_ne h, if_neg (Ne.symm h)]
      exact this
  · -- the group has one more than `x` now exactly if it took one from `r`
    have hlarger := hv.larger
    have hne : ∀ g ≠ own, Function.update sp.cnt own (sp.cnt own + 1) g = sp.cnt g := fun g hg =>
      Function.update_of_ne hg _ _
    have hself : Function.update sp.cnt own (sp.cnt own + 1) own = sp.cnt own + 1 :=
      Function.update_self _ _ _
    dsimp only
    rcases hroom with ⟨hlt, rfl⟩ | ⟨heq, hr⟩
    · rw [card_filter_same hne (by omega)]
      exact hlarger
    · rw [card_filter_reached hne (Config.mem_members.2 hmem) (by omega) (by omega)]
      omega
  · intro hr gid hgid hlt
    rw [seenOf_insert hi, ← hown] at hlt
    have hr' : 0 < sp.r := by
      dsimp only at hr
      omega
    by_cases h : gid = own
    · subst h
      rw [if_pos rfl] at hlt
      dsimp only
      rw [Function.update_self]
      rcases hroom with ⟨hltx, -⟩ | ⟨heq, -⟩
      · have := hv.enough own hgid
        omega
      · rw [heq]
    · rw [if_neg (Ne.symm h)] at hlt
      dsimp only
      rw [Function.update_of_ne h]
      exact hv.generous hr' gid hgid hlt

/-- One turn. -/
lemma Visited.visit (hv : Visited config x r₀ seen sp) (hi : i ∉ seen) :
    Visited config x r₀ (insert i seen) (sp.visit config x i) := by
  unfold Surplus.visit
  dsimp only
  split_ifs with hmem hx heq hr
  · exact hv.spare hi fun _ => ⟨hx, fun h => absurd h (by omega)⟩
  · exact hv.keep hi hmem (Or.inr ⟨heq, by omega⟩)
  · exact hv.spare hi fun _ => ⟨hx, fun _ => by have := hv.le _ hmem; omega⟩
  · exact hv.keep hi hmem (Or.inl ⟨by omega, rfl⟩)
  · exact hv.spare hi fun h => absurd h hmem

lemma visited_init (config : Config) (x r₀ : ℕ) :
    Visited config x r₀ ∅ ⟨fun _ => 0, r₀, []⟩ where
  nodup := List.nodup_nil
  sub _ h := absurd h List.not_mem_nil
  kept i h := absurd h (notMem_empty i)
  cnt _ _ := by simp
  le _ _ := Nat.zero_le _
  enough _ _ := by simp [seenOf]
  larger := by simp
  generous _ _ _ h := by simp [seenOf] at h

lemma Visited.foldl (hv : Visited config x r₀ seen sp) {l : List (Fin nShards)} (hnd : l.Nodup)
    (hdisj : ∀ i ∈ l, i ∉ seen) :
    Visited config x r₀ (seen ∪ l.toFinset) (l.foldl (Surplus.visit config x) sp) := by
  induction l generalizing seen sp with
  | nil => simpa using hv
  | cons i l ih =>
    obtain ⟨hi, hnd⟩ := List.nodup_cons.1 hnd
    have hdisj' : ∀ j ∈ l, j ∉ insert i seen := by
      intro j hj hmem
      rcases mem_insert.1 hmem with rfl | hmem
      · exact hi hj
      · exact hdisj j (List.mem_cons_of_mem i hj) hmem
    rw [List.foldl_cons, List.toFinset_cons, union_insert, ← insert_union]
    exact ih (hv.visit (hdisj i List.mem_cons_self)) hnd hdisj'

/-- **The first loop.** -/
lemma visited_surplus (config : Config) : Visited config (nShards / config.members.card)
    (nShards % config.members.card) univ (surplus config) := by
  rw [Config.card_members]
  have hv := (visited_init config (nShards / config.groups.keys.length)
    (nShards % config.groups.keys.length)).foldl (List.nodup_finRange nShards) (by simp)
  rwa [empty_union, List.toFinset_finRange] at hv

end FirstLoop

/-! ### The second loop -/

/-- The shards of a group, without those on the stack. -/
def Handout.held (ho : Handout) (gid : Gid) : ℕ := #{i | i ∉ ho.shards ∧ ho.assigned i = gid}

/-- `n` shards have gone from the stack to `gid`. -/
structure Given (gid : Gid) (n : ℕ) (ho ho' : Handout) : Prop where
  nodup : ho'.shards.Nodup
  sub : ∀ i ∈ ho'.shards, i ∈ ho.shards
  length : ho'.shards.length + n = ho.shards.length
  r : ho'.r = ho.r
  held : ∀ g, ho'.held g = ho.held g + if g = gid then n else 0
  other : ∀ i ∉ ho.shards, ho'.assigned i = ho.assigned i
  given : ∀ i ∈ ho.shards, i ∉ ho'.shards → ho'.assigned i = gid

section SecondLoop

variable {config : Config} {x r₀ n m : ℕ} {gid : Gid} {ho ho' ho'' : Handout}

lemma Given.refl (hnd : ho.shards.Nodup) : Given gid 0 ho ho :=
  ⟨hnd, fun _ h => h, rfl, rfl, fun g => by simp, fun _ _ => rfl, fun _ h h' => absurd h h'⟩

lemma Given.trans (h : Given gid n ho ho') (h' : Given gid m ho' ho'') :
    Given gid (n + m) ho ho'' := by
  refine ⟨h'.nodup, fun i hi => h.sub i (h'.sub i hi), ?_, h'.r.trans h.r, fun g => ?_,
    fun i hi => ?_, fun i hi hi' => ?_⟩
  · have := h.length
    have := h'.length
    omega
  · rw [h'.held, h.held]
    split_ifs <;> omega
  · rw [h'.other i fun hmem => hi (h.sub i hmem), h.other i hi]
  · by_cases hmem : i ∈ ho'.shards
    · exact h'.given i hmem hi'
    · rw [h'.other i hmem]
      exact h.given i hi hmem

/-- One shard. -/
lemma give_eq (gid : Gid) (hnd : ho.shards.Nodup) (hlen : 1 ≤ ho.shards.length) :
    ∃ ho', ho.give gid = some ho' ∧ Given gid 1 ho ho' := by
  obtain ⟨l, i, hl⟩ : ∃ l i, ho.shards = l ++ [i] :=
    ⟨_, _, (List.dropLast_append_getLast (List.ne_nil_of_length_pos hlen)).symm⟩
  have hnd' := hnd
  rw [hl, List.nodup_append] at hnd'
  have hi : i ∉ l := fun h => hnd'.2.2 i h i (List.mem_singleton_self i) rfl
  refine ⟨⟨Function.update ho.assigned i gid, l, ho.r⟩, ?_, hnd'.1, ?_, ?_, rfl, ?_, ?_, ?_⟩
  · simp [Handout.give, hl]
  · exact fun j hj => by rw [hl]; exact List.mem_append_left _ hj
  · rw [hl]
    simp
  · intro g
    -- the new shard apart, a group has what it had
    have hrest : ∀ j, (j ∉ l ∧ Function.update ho.assigned i gid j = g) ↔
        (j ∉ ho.shards ∧ ho.assigned j = g) ∨ j = i ∧ g = gid := by
      intro j
      by_cases hj : j = i
      · subst hj
        simp [hl, hi, eq_comm]
      · simp [hl, hj]
    unfold Handout.held
    rw [filter_congr fun j _ => hrest j, filter_or, card_union_of_disjoint]
    · congr 1
      split_ifs with hg
      · simp [hg, filter_eq']
      · simp [hg]
    · rw [disjoint_filter]
      rintro j - ⟨hj, -⟩ ⟨rfl, -⟩
      exact hj (by simp [hl])
  · intro j hj
    refine Function.update_of_ne ?_ _ _
    rintro rfl
    exact hj (by simp [hl])
  · intro j hj hj'
    rw [hl] at hj
    have : j = i := by simpa [hj'] using hj
    rw [this]
    exact Function.update_self _ _ _

/-- Several shards. -/
lemma fill_eq (gid : Gid) (hnd : ho.shards.Nodup) (hlen : n ≤ ho.shards.length) :
    ∃ ho', Handout.fill gid n ho = some ho' ∧ Given gid n ho ho' := by
  induction n generalizing ho with
  | zero => exact ⟨ho, rfl, Given.refl hnd⟩
  | succ n ih =>
    obtain ⟨ho₁, h₁, hg₁⟩ := give_eq gid hnd (by omega)
    have := hg₁.length
    obtain ⟨ho₂, h₂, hg₂⟩ := ih hg₁.nodup (by omega)
    refine ⟨ho₂, by rw [Handout.fill, h₁]; exact h₂, ?_⟩
    rw [Nat.add_comm n 1]
    exact hg₁.trans hg₂

/-- What holds in the second loop, when these groups are still to come. -/
structure Handing (config : Config) (x r₀ : ℕ) (spare : List (Fin nShards)) (todo : List (Gid × ℕ))
    (ho : Handout) : Prop where
  nodup : ho.shards.Nodup
  sub : ∀ i ∈ ho.shards, i ∈ spare
  same : ∀ i ∉ spare, ho.assigned i = config.shards i
  assigned : ∀ i ∉ ho.shards, ho.assigned i ∈ config.members
  le : ∀ gid ∈ config.members, ho.held gid ≤ x + 1
  coming : ∀ v ∈ todo, ho.held v.1 = v.2
  done : ∀ gid ∈ config.members, gid ∉ todo.map Prod.fst → x ≤ ho.held gid
  larger : #{gid ∈ config.members | ho.held gid = x + 1} + ho.r = r₀
  /-- While `r` is not used up, every group so far has got one more. -/
  generous : 0 < ho.r → ∀ gid ∈ config.members, gid ∉ todo.map Prod.fst → ho.held gid = x + 1

variable {spare : List (Fin nShards)} {todo : List (Gid × ℕ)}

/-- Every shard is on the stack or with a group. -/
lemma Handing.length_add_sum (hh : Handing config x r₀ spare todo ho) :
    ho.shards.length + ∑ gid ∈ config.members, ho.held gid = nShards := by
  have hsum : #{i | i ∉ ho.shards} = ∑ gid ∈ config.members, ho.held gid := by
    rw [card_eq_sum_card_fiberwise (t := config.members) fun i hi =>
      hh.assigned i (by simpa using hi)]
    exact sum_congr rfl fun gid _ => by rw [filter_filter]; rfl
  have hstack : #{i | i ∈ ho.shards} = ho.shards.length := by
    rw [← List.toFinset_card_of_nodup hh.nodup]
    exact congrArg card (by ext i; simp)
  rw [← hsum, ← hstack, card_filter_add_card_filter_not, card_univ, Fintype.card_fin]

/-- **The stack is never too small**: what a group lacks is there, and what `r` stands for. -/
lemma Handing.enough (hh : Handing config x r₀ spare todo ho)
    (hN : nShards = config.members.card * x + r₀) (hmem : gid ∈ config.members)
    (hle : ho.held gid ≤ x) : x - ho.held gid + ho.r ≤ ho.shards.length := by
  have htotal := hh.length_add_sum
  have hlarger := hh.larger
  rw [← add_sum_erase _ _ hmem] at htotal
  have hset : ({g ∈ config.members | ho.held g = x + 1} : Finset Gid) =
      {g ∈ config.members.erase gid | ho.held g = x + 1} := by
    ext g
    simp only [mem_filter, mem_erase]
    constructor
    · rintro ⟨hg, he⟩
      refine ⟨⟨?_, hg⟩, he⟩
      rintro rfl
      omega
    · exact fun h => ⟨h.1.2, h.2⟩
  have hrest : ∑ g ∈ config.members.erase gid, ho.held g ≤
      #(config.members.erase gid) * x + #{g ∈ config.members | ho.held g = x + 1} := by
    rw [hset, card_filter, ← smul_eq_mul, ← sum_const, ← sum_add_distrib]
    refine sum_le_sum fun g hg => ?_
    have := hh.le g (mem_of_mem_erase hg)
    split_ifs <;> omega
  rw [card_erase_of_mem hmem, Nat.sub_mul, one_mul] at hrest
  have : x ≤ config.members.card * x := Nat.le_mul_of_pos_left x (card_pos.2 ⟨gid, hmem⟩)
  omega

/-- What a group gets changes nothing else. -/
lemma Handing.give {c : ℕ} (hh : Handing config x r₀ spare ((gid, c) :: todo) ho)
    (hmem : gid ∈ config.members) (hnd : gid ∉ todo.map Prod.fst) (hg : Given gid n ho ho')
    {r' : ℕ} (hr : r' ≤ ho.r)
    (hfull : ho.held gid + n = x ∧ r' = ho.r ∧ ho.r = 0 ∨
      ho.held gid + n = x + 1 ∧ (ho.held gid = x + 1 ∧ r' = ho.r ∨
        ho.held gid ≤ x ∧ r' + 1 = ho.r)) :
    Handing config x r₀ spare todo { ho' with r := r' } := by
  have hheld : ∀ g, ({ ho' with r := r' } : Handout).held g = ho.held g + if g = gid then n else 0 :=
    hg.held
  have hself := hheld gid
  rw [if_pos rfl] at hself
  have hne : ∀ g ≠ gid, ({ ho' with r := r' } : Handout).held g = ho.held g := by
    intro g hgne
    rw [hheld, if_neg hgne, Nat.add_zero]
  have hin : ∀ g ≠ gid, g ∉ todo.map Prod.fst → g ∉ ((gid, c) :: todo).map Prod.fst := by
    intro g hgne hgt
    simpa using ⟨hgne, by simpa using hgt⟩
  refine ⟨hg.nodup, fun i hi => hh.sub i (hg.sub i hi), fun i hi => ?_, fun i hi => ?_,
    fun g hgm => ?_, fun v hv => ?_, fun g hgm hgt => ?_, ?_, fun hr0 g hgm hgt => ?_⟩
  · rw [← hh.same i hi]
    exact hg.other i fun h => hi (hh.sub i h)
  · by_cases his : i ∈ ho.shards
    · have := hg.given i his hi
      dsimp only
      rw [this]
      exact hmem
    · have := hg.other i his
      dsimp only
      rw [this]
      exact hh.assigned i his
  · by_cases hgg : g = gid
    · subst hgg
      rw [hself]
      omega
    · rw [hne g hgg]
      exact hh.le g hgm
  · have hvg : v.1 ≠ gid := by
      rintro rfl
      exact hnd (List.mem_map_of_mem hv)
    rw [hne _ hvg]
    exact hh.coming v (List.mem_cons_of_mem _ hv)
  · by_cases hgg : g = gid
    · subst hgg
      rw [hself]
      omega
    · rw [hne g hgg]
      exact hh.done g hgm (hin g hgg hgt)
  · -- the larger groups: this one has become one of them, or nothing has changed
    have hlarger := hh.larger
    dsimp only
    by_cases hbig : ho.held gid ≤ x ∧ r' + 1 = ho.r
    · rw [card_filter_reached hne hmem (by omega) (by omega)]
      omega
    · rw [card_filter_same hne (by omega)]
      omega
  · by_cases hgg : g = gid
    · subst hgg
      rw [hself]
      dsimp only at hr0
      omega
    · rw [hne g hgg]
      exact hh.generous (by dsimp only at hr0; omega) g hgm (hin g hgg hgt)

/-- One turn. -/
lemma Handing.visit {c : ℕ} (hh : Handing config x r₀ spare ((gid, c) :: todo) ho)
    (hN : nShards = config.members.card * x + r₀) (hmem : gid ∈ config.members)
    (hnd : gid ∉ todo.map Prod.fst) :
    ∃ ho', ho.visit x gid c = some ho' ∧ Handing config x r₀ spare todo ho' := by
  have hc : ho.held gid = c := hh.coming (gid, c) List.mem_cons_self
  have hle := hh.le gid hmem
  unfold Handout.visit
  rcases Nat.lt_or_ge x c with hbig | hsmall
  · -- the group has one more already
    have h0 : x - c = 0 := by omega
    refine ⟨ho, ?_, hh.give hmem hnd (Given.refl hh.nodup) le_rfl (Or.inr ⟨by omega, ?_⟩)⟩
    · rw [h0, Handout.fill, Option.bind_some, if_neg (by omega)]
    · exact Or.inl ⟨by omega, rfl⟩
  · have henough := hh.enough hN hmem (by omega)
    obtain ⟨ho₁, h₁, hg₁⟩ := fill_eq gid (n := x - c) hh.nodup (by omega)
    rw [h₁, Option.bind_some, hg₁.r]
    by_cases hr : 0 < ho.r
    · have hlen := hg₁.length
      obtain ⟨ho₂, h₂, hg₂⟩ := give_eq gid hg₁.nodup (by omega)
      refine ⟨{ ho₂ with r := ho.r - 1 }, ?_,
        hh.give hmem hnd (hg₁.trans hg₂) (Nat.sub_le _ _) (Or.inr ⟨by omega, Or.inr ?_⟩)⟩
      · rw [if_pos ⟨hsmall, hr⟩, h₂, Option.map_some, hg₂.r, hg₁.r]
      · exact ⟨by omega, by omega⟩
    · refine ⟨ho₁, by rw [if_neg fun h => hr h.2], ?_⟩
      have := hh.give hmem hnd hg₁ (le_refl ho.r) (Or.inl ⟨by omega, rfl, by omega⟩)
      rwa [← hg₁.r] at this

/-- The whole loop. -/
lemma Handing.visitAll (hh : Handing config x r₀ spare todo ho)
    (hN : nShards = config.members.card * x + r₀) (hmem : ∀ v ∈ todo, v.1 ∈ config.members)
    (hnd : (todo.map Prod.fst).Nodup) :
    ∃ ho', Handout.visitAll x todo ho = some ho' ∧ Handing config x r₀ spare [] ho' := by
  induction todo generalizing ho with
  | nil => exact ⟨ho, rfl, hh⟩
  | cons v todo ih =>
    obtain ⟨gid, c⟩ := v
    rw [List.map_cons, List.nodup_cons] at hnd
    obtain ⟨ho₁, h₁, hh₁⟩ := hh.visit hN (hmem _ List.mem_cons_self) hnd.1
    obtain ⟨ho₂, h₂, hh₂⟩ := ih hh₁ (fun v hv => hmem v (List.mem_cons_of_mem _ hv)) hnd.2
    exact ⟨ho₂, by rw [Handout.visitAll, h₁]; exact h₂, hh₂⟩

/-- At the end the stack is empty and every group has its share. -/
lemma Handing.finished (hh : Handing config x r₀ spare [] ho)
    (hN : nShards = config.members.card * x + r₀) (hr₀ : r₀ < config.members.card) :
    ho.shards = [] ∧ ∀ gid ∈ config.members, ho.held gid = x ∨ ho.held gid = x + 1 := by
  have htwo : ∀ gid ∈ config.members, ho.held gid = x ∨ ho.held gid = x + 1 := by
    intro gid hgid
    have := hh.le gid hgid
    have := hh.done gid hgid (by simp)
    omega
  have hlarger := hh.larger
  have htotal := hh.length_add_sum
  rw [sum_of_two htwo] at htotal
  have hr : ho.r = 0 := by
    by_contra hne
    have hall : ({gid ∈ config.members | ho.held gid = x + 1} : Finset Gid) = config.members :=
      filter_true_of_mem fun gid hgid =>
        hh.generous (Nat.pos_of_ne_zero hne) gid hgid (by simp)
    rw [hall] at hlarger
    omega
  exact ⟨List.length_eq_zero_iff.1 (by omega), htwo⟩

end SecondLoop

/-! ### The two loops together -/

section Result

variable {config config' : Config}

lemma map_fst_kept (config : Config) :
    (kept config).map Prod.fst = config.groups.keys.insertionSort (· ≤ ·) := by
  rw [kept, List.map_map]
  exact List.map_id _

lemma mem_map_fst_kept {gid : Gid} : gid ∈ (kept config).map Prod.fst ↔ gid ∈ config.members := by
  rw [map_fst_kept, List.mem_insertionSort, Config.members, List.mem_toFinset]

/-- Where the second loop starts. -/
lemma handing_surplus (config : Config) : Handing config (nShards / config.members.card)
    (nShards % config.members.card) (surplus config).shards (kept config)
    ⟨config.shards, (surplus config).shards, (surplus config).r⟩ := by
  have hv := visited_surplus config
  have hheld : ∀ gid ∈ config.members,
      (⟨config.shards, (surplus config).shards, (surplus config).r⟩ : Handout).held gid =
        (surplus config).cnt gid :=
    fun gid hgid => hv.cnt gid (Config.mem_members.1 hgid)
  refine ⟨hv.nodup, fun _ h => h, fun _ _ => rfl, fun i hi => ?_, fun gid hgid => ?_,
    fun v hmem => ?_, fun gid hgid h => absurd (mem_map_fst_kept.2 hgid) h, ?_,
    fun _ gid hgid h => absurd (mem_map_fst_kept.2 hgid) h⟩
  · exact Config.mem_members.2 (hv.kept i (mem_univ i) hi)
  · rw [hheld gid hgid]
    exact hv.le gid (Config.mem_members.1 hgid)
  · rw [hheld v.1 (mem_map_fst_kept.1 (List.mem_map_of_mem hmem))]
    obtain ⟨gid, -, rfl⟩ := List.mem_map.1 hmem
    rfl
  · rw [← hv.larger]
    exact congrArg (· + _) (congrArg card (filter_congr fun gid hgid => by rw [hheld gid hgid]))

/-- **What the two loops make**: no shard is left on the stack, every group has its share, and a
shard that was not on the stack has stayed where it was. -/
lemma visitAll_kept (hne : config.members.Nonempty) :
    ∃ ho, Handout.visitAll (nShards / config.members.card) (kept config)
      ⟨config.shards, (surplus config).shards, (surplus config).r⟩ = some ho ∧
      ho.shards = [] ∧ (∀ i, ho.assigned i ∈ config.members) ∧
      (∀ gid ∈ config.members, size ho.assigned gid = nShards / config.members.card ∨
        size ho.assigned gid = nShards / config.members.card + 1) ∧
      ∀ i ∉ (surplus config).shards, ho.assigned i = config.shards i := by
  have hN : nShards = config.members.card * (nShards / config.members.card) + nShards % config.members.card :=
    (Nat.div_add_mod nShards _).symm
  have hnd : ((kept config).map Prod.fst).Nodup := by
    rw [map_fst_kept]
    exact (List.perm_insertionSort _ _).nodup_iff.2 config.groups.keys_nodup
  obtain ⟨ho, hho, hh⟩ := (handing_surplus config).visitAll hN
    (fun v hv => mem_map_fst_kept.1 (List.mem_map_of_mem hv)) hnd
  obtain ⟨hempty, htwo⟩ := hh.finished hN (Nat.mod_lt _ (card_pos.2 hne))
  have hheld : ∀ gid, ho.held gid = size ho.assigned gid := by
    intro gid
    unfold Handout.held size
    rw [hempty]
    exact congrArg card (filter_congr fun i _ => by simp)
  refine ⟨ho, hho, hempty, fun i => hh.assigned i (by rw [hempty]; exact List.not_mem_nil), ?_,
    hh.same⟩
  intro gid hgid
  rw [← hheld]
  exact htwo gid hgid

lemma members_nonempty (h : config.groups.keys ≠ []) : config.members.Nonempty := by
  rw [Config.members, List.toFinset_nonempty_iff]
  exact h

/-- `makeShardBalance` in terms of its loops. -/
lemma makeShardBalance_eq (h : config.groups.keys ≠ []) : makeShardBalance config =
    (Handout.visitAll (nShards / config.members.card) (kept config)
      ⟨config.shards, (surplus config).shards, (surplus config).r⟩).map
        fun ho => { config with shards := ho.assigned } := by
  unfold makeShardBalance
  rw [Config.card_members]
  exact if_neg fun h0 => h (List.length_eq_zero_iff.1 h0)

/-- Every shard is assigned to a group of the configuration, or to the invalid one if there are no
groups. -/
def Config.Proper (config : Config) : Prop :=
  ∀ i, config.shards i ∈ config.groups ∨ config.groups.keys = [] ∧ config.shards i = invalidGid

/-- **`makeShardBalance`** as its callers need it. -/
lemma makeShardBalance_eq_some (config : Config) : ∃ shards,
    makeShardBalance config = some { config with shards := shards } ∧
      Config.Proper { config with shards := shards } := by
  by_cases h : config.groups.keys = []
  · refine ⟨fun _ => invalidGid, ?_, fun i => Or.inr ⟨h, rfl⟩⟩
    unfold makeShardBalance
    exact if_pos (by rw [h]; rfl)
  · obtain ⟨ho, hho, -, hmem, -, -⟩ := visitAll_kept (members_nonempty h)
    exact ⟨ho.assigned, by rw [makeShardBalance_eq h, hho]; rfl,
      fun i => Or.inl (Config.mem_members.1 (hmem i))⟩

/-- **Rebalancing is correct** for every assignment of the shards and all groups: it does not panic,
no shard is left over, every shard goes to a member and every member has its share. -/
theorem makeShardBalance_correct (config : Config) :
    (config.groups.keys = [] →
      makeShardBalance config = some { config with shards := fun _ => invalidGid }) ∧
    (config.groups.keys ≠ [] →
      ∃ ho, Handout.visitAll (nShards / config.groups.keys.length) (kept config)
          ⟨config.shards, (surplus config).shards, (surplus config).r⟩ = some ho ∧
        ho.shards = [] ∧
        makeShardBalance config = some { config with shards := ho.assigned } ∧
        (∀ i, ho.assigned i ∈ config.groups) ∧
        ∀ gid ∈ config.groups,
          #{i | ho.assigned i = gid} = nShards / config.groups.keys.length ∨
          #{i | ho.assigned i = gid} = nShards / config.groups.keys.length + 1) := by
  refine ⟨fun h => ?_, fun h => ?_⟩
  · unfold makeShardBalance
    exact if_pos (by rw [h]; rfl)
  · obtain ⟨ho, hho, hempty, hmem, hsize, -⟩ := visitAll_kept (members_nonempty h)
    rw [makeShardBalance_eq h, hho, ← Config.card_members]
    exact ⟨ho, hho, hempty, rfl, fun i => Config.mem_members.1 (hmem i),
      fun gid hgid => hsize gid (Config.mem_members.2 hgid)⟩

/-- All shards with group `1`, and three groups. -/
def skewed : Config :=
  ⟨1, fun _ => 1, ⟨[⟨2, []⟩, ⟨1, []⟩, ⟨3, []⟩], by simp [List.NodupKeys]⟩⟩

theorem makeShardBalance_correct_skewed : ∃ shards, makeShardBalance skewed =
    some { skewed with shards := shards } ∧ ∀ gid ∈ skewed.groups,
      #{i | shards i = gid} = 3 ∨ #{i | shards i = gid} = 4 := by
  obtain ⟨ho, -, -, hbal, -, hsize⟩ := (makeShardBalance_correct skewed).2 (by decide)
  exact ⟨ho.assigned, hbal, hsize⟩

/-- The first loop keeps as many shards as a balanced assignment can. -/
lemma le_kept (config : Config) :
    ∑ gid ∈ config.members, min (size config.shards gid) (nShards / config.members.card) +
      min (nShards % config.members.card)
        #{gid ∈ config.members | nShards / config.members.card < size config.shards gid} +
      (surplus config).shards.length ≤ nShards := by
  have hv := visited_surplus config
  have htotal := (handing_surplus config).length_add_sum
  have hlarger := hv.larger
  set x := nShards / config.members.card
  set sp := surplus config
  have hheld : ∀ gid ∈ config.members,
      (⟨config.shards, sp.shards, sp.r⟩ : Handout).held gid = sp.cnt gid :=
    fun gid hgid => hv.cnt gid (Config.mem_members.1 hgid)
  have htotal : sp.shards.length + ∑ gid ∈ config.members, sp.cnt gid = nShards := by
    rw [← sum_congr rfl hheld]
    exact htotal
  have hsum : ∑ gid ∈ config.members, min (size config.shards gid) x +
      #{gid ∈ config.members | sp.cnt gid = x + 1} ≤ ∑ gid ∈ config.members, sp.cnt gid := by
    rw [card_filter, ← sum_add_distrib]
    refine sum_le_sum fun gid hgid => ?_
    have : min (size config.shards gid) x ≤ sp.cnt gid :=
      hv.enough gid (Config.mem_members.1 hgid)
    split_ifs <;> omega
  -- the larger quotas have been used up, or given to every group that had a use for one
  have hextra : min (nShards % config.members.card)
      #{gid ∈ config.members | x < size config.shards gid} ≤
      #{gid ∈ config.members | sp.cnt gid = x + 1} := by
    rcases Nat.eq_zero_or_pos sp.r with h0 | hpos
    · exact (min_le_left _ _).trans (by omega)
    · refine (min_le_right _ _).trans (card_le_card fun gid hgid => ?_)
      simp only [mem_filter] at hgid ⊢
      exact ⟨hgid.1, hv.generous hpos gid (Config.mem_members.1 hgid.1) hgid.2⟩
  omega

/-- **Rebalancing moves as few shards as possible**: the result is balanced, and every balanced
assignment differs from the assignment before in at least as many shards. -/
theorem makeShardBalance_moves_least (hne : config.groups.keys ≠ [])
    (h : makeShardBalance config = some config') :
    Balanced config.members config'.shards ∧ ∀ f, Balanced config.members f →
      #{i | config'.shards i ≠ config.shards i} ≤ #{i | f i ≠ config.shards i} := by
  obtain ⟨ho, hho, -, hmem, hsize, hsame⟩ := visitAll_kept (members_nonempty hne)
  rw [makeShardBalance_eq hne, hho] at h
  cases h
  dsimp only
  constructor
  · refine ⟨hmem, fun g hg g' hg' => ?_⟩
    have := hsize g hg
    have := hsize g' hg'
    omega
  · intro f hf
    have hmoved : #{i | ho.assigned i ≠ config.shards i} ≤ (surplus config).shards.length := by
      rw [← List.toFinset_card_of_nodup (visited_surplus config).nodup]
      refine card_le_card fun i hi => ?_
      rw [List.mem_toFinset]
      by_contra hns
      exact (mem_filter.1 hi).2 (hsame i hns)
    have hagree := hf.agree_le config.shards
    have hdiffer := agree_add_differ f config.shards
    have hkept := le_kept config
    rw [Fintype.card_fin] at hagree hdiffer
    omega

theorem makeShardBalance_moves_least_skewed : ∃ config', makeShardBalance skewed = some config' ∧
    ∀ f, Balanced skewed.members f →
      #{i | config'.shards i ≠ skewed.shards i} ≤ #{i | f i ≠ skewed.shards i} := by
  obtain ⟨ho, hho, -⟩ := visitAll_kept (members_nonempty (show skewed.groups.keys ≠ [] by decide))
  have hbal := makeShardBalance_eq (show skewed.groups.keys ≠ [] by decide)
  rw [hho] at hbal
  exact ⟨_, hbal, (makeShardBalance_moves_least (by decide) hbal).2⟩

end Result

end RaftLabs.Ctrler
