import Mathlib.Tactic

/-!
# Depth-first search with a cache

A graph gives the alternatives at every node as a list, in which some lead nowhere.  The search keeps
the nodes on the way to where it is, each with the alternatives it has not looked at, and a cache of all
nodes it has entered: it does not enter a node that is the same as one of those.

If every step goes down a level and nodes that are the same are of one level and equally good, the cache
cuts off nothing: a node that was entered has been left without success, or is on the way to where the
search is, above it.  The search ends after at most as many turns as there are ways down
(`Search.loop_correct`).
-/

namespace RaftLabs.Lib

/-- A loop whose body goes on or leaves with a result; it is given up after `fuel` turns. -/
def loop {S R : Type*} (body : S → S ⊕ R) : ℕ → S → Option R
  | 0, _ => none
  | fuel + 1, s =>
    match body s with
    | .inl s' => loop body fuel s'
    | .inr r => some r

section Loop

variable {S S' R R' : Type*} {body : S → S ⊕ R} {body' : S' → S' ⊕ R'}

/-- **The variant rule**: a loop ends if a measure goes down, and `I` holds where it ends. -/
theorem loop_total {I : S → Prop} {Q : R → Prop} (μ : S → ℕ)
    (hbody : ∀ s, I s → (∃ s', body s = .inl s' ∧ I s' ∧ μ s' < μ s) ∨ ∃ r, body s = .inr r ∧ Q r)
    {s : S} (hs : I s) {fuel : ℕ} (hfuel : μ s < fuel) : ∃ r, loop body fuel s = some r ∧ Q r := by
  induction fuel generalizing s with
  | zero => omega
  | succ fuel ih =>
    unfold loop
    obtain ⟨s', hs', hi, hlt⟩ | ⟨r, hr, hq⟩ := hbody s hs
    · rw [hs']
      exact ih hi (by omega)
    · rw [hr]
      exact ⟨r, rfl, hq⟩

/-- **Loops in step with each other** end together. -/
theorem loop_sim {sim : S → S' → Prop} {Q : R → R' → Prop}
    (hbody : ∀ s s', sim s s' → (∃ t t', body s = .inl t ∧ body' s' = .inl t' ∧ sim t t') ∨
      ∃ r r', body s = .inr r ∧ body' s' = .inr r' ∧ Q r r')
    {s : S} {s' : S'} (h : sim s s') {fuel : ℕ} {r' : R'} (hr : loop body' fuel s' = some r') :
    ∃ r, loop body fuel s = some r ∧ Q r r' := by
  induction fuel generalizing s s' with
  | zero => cases hr
  | succ fuel ih =>
    unfold loop at hr ⊢
    obtain ⟨t, t', ht, ht', hsim⟩ | ⟨r, r₁, hr₁, hr₁', hq⟩ := hbody s s' h
    · rw [ht'] at hr
      rw [ht]
      exact ih hsim hr
    · rw [hr₁'] at hr
      cases hr
      rw [hr₁]
      exact ⟨r, rfl, hq⟩

end Loop

/-- The alternatives at a node, where `none` leads nowhere; the nodes that are looked for; and when two
nodes are the same for the cache. -/
structure Graph (N : Type*) where
  next : N → List (Option N)
  goal : N → Bool
  same : N → N → Bool

namespace Graph

variable {N : Type*} (G : Graph N)

/-- A goal can be reached. -/
inductive Good : N → Prop
  | goal {a : N} : G.goal a → Good a
  | next {a b : N} : some b ∈ G.next a → Good b → Good a

/-- Every step goes down, and the cache may take nodes that are the same for each other. -/
structure Layered (depth : N → ℕ) : Prop where
  down : ∀ {a b}, some b ∈ G.next a → depth b < depth a
  level : ∀ {a b}, G.same a b → depth a = depth b
  good : ∀ {a b}, G.same a b → (G.Good a ↔ G.Good b)

/-- The turns that the search takes at most below a node of this depth. -/
def weight : ℕ → N → ℕ
  | 0, a => 1 + (G.next a).length
  | depth + 1, a => 1 + ((G.next a).map fun b => 1 + b.elim 0 (weight depth)).sum

lemma weight_le_succ (depth : ℕ) (a : N) : G.weight depth a ≤ G.weight (depth + 1) a := by
  induction depth generalizing a with
  | zero =>
    have hsum : (G.next a).length ≤ ((G.next a).map fun b => 1 + b.elim 0 (G.weight 0)).sum := by
      have := List.length_le_sum_of_one_le ((G.next a).map fun b => 1 + b.elim 0 (G.weight 0))
      simp only [List.length_map] at this
      refine this fun i hi => ?_
      obtain ⟨b, -, rfl⟩ := List.mem_map.1 hi
      omega
    exact Nat.add_le_add_left hsum 1
  | succ depth ih =>
    simp only [weight]
    refine Nat.add_le_add_left (List.sum_le_sum fun b _ => ?_) 1
    cases b with
    | none => exact le_rfl
    | some b => exact Nat.add_le_add_left (ih b) 1

lemma weight_mono {depth depth' : ℕ} (h : depth ≤ depth') (a : N) :
    G.weight depth a ≤ G.weight depth' a := by
  induction depth', h using Nat.le_induction with
  | base => exact le_rfl
  | succ depth' _ ih => exact ih.trans (G.weight_le_succ depth' a)

/-- The turns for a list of alternatives. -/
def cost (depth : N → ℕ) (alts : List (Option N)) : ℕ :=
  (alts.map fun b => 1 + b.elim 0 fun b => G.weight (depth b) b).sum

lemma cost_cons (depth : N → ℕ) (b : Option N) (alts : List (Option N)) :
    G.cost depth (b :: alts) = 1 + b.elim 0 (fun b => G.weight (depth b) b) + G.cost depth alts := by
  unfold cost
  rw [List.map_cons, List.sum_cons]

variable {G} {depth : N → ℕ}

lemma Layered.cost_next_lt (hG : G.Layered depth) (a : N) :
    G.cost depth (G.next a) < G.weight (depth a) a := by
  unfold cost
  cases hd : depth a with
  | zero =>
    -- there is nothing below, so all alternatives lead nowhere
    have hnone : ∀ b ∈ G.next a,
        1 + b.elim 0 (fun b => G.weight (depth b) b) = (fun _ => 1) b := by
      intro b hb
      cases b with
      | none => rfl
      | some b =>
        have := hG.down hb
        omega
    rw [List.map_congr_left hnone]
    simp only [List.map_const', List.sum_replicate, smul_eq_mul, mul_one, weight]
    omega
  | succ d =>
    have hsum : ((G.next a).map fun b => 1 + b.elim 0 fun b => G.weight (depth b) b).sum ≤
        ((G.next a).map fun b => 1 + b.elim 0 (G.weight d)).sum := by
      refine List.sum_le_sum fun b hb => ?_
      cases b with
      | none => exact le_rfl
      | some b =>
        have hle : depth b ≤ d := by
          have := hG.down hb
          omega
        exact Nat.add_le_add_left (G.weight_mono hle b) 1
    simp only [weight]
    omega

end Graph

/-- Where a search is: the node and its alternatives that are left, the levels above, the nearest first,
and the nodes that have been entered. -/
structure Search (N : Type*) where
  node : N
  alts : List (Option N)
  above : List (N × List (Option N))
  cache : List N

namespace Search

variable {N : Type*} (G : Graph N)

def start (root : N) : Search N := ⟨root, G.next root, [], []⟩

/-- One turn. -/
def turn (s : Search N) : Search N ⊕ Bool :=
  if G.goal s.node then .inr true
  else
    match s.alts with
    | [] =>
      match s.above with
      | [] => .inr false
      | (node, alts) :: above => .inl { s with node := node, alts := alts, above := above }
    | none :: alts => .inl { s with alts := alts }
    | some b :: alts =>
      if s.cache.any (G.same b) then .inl { s with alts := alts }
      else .inl ⟨b, G.next b, (s.node, alts) :: s.above, s.cache ++ [b]⟩

variable {G} {depth : N → ℕ} {s s' : Search N} {root a : N}

/-- If the node is any good, there is something good among its alternatives that are left. -/
def Open (G : Graph N) (a : N) (alts : List (Option N)) : Prop :=
  (∀ b, some b ∈ alts → some b ∈ G.next a) ∧
    (G.Good a → G.goal a ∨ ∃ b, some b ∈ alts ∧ G.Good b)

/-- The levels above a node lead to it, and what they have left aside is no good. -/
def Leads (G : Graph N) (root : N) : N → List (N × List (Option N)) → Prop
  | a, [] => a = root
  | a, (p, alts) :: above => some a ∈ G.next p ∧ (∀ b, some b ∈ alts → some b ∈ G.next p) ∧
      (G.Good p → G.Good a ∨ ∃ b, some b ∈ alts ∧ G.Good b) ∧ G.goal p = false ∧ Leads G root p above

structure Inv (G : Graph N) (root : N) (s : Search N) : Prop where
  left : Open G s.node s.alts
  leads : Leads G root s.node s.above
  cache : ∀ c ∈ s.cache, G.Good c → c = s.node ∨ c ∈ s.above.map Prod.fst

lemma inv_start (root : N) : Inv G root (start G root) := by
  refine ⟨⟨fun _ h => h, fun hgood => ?_⟩, rfl, fun c hc => absurd hc List.not_mem_nil⟩
  cases hgood with
  | goal h => exact Or.inl h
  | next h hb => exact Or.inr ⟨_, h, hb⟩

/-- What is good far down is good at the root. -/
lemma Leads.good {above : List (N × List (Option N))} (h : Leads G root a above) (ha : G.Good a) :
    G.Good root := by
  induction above generalizing a with
  | nil => exact h ▸ ha
  | cons l above ih => exact ih h.2.2.2.2 (.next h.1 ha)

lemma Leads.depth_le (hG : G.Layered depth) {above : List (N × List (Option N))}
    (h : Leads G root a above) {c : N} (hc : c ∈ above.map Prod.fst) : depth a ≤ depth c := by
  induction above generalizing a with
  | nil => exact absurd hc List.not_mem_nil
  | cons l above ih =>
    have hlt := hG.down h.1
    rcases List.mem_cons.1 hc with rfl | hc
    · exact hlt.le
    · exact hlt.le.trans (ih h.2.2.2.2 hc)

/-- An alternative that turns out to be no good is left aside. -/
lemma Open.skip {b : Option N} {alts : List (Option N)} (h : Open G a (b :: alts))
    (hb : ∀ c, b = some c → ¬ G.Good c) : Open G a alts := by
  refine ⟨fun c hc => h.1 c (List.mem_cons_of_mem _ hc), fun hgood => ?_⟩
  rcases h.2 hgood with hgoal | ⟨c, hc, hcgood⟩
  · exact Or.inl hgoal
  · rcases List.mem_cons.1 hc with hc | hc
    · exact absurd hcgood (hb c hc.symm)
    · exact Or.inr ⟨c, hc, hcgood⟩

/-- **A node that the cache knows is no good.** -/
lemma Inv.not_good_of_cached (hG : G.Layered depth) (hi : Inv G root s) {b c : N}
    (hb : some b ∈ G.next s.node) (hc : c ∈ s.cache) (hsame : G.same b c) : ¬ G.Good b := by
  intro hgood
  have hlt := hG.down hb
  have hlevel := hG.level hsame
  rcases hi.cache c hc ((hG.good hsame).1 hgood) with rfl | hmem
  · omega
  · have := hi.leads.depth_le hG hmem
    omega

/-- The turns that are left. -/
def measure (G : Graph N) (depth : N → ℕ) (s : Search N) : ℕ :=
  G.cost depth s.alts + (s.above.map fun l => 1 + G.cost depth l.2).sum

/-- **One turn.** -/
lemma Inv.turn (hG : G.Layered depth) (hi : Inv G root s) :
    (∃ s', s.turn G = .inl s' ∧ Inv G root s' ∧ measure G depth s' < measure G depth s) ∨
      ∃ r, s.turn G = .inr r ∧ (r = true ↔ G.Good root) := by
  obtain ⟨node, alts, above, cache⟩ := s
  unfold Search.turn
  dsimp only
  cases hgoal : G.goal node with
  | true => exact Or.inr ⟨true, rfl, by simp [hi.leads.good (.goal hgoal)]⟩
  | false =>
    rw [if_neg (by simp)]
    match alts, hi with
    | [], hi =>
      -- the node is done with
      have hbad : ¬ G.Good node := by
        intro hgood
        rcases hi.left.2 hgood with h | ⟨b, hb, -⟩
        · cases hgoal.symm.trans h
        · exact absurd hb List.not_mem_nil
      match above, hi with
      | [], hi => exact Or.inr ⟨false, rfl, by simp [show root = node from hi.leads.symm, hbad]⟩
      | (p, alts) :: above, hi =>
        obtain ⟨-, hsub, hleft, -, hleads⟩ := hi.leads
        refine Or.inl ⟨_, rfl, ⟨⟨hsub, fun hgood => ?_⟩, hleads, fun c hc hgood => ?_⟩, ?_⟩
        · exact Or.inr ((hleft hgood).resolve_left hbad)
        · rcases hi.cache c hc hgood with rfl | hmem
          · exact absurd hgood hbad
          · exact List.mem_cons.1 hmem
        · simp only [measure, List.map_cons, List.sum_cons]
          omega
    | none :: alts, hi =>
      refine Or.inl ⟨_, rfl, ⟨hi.left.skip (by rintro _ ⟨⟩), hi.leads, hi.cache⟩, ?_⟩
      simp only [measure, Graph.cost_cons]
      omega
    | some b :: alts, hi =>
      have hb : some b ∈ G.next node := hi.left.1 b List.mem_cons_self
      dsimp only
      cases hcached : cache.any (G.same b) with
      | true =>
        obtain ⟨c, hc, hsame⟩ := List.any_eq_true.1 hcached
        have hbad := hi.not_good_of_cached hG hb hc hsame
        refine Or.inl ⟨_, rfl, ⟨hi.left.skip ?_, hi.leads, hi.cache⟩, ?_⟩
        · rintro _ ⟨⟩
          exact hbad
        · simp only [measure, Graph.cost_cons]
          omega
      | false =>
        have hstart := (inv_start (G := G) b).left
        refine Or.inl ⟨_, rfl, ⟨hstart, ⟨hb, ?_, ?_, hgoal, hi.leads⟩, ?_⟩, ?_⟩
        · exact fun c hc => hi.left.1 c (List.mem_cons_of_mem _ hc)
        · intro hgood
          obtain h | ⟨c, hc, hcgood⟩ := hi.left.2 hgood
          · cases hgoal.symm.trans h
          · rcases List.mem_cons.1 hc with heq | hc
            · cases heq
              exact Or.inl hcgood
            · exact Or.inr ⟨c, hc, hcgood⟩
        · intro c hc hgood
          rcases List.mem_append.1 hc with hc | hc
          · exact Or.inr (List.mem_cons.2 (hi.cache c hc hgood))
          · exact Or.inl (List.mem_singleton.1 hc)
        · have := hG.cost_next_lt b
          simp only [measure, Graph.cost_cons, List.map_cons, List.sum_cons, Option.elim]
          omega

/-- **The search ends, and finds a goal if there is one.** -/
theorem loop_correct (hG : G.Layered depth) (root : N) : ∃ enough, ∀ fuel ≥ enough,
    ∃ r, loop (turn G) fuel (start G root) = some r ∧ (r = true ↔ G.Good root) := by
  refine ⟨G.cost depth (G.next root) + 1, fun fuel hfuel => ?_⟩
  refine loop_total (I := Inv G root) (measure G depth) (fun _ hi => hi.turn hG) (inv_start root) ?_
  simpa [measure, start] using hfuel

end Search

end RaftLabs.Lib
