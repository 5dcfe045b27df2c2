import RaftLabs.Porcupine.Points

/-!
# The checker in step with the search

`checkSingle` goes in step with the search of `RaftLabs.Lib.Search` among the points (`InStep.turn`): its
linked list holds what remains at the point, `unlift` brings back the list as it was before the `lift`, and
the cache answers as if it were the list of the points entered.
-/

namespace RaftLabs.Porcupine

open Lib

variable {S I O : Type} {model : Model S I O} {nodes : ℕ → Node (I ⊕ O)} {len n words : ℕ}
variable {pt pt' : Point S} {p m : ℕ} {linearized : Finset ℕ} {h : Links ℕ}

/-! ### The linked list -/

/-- What is left when a call is taken: all but the call and, behind it, its return. -/
lemma Paired.remaining_split (hn : Paired nodes len n) (hp : p ∈ remaining nodes len linearized)
    (hm : (nodes p).matching = some m) : ∃ l₁ r₁ r₂,
      remaining nodes len linearized = l₁ ++ p :: (r₁ ++ m :: r₂) ∧
        remaining nodes len (insert (nodes p).id linearized) = l₁ ++ r₁ ++ r₂ := by
  obtain ⟨hpm, hmem, -⟩ := hn.ret_mem hp hm
  have hids : ∀ q ∈ remaining nodes len linearized, (nodes q).id = (nodes p).id → q = p ∨ q = m :=
    fun q hq => hn.eq_or_eq (mem_remaining.1 hp).1 hm (mem_remaining.1 hq).1
  have hidm : (nodes m).id = (nodes p).id := (hn.ret p (mem_remaining.1 hp).1 m hm).2.2.2
  have hsorted := pairwise_remaining nodes len linearized
  have hnd : (remaining nodes len linearized).Nodup := nodup_remaining
  obtain ⟨l₁, r, hrem⟩ := List.append_of_mem hp
  rw [remaining_insert]
  rw [hrem] at hmem hsorted hids hnd ⊢
  have hmr : m ∈ r := by
    rcases List.mem_append.1 hmem with hml | hmr
    · have := (List.pairwise_append.1 hsorted).2.2 m hml p List.mem_cons_self
      omega
    · rcases List.mem_cons.1 hmr with rfl | hmr
      · exact absurd hpm (lt_irrefl _)
      · exact hmr
  obtain ⟨r₁, r₂, rfl⟩ := List.append_of_mem hmr
  refine ⟨l₁, r₁, r₂, rfl, ?_⟩
  have hkeep : ∀ l : List ℕ, (∀ q ∈ l, q ∈ l₁ ++ p :: (r₁ ++ m :: r₂) ∧ q ≠ p ∧ q ≠ m) →
      l.filter (fun q => (nodes q).id ≠ (nodes p).id) = l := by
    intro l hq
    refine List.filter_eq_self.2 fun q hmem => ?_
    obtain ⟨hin, hqp, hqm⟩ := hq q hmem
    simpa using fun hid => (hids q hin hid).elim hqp hqm
  simp only [List.nodup_cons, List.nodup_append, List.mem_cons, List.mem_append] at hnd
  rw [List.filter_append, List.filter_cons_of_neg (by simp), List.filter_append,
    List.filter_cons_of_neg (by simp [hidm]), hkeep l₁, hkeep r₁, hkeep r₂, List.append_assoc]
  all_goals
    intro q hq
    refine ⟨by simp [hq], ?_⟩
    grind

/-- **A call is taken out**, and can be put back. -/
lemma Paired.lift (hn : Paired nodes len n) (hl : h.Linked (len :: remaining nodes len linearized))
    (hp : p ∈ remaining nodes len linearized) (hm : (nodes p).matching = some m) :
    ∃ h', lift nodes h p = some h' ∧
      h'.Linked (len :: remaining nodes len (insert (nodes p).id linearized)) ∧
      unlift nodes h' p = some h := by
  have hnd : (len :: remaining nodes len linearized).Nodup :=
    List.nodup_cons.2 ⟨fun h => absurd (mem_remaining.1 h).1 (lt_irrefl _), nodup_remaining⟩
  obtain ⟨l₁, r₁, r₂, hrem, hrem'⟩ := hn.remaining_split hp hm
  rw [hrem] at hl hnd
  rw [hrem']
  obtain ⟨h₁, hun₁, hl₁, hre₁, hframe⟩ := Links.Linked.unlink (len :: l₁) hl hnd (by simp)
  have hnd₁ : (len :: l₁ ++ r₁ ++ m :: r₂).Nodup := by
    refine hnd.sublist ?_
    rw [List.append_assoc]
    exact (List.Sublist.append_left (List.sublist_cons_self _ _) _).cons_cons _
  have hl₁' : h₁.Linked (len :: l₁ ++ r₁ ++ m :: r₂) := by rwa [List.append_assoc]
  obtain ⟨h₂, hun₂, hl₂, hre₂, -⟩ := hl₁'.unlink _ hnd₁ (by simp)
  -- the call still knows what was behind it, so that `unlift` does not panic
  obtain ⟨q, hq⟩ : ∃ q, h.next p = some q := by
    rw [Links.Linked.next_eq (len :: l₁) hl]
    cases r₁ <;> exact ⟨_, rfl⟩
  have hq₁ : h₁.next p = some q := by
    rw [hframe p ?_, hq]
    simp only [List.nodup_cons, List.nodup_append, List.mem_cons, List.mem_append] at hnd ⊢
    grind
  refine ⟨h₂, ?_, by simpa using hl₂, ?_⟩
  · simp only [Porcupine.lift, hq, hun₁, hm, hun₂, Option.bind_eq_bind, Option.bind_some]
  · simp only [unlift, hm, hre₂, hq₁, hre₁, Option.bind_eq_bind, Option.bind_some]

/-! ### The cache -/

/-- The cache has these points. -/
structure Caches (words : ℕ) (cache : BitVec 64 → List (CacheEntry S)) (pts : List (Point S)) : Prop where
  of_mem : ∀ hash, ∀ e ∈ cache hash, ∃ pt ∈ pts, e.linearized.Holds words pt.linearized ∧
    e.state = pt.state
  mem : ∀ pt ∈ pts, ∃ e ∈ cache (Bitset.hash e.linearized), e.linearized.Holds words pt.linearized ∧
    e.state = pt.state

section Cache

variable {cache : BitVec 64 → List (CacheEntry S)} {pts : List (Point S)} {e : CacheEntry S}
variable (hc : Caches words cache pts) (he : e.linearized.Holds words pt.linearized)
  (hs : e.state = pt.state)
include hc he hs

variable (model nodes len) in
lemma Caches.contains :
    cacheContains model cache e = pts.any ((graph model nodes len).same pt) := by
  rw [Bool.eq_iff_iff]
  unfold cacheContains
  simp only [List.any_eq_true, graph, Bool.and_eq_true]
  constructor
  · rintro ⟨e', hmem, hlin, hequal⟩
    obtain ⟨pt', hpt', he', hs'⟩ := hc.of_mem _ e' hmem
    exact ⟨pt', hpt', (he.equals he').symm.trans hlin, by rwa [← hs, ← hs']⟩
  · rintro ⟨pt', hpt', hlin, hequal⟩
    obtain ⟨e', hmem, he', hs'⟩ := hc.mem pt' hpt'
    have heq : e.linearized.equals e'.linearized = true := (he.equals he').trans hlin
    have hwords : e.linearized = e'.linearized := by simpa [Bitset.equals] using heq
    exact ⟨e', hwords ▸ hmem, heq, by rwa [hs, hs']⟩

lemma Caches.add : Caches words
    (Function.update cache e.linearized.hash (cache e.linearized.hash ++ [e])) (pts ++ [pt]) := by
  refine ⟨fun hash e' he' => ?_, fun pt' hpt' => ?_⟩
  · by_cases hhash : hash = e.linearized.hash
    · subst hhash
      rw [Function.update_self] at he'
      rcases List.mem_append.1 he' with hmem | hmem
      · obtain ⟨pt', hpt', h⟩ := hc.of_mem _ e' hmem
        exact ⟨pt', List.mem_append_left _ hpt', h⟩
      · cases List.mem_singleton.1 hmem
        exact ⟨pt, List.mem_append_right _ List.mem_cons_self, he, hs⟩
    · rw [Function.update_of_ne hhash] at he'
      obtain ⟨pt', hpt', h⟩ := hc.of_mem _ e' he'
      exact ⟨pt', List.mem_append_left _ hpt', h⟩
  · rcases List.mem_append.1 hpt' with hmem | hmem
    · obtain ⟨e', he', h⟩ := hc.mem pt' hmem
      refine ⟨e', ?_, h⟩
      by_cases hhash : e'.linearized.hash = e.linearized.hash
      · rw [hhash, Function.update_self, ← hhash]
        exact List.mem_append_left _ he'
      · rwa [Function.update_of_ne hhash]
    · cases List.mem_singleton.1 hmem
      refine ⟨e, ?_, he, hs⟩
      rw [Function.update_self]
      exact List.mem_append_right _ List.mem_cons_self

end Cache

/-! ### In step with the search -/

variable (model nodes len) in
/-- The checker is at a point, and has looked at the calls before `entry`. -/
structure At (links : Links ℕ) (entry : Option ℕ) (state : S) (pt : Point S)
    (alts : List (Option (Point S))) : Prop where
  linked : links.Linked (len :: remaining nodes len pt.linearized)
  state : state = pt.state
  scan : ∃ done rest, remaining nodes len pt.linearized = done ++ rest ∧
    (∀ q ∈ done, (nodes q).matching ≠ none) ∧ entry = rest.head? ∧
    alts = alternatives model nodes pt rest

variable (model nodes len n) in
/-- The calls lead back through the points above. -/
def Returns : Links ℕ → Point S → List (ℕ × S) → List (Point S × List (Option (Point S))) → Prop
  | _, _, [], [] => True
  | links, pt, (p, state) :: calls, (pt', alts) :: above =>
    (nodes p).id < n ∧ (nodes p).id ∉ pt'.linearized ∧
      pt.linearized = insert (nodes p).id pt'.linearized ∧
      ∃ links', unlift nodes links p = some links' ∧
        At model nodes len links' (links'.next p) state pt' alts ∧ Returns links' pt' calls above
  | _, _, _, _ => False

/-- There is a call to put back for every point above. -/
lemma Returns.cases {calls : List (ℕ × S)} {above : List (Point S × List (Option (Point S)))}
    (hback : Returns model nodes len n h pt calls above) : calls = [] ∧ above = [] ∨
      ∃ p state calls' pt' alts above', calls = (p, state) :: calls' ∧ above = (pt', alts) :: above' ∧
        Returns model nodes len n h pt ((p, state) :: calls') ((pt', alts) :: above') := by
  cases calls with
  | nil =>
    cases above with
    | nil => exact Or.inl ⟨rfl, rfl⟩
    | cons l above => exact hback.elim
  | cons call calls =>
    cases above with
    | nil => exact hback.elim
    | cons l above => exact Or.inr ⟨_, _, _, _, _, _, rfl, rfl, hback⟩

variable (model nodes len n) in
/-- The checker is where the search is. -/
structure InStep (c : Checking S) (s : Search (Point S)) : Prop where
  here : At model nodes len c.links c.entry c.state s.node s.alts
  holds : c.linearized.Holds (newBitset n).length s.node.linearized
  cache : Caches (newBitset n).length c.cache s.cache
  back : Returns model nodes len n c.links s.node c.calls s.above

/-- At a new point the checker is at the first entry. -/
lemma at_start {links : Links ℕ} (hl : links.Linked (len :: remaining nodes len pt.linearized)) :
    At model nodes len links (links.next len) pt.state pt ((graph model nodes len).next pt) :=
  ⟨hl, rfl, [], _, rfl, by simp, Links.Linked.next_eq [] hl, rfl⟩

variable (model) in
/-- The entry behind a call is the next to look at. -/
lemma at_next {links : Links ℕ} {done rest : List ℕ}
    (hl : links.Linked (len :: remaining nodes len pt.linearized))
    (hrem : remaining nodes len pt.linearized = done ++ p :: rest)
    (hdone : ∀ q ∈ done, (nodes q).matching ≠ none) (hp : (nodes p).matching = some m) :
    At model nodes len links (links.next p) pt.state pt (alternatives model nodes pt rest) := by
  refine ⟨hl, rfl, done ++ [p], rest, by simp [hrem], fun q hq => ?_, ?_, rfl⟩
  · rcases List.mem_append.1 hq with hq | hq
    · exact hdone q hq
    · cases List.mem_singleton.1 hq
      simp [hp]
  · rw [hrem] at hl
    exact Links.Linked.next_eq (len :: done) hl

/-- There is a return behind every call. -/
lemma Paired.rest_ne_nil (hn : Paired nodes len n) {done rest : List ℕ}
    (hrem : remaining nodes len linearized = done ++ rest)
    (hdone : ∀ q ∈ done, (nodes q).matching ≠ none) (hne : remaining nodes len linearized ≠ []) :
    rest ≠ [] := by
  rintro rfl
  rw [List.append_nil] at hrem
  obtain ⟨q, hq⟩ := List.exists_mem_of_ne_nil _ hne
  obtain ⟨m, hm⟩ := Option.ne_none_iff_exists'.1 (hdone q (hrem ▸ hq))
  obtain ⟨-, hmem, hnone⟩ := hn.ret_mem hq hm
  exact hdone m (hrem ▸ hmem) hnone

/-! The loop, case by case. -/

section Turn

variable {c : Checking S} {computePartial : Bool}

lemma turn?_done (hhead : c.links.next len = none) :
    turn? model nodes len computePartial c = .inr (some (true, fun _ => some (c.seq nodes))) := by
  simp [turn?, turn, hhead]

section Call

variable (hhead : c.links.next len ≠ none) (hentry : c.entry = some p)
  (hm : (nodes p).matching = some m)
include hhead hentry hm

lemma turn?_reject {state : S}
    (hok : model.stepOn c.state (nodes p).value (nodes m).value = some (false, state)) :
    turn? model nodes len computePartial c = .inl { c with entry := c.links.next p } := by
  simp [turn?, turn, hhead, hentry, hm, hok]

variable {b : Bitset} {state : S}
  (hok : model.stepOn c.state (nodes p).value (nodes m).value = some (true, state))
  (hset : c.linearized.set (nodes p).id = some b)
include hok hset

lemma turn?_cached (hcached : cacheContains model c.cache ⟨b, state⟩ = true) :
    turn? model nodes len computePartial c = .inl { c with entry := c.links.next p } := by
  simp [turn?, turn, hhead, hentry, hm, hok, hset, hcached]

lemma turn?_take (hcached : cacheContains model c.cache ⟨b, state⟩ = false)
    (hlift : lift nodes c.links p = some h) :
    turn? model nodes len computePartial c = .inl
      { c with
        cache := Function.update c.cache b.hash (c.cache b.hash ++ [⟨b, state⟩])
        calls := (p, c.state) :: c.calls
        state := state
        linearized := b
        links := h
        entry := h.next len } := by
  simp [turn?, turn, hhead, hentry, hm, hok, hset, hcached, hlift]

end Call

section Return

variable (hhead : c.links.next len ≠ none) (hentry : c.entry = some m)
  (hm : (nodes m).matching = none)
include hhead hentry hm

lemma turn?_fail (hcalls : c.calls = []) :
    turn? model nodes len computePartial c = .inr (some (false, c.longest)) := by
  simp [turn?, turn, hhead, hentry, hm, hcalls]

lemma turn?_back {b : Bitset} {state : S} {calls : List (ℕ × S)} (hcalls : c.calls = (p, state) :: calls)
    (hclear : c.linearized.clear (nodes p).id = some b) (hunlift : unlift nodes c.links p = some h) :
    turn? model nodes len computePartial c = .inl
      { c with
        longest := if computePartial then c.prolong nodes else c.longest
        state := state
        linearized := b
        calls := calls
        links := h
        entry := h.next p } := by
  simp [turn?, turn, hhead, hentry, hm, hcalls, hclear, hunlift]

end Return

end Turn

/-- **One turn of the loop is one turn of the search.** -/
theorem InStep.turn (hn : Paired nodes len n) (computePartial : Bool) {c : Checking S}
    {s : Search (Point S)} (hi : InStep model nodes len n c s) :
    (∃ c' s', turn? model nodes len computePartial c = .inl c' ∧
        s.turn (graph model nodes len) = .inl s' ∧ InStep model nodes len n c' s') ∨
      ∃ answer found, turn? model nodes len computePartial c = .inr answer ∧
        s.turn (graph model nodes len) = .inr found ∧ answer.map Prod.fst = some found := by
  obtain ⟨⟨hl, hstate, done, rest, hrem, hdone, hentry, halts⟩, hholds, hcache, hback⟩ := hi
  obtain ⟨pt, alts, above, pts⟩ := s
  dsimp only at hl hstate hrem halts hholds hcache hback
  have hhead : c.links.next len = (remaining nodes len pt.linearized).head? :=
    Links.Linked.next_eq [] hl
  by_cases hnil : remaining nodes len pt.linearized = []
  · -- all calls have been taken
    have hgoal : (graph model nodes len).goal pt = true := by simp [graph, hnil]
    refine Or.inr ⟨_, true, turn?_done (by simp [hhead, hnil]), ?_, rfl⟩
    simp [Search.turn, hgoal]
  have hgoal : (graph model nodes len).goal pt = false := by simpa [graph] using hnil
  have hsome : c.links.next len ≠ none := by simpa [hhead] using hnil
  cases rest with
  | nil => exact absurd rfl (hn.rest_ne_nil hrem hdone hnil)
  | cons p rest =>
    have hp : p ∈ remaining nodes len pt.linearized := by simp [hrem]
    have hid : (nodes p).id < n := hn.id_lt p (mem_remaining.1 hp).1
    cases hm : (nodes p).matching with
    | none =>
      have halts : alts = [] := by simpa [alternatives, hm] using halts
      subst halts
      rcases hback.cases with ⟨hcalls, rfl⟩ | ⟨q, state, calls, pt', alts, above, hcalls, rfl, hlast⟩
      · exact Or.inr ⟨_, false, turn?_fail hsome hentry hm hcalls, by simp [Search.turn, hgoal], rfl⟩
      · -- the last call is put back
        obtain ⟨hqid, hnotin, hlin, links', hun, hat, hback⟩ := hlast
        obtain ⟨b, hclear, hb⟩ := hholds.clear (Bitset.div_lt_newBitset hqid)
        rw [hlin, Finset.erase_insert hnotin] at hb
        refine Or.inl ⟨_, ⟨pt', alts, above, pts⟩, turn?_back hsome hentry hm hcalls hclear hun, ?_,
          hat, hb, hcache, hback⟩
        simp [Search.turn, hgoal]
    | some m =>
      have hnext := at_next model hl hrem hdone hm
      have halts : alts = child model nodes pt p m :: alternatives model nodes pt rest := by
        simpa [alternatives, hm] using halts
      subst halts
      rw [← hstate] at hnext
      obtain ⟨⟨ok, state⟩, hstep⟩ :
          ∃ r, model.stepOn c.state (nodes p).value (nodes m).value = some r := by
        obtain ⟨input, output, hin, hout⟩ := hn.typed p (mem_remaining.1 hp).1 m hm
        rw [hin, hout]
        exact ⟨_, rfl⟩
      cases ok with
      | false =>
        have hchild : child model nodes pt p m = none := by simp [child, ← hstate, hstep]
        refine Or.inl ⟨_, ⟨pt, _, above, pts⟩, turn?_reject hsome hentry hm hstep, ?_,
          hnext, hholds, hcache, hback⟩
        simp [Search.turn, hgoal, hchild]
      | true =>
        obtain ⟨next, hchild, hlin, rfl⟩ : ∃ next, child model nodes pt p m = some next ∧
            next.linearized = insert (nodes p).id pt.linearized ∧ next.state = state :=
          ⟨⟨_, state⟩, by simp [child, ← hstate, hstep], rfl, rfl⟩
        obtain ⟨b, hset, hb⟩ := hholds.set (Bitset.div_lt_newBitset hid)
        rw [← hlin] at hb
        have hcontains := hcache.contains model nodes len (e := ⟨b, next.state⟩) hb rfl
        cases hcached : cacheContains model c.cache ⟨b, next.state⟩ with
        | true =>
          refine Or.inl ⟨_, ⟨pt, _, above, pts⟩, turn?_cached hsome hentry hm hstep hset hcached, ?_,
            hnext, hholds, hcache, hback⟩
          simp only [Search.turn, hgoal, hchild, ← hcontains, hcached]
          rfl
        | false =>
          -- the call is taken
          obtain ⟨links', hlift, hl', hunlift⟩ := hn.lift hl hp hm
          rw [← hlin] at hl'
          refine Or.inl ⟨_, ⟨next, _, (pt, _) :: above, pts ++ [next]⟩,
            turn?_take hsome hentry hm hstep hset hcached hlift, ?_,
            at_start hl', hb, hcache.add (e := ⟨b, next.state⟩) hb rfl, hid, (mem_remaining.1 hp).2, hlin,
            c.links, hunlift, hnext, hback⟩
          simp only [Search.turn, hgoal, hchild, ← hcontains, hcached]
          rfl

end RaftLabs.Porcupine
