import RaftLabs.Lib.Links
import RaftLabs.Lib.Search

/-!
# The checker of porcupine

The linearizability checker that the tests of the labs use (`porcupine/checker.go`, `bitset.go`).
`checkSingle` goes through the entries of a history, which stand in a doubly linked list: it takes calls
out, with their returns, in an order that the model allows, and puts the last one back when it meets the
return of a call that it has not taken.  A cache keeps the sets of calls taken, with the state of the
model, that it has been at.

A node is named by the place of its entry in the history.  The flag `kill`, by which a checker of another
partition stops this one, is not set.
-/

namespace RaftLabs.Porcupine

open Lib

/-! ### Sets of small numbers -/

/-- Bits `0` to `63` are in the first word, the next in the second, and so on. -/
abbrev Bitset := List (BitVec 64)

def newBitset (bits : ℕ) : Bitset :=
  List.replicate (bits / 64 + if bits % 64 ≠ 0 then 1 else 0) 0

def bitsetIndex (pos : ℕ) : ℕ × ℕ := (pos / 64, pos % 64)

namespace Bitset

/-- A word of the set is changed; beyond the last one the access panics. -/
def update (b : Bitset) (pos : ℕ) (f : BitVec 64 → BitVec 64 → BitVec 64) : Option Bitset :=
  let (major, minor) := bitsetIndex pos
  if major < b.length then some (b.modify major fun word => f word (1#64 <<< minor)) else none

def set (b : Bitset) (pos : ℕ) : Option Bitset := b.update pos fun word bit => word ||| bit

def clear (b : Bitset) (pos : ℕ) : Option Bitset := b.update pos fun word bit => word &&& ~~~bit

def popcnt (b : Bitset) : ℕ := (b.map fun word => word.cpop.toNat).sum

def hash (b : Bitset) : BitVec 64 := b.foldl (· ^^^ ·) (BitVec.ofNat 64 b.popcnt)

def equals (b b2 : Bitset) : Bool := b == b2

def get (b : Bitset) (pos : ℕ) : Bool := (b[pos / 64]?.getD 0).getLsbD (pos % 64)

/-- The set has so many words, and these elements. -/
structure Holds (words : ℕ) (b : Bitset) (elements : Finset ℕ) : Prop where
  length : b.length = words
  mem : ∀ pos, b.get pos = decide (pos ∈ elements)

variable {words : ℕ} {b b2 : Bitset} {elements elements2 : Finset ℕ} {pos : ℕ}

lemma holds_newBitset (n : ℕ) : Holds (newBitset n).length (newBitset n) ∅ := by
  refine ⟨rfl, fun pos => ?_⟩
  unfold get newBitset
  generalize n / 64 + _ = words
  rw [List.getElem?_replicate]
  split <;> simp

lemma div_lt_newBitset {n : ℕ} (h : pos < n) : pos / 64 < (newBitset n).length := by
  unfold newBitset
  rw [List.length_replicate]
  split <;> omega

/-- What a word becomes is what its bits become. -/
lemma Holds.update (h : Holds words b elements) (hpos : pos / 64 < words)
    {f : BitVec 64 → BitVec 64 → BitVec 64} {elements' : Finset ℕ}
    (hf : ∀ word i, i < 64 → (f word (1#64 <<< (pos % 64))).getLsbD i =
      if pos % 64 = i then decide (pos ∈ elements') else word.getLsbD i)
    (helse : ∀ q ≠ pos, q ∈ elements' ↔ q ∈ elements) :
    ∃ b', b.update pos f = some b' ∧ Holds words b' elements' := by
  unfold Bitset.update bitsetIndex
  dsimp only
  rw [if_pos (h.length ▸ hpos)]
  refine ⟨_, rfl, (List.length_modify ..).trans h.length, fun q => ?_⟩
  have hq := h.mem q
  unfold get at hq ⊢
  rw [List.getElem?_modify]
  by_cases hmajor : pos / 64 = q / 64
  · obtain ⟨word, hword⟩ : ∃ word, b[q / 64]? = some word :=
      ⟨_, List.getElem?_eq_getElem (by rw [h.length, ← hmajor]; exact hpos)⟩
    rw [hword] at hq ⊢
    simp only [hmajor, if_true, Option.map_eq_map, Option.map_some, Option.getD_some] at hq ⊢
    rw [hf word _ (Nat.mod_lt _ (by decide))]
    split
    · rw [show pos = q by omega]
    · rw [hq]
      simp only [helse q (by rintro rfl; contradiction)]
  · simp only [hmajor, if_false, Option.map_eq_map, Option.map_id']
    rw [hq]
    simp only [helse q (by rintro rfl; exact hmajor rfl)]

lemma Holds.set (h : Holds words b elements) (hpos : pos / 64 < words) :
    ∃ b', b.set pos = some b' ∧ Holds words b' (insert pos elements) := by
  refine h.update hpos (fun word i hi => ?_) fun q hq => by simp [hq]
  simp only [BitVec.getLsbD_or, BitVec.getLsbD_shiftLeft, BitVec.getLsbD_one]
  grind

lemma Holds.clear (h : Holds words b elements) (hpos : pos / 64 < words) :
    ∃ b', b.clear pos = some b' ∧ Holds words b' (elements.erase pos) := by
  refine h.update hpos (fun word i hi => ?_) fun q hq => by simp [hq]
  simp only [BitVec.getLsbD_and, BitVec.getLsbD_not, BitVec.getLsbD_shiftLeft, BitVec.getLsbD_one]
  grind

/-- Sets with the same elements are the same words. -/
lemma Holds.equals (h : Holds words b elements) (h2 : Holds words b2 elements2) :
    b.equals b2 = decide (elements = elements2) := by
  have hiff : b = b2 ↔ elements = elements2 := by
    refine ⟨?_, ?_⟩
    · rintro rfl
      ext pos
      have := (h.mem pos).symm.trans (h2.mem pos)
      simpa using this
    · rintro rfl
      refine List.ext_getElem (h.length.trans h2.length.symm) fun k hk hk2 => ?_
      refine BitVec.eq_of_getLsbD_eq fun i hi => ?_
      have := (h.mem (64 * k + i)).trans (h2.mem (64 * k + i)).symm
      unfold get at this
      rw [show (64 * k + i) / 64 = k by omega, show (64 * k + i) % 64 = i by omega,
        List.getElem?_eq_getElem hk, List.getElem?_eq_getElem hk2] at this
      exact this
  unfold Bitset.equals
  rw [beq_eq_decide]
  simp only [hiff]

end Bitset

/-! ### Histories -/

inductive EntryKind
  | callEntry
  | returnEntry
  deriving DecidableEq

/-- A call with its input or a return with its output. -/
structure Entry (V : Type*) where
  kind : EntryKind
  value : V
  id : ℕ
  time : ℤ

/-- A call with its return, as the tests record it. -/
structure Operation (I O : Type*) where
  input : I
  call : ℤ
  output : O
  returned : ℤ
  deriving Inhabited

/-- The specification of the system under test, in which nothing is left to `fillDefault`. -/
structure Model (S I O : Type*) where
  partition : List (Operation I O) → List (List (Operation I O))
  init : S
  step : S → I → O → Bool × S
  equal : S → S → Bool

/-- `Step` with values of entries.  A model asserts that they are an input and an output, and panics on
others. -/
def Model.stepOn {S I O : Type*} (model : Model S I O) (state : S) : I ⊕ O → I ⊕ O → Option (Bool × S)
  | .inl input, .inr output => some (model.step state input output)
  | _, _ => none

/-- The fields of a node that stay; `matching` is the return of a call. -/
structure Node (V : Type*) where
  value : V
  matching : Option ℕ
  id : ℕ

section Linked

variable {V : Type*} [Inhabited V]

def insertBefore (h : Links ℕ) (n : ℕ) (mark : Option ℕ) : Links ℕ :=
  match mark with
  | none => h
  | some mark =>
    let h' := (h.setPrev mark (some n)).setNext n (some mark)
    match h.prev mark with
    | none => h'
    | some beforeMark => (h'.setPrev n (some beforeMark)).setNext beforeMark (some n)

/-- What `makeLinkedEntries` has made so far. -/
structure Made (V : Type*) where
  nodes : ℕ → Node V
  links : Links ℕ
  root : Option ℕ
  matchOf : ℕ → Option ℕ

/-- The entries from place `i` on, made from the last one to the first. -/
def makeLinkedEntries : ℕ → List (Entry V) → Made V
  | _, [] => ⟨fun _ => ⟨default, none, 0⟩, ⟨fun _ => none, fun _ => none⟩, none, fun _ => none⟩
  | i, elem :: entries =>
    let made := makeLinkedEntries (i + 1) entries
    match elem.kind with
    | .returnEntry =>
      { nodes := Function.update made.nodes i ⟨elem.value, none, elem.id⟩
        links := insertBefore made.links i made.root
        root := some i
        matchOf := Function.update made.matchOf elem.id (some i) }
    | .callEntry =>
      { made with
        nodes := Function.update made.nodes i ⟨elem.value, made.matchOf elem.id, elem.id⟩
        links := insertBefore made.links i made.root
        root := some i }

end Linked

/-! ### The search -/

section Check

variable {S I O : Type} (model : Model S I O) (nodes : ℕ → Node (I ⊕ O))

structure CacheEntry (S : Type*) where
  linearized : Bitset
  state : S

def cacheContains (cache : BitVec 64 → List (CacheEntry S)) (entry : CacheEntry S) : Bool :=
  (cache entry.linearized.hash).any fun elem =>
    entry.linearized.equals elem.linearized && model.equal entry.state elem.state

/-- A call is taken out of the list, and its return; without a node behind the call this panics. -/
def lift (h : Links ℕ) (entry : ℕ) : Option (Links ℕ) := do
  let _ ← h.next entry
  let h ← h.unlink entry
  let matching ← (nodes entry).matching
  h.unlink matching

def unlift (h : Links ℕ) (entry : ℕ) : Option (Links ℕ) := do
  let matching ← (nodes entry).matching
  let h ← h.relink matching
  let _ ← h.next entry
  h.relink entry

/-- The variables of `checkSingle`, with the last of the calls first. -/
structure Checking (S : Type*) where
  links : Links ℕ
  entry : Option ℕ
  state : S
  linearized : Bitset
  cache : BitVec 64 → List (CacheEntry S)
  calls : List (ℕ × S)
  longest : ℕ → Option (List ℕ)

/-- Whether the history is linearizable, and the longest linearization found for each call. -/
abbrev Answer := Bool × (ℕ → Option (List ℕ))

/-- The calls in the order in which they were taken. -/
def Checking.seq (c : Checking S) : List ℕ := (c.calls.map fun v => (nodes v.1).id).reverse

/-- The calls are the longest linearization for those of them that have no longer one. -/
def Checking.prolong (c : Checking S) : ℕ → Option (List ℕ) := fun id =>
  if id ∈ c.seq nodes ∧ ∀ seq ∈ c.longest id, seq.length < c.calls.length then some (c.seq nodes)
  else c.longest id

/-- One turn of the loop of `checkSingle`, where `none` is a panic. -/
def turn (head : ℕ) (computePartial : Bool) (c : Checking S) : Option (Checking S ⊕ Answer) :=
  if c.links.next head = none then some (.inr (true, fun _ => some (c.seq nodes)))
  else do
    let entry ← c.entry
    match (nodes entry).matching with
    | some matching =>
      let (ok, newState) ← model.stepOn c.state (nodes entry).value (nodes matching).value
      if ok then
        let newLinearized ← c.linearized.set (nodes entry).id
        let newCacheEntry := ⟨newLinearized, newState⟩
        if cacheContains model c.cache newCacheEntry then
          some (.inl { c with entry := c.links.next entry })
        else
          let hash := newLinearized.hash
          let links ← lift nodes c.links entry
          some (.inl
            { c with
              cache := Function.update c.cache hash (c.cache hash ++ [newCacheEntry])
              calls := (entry, c.state) :: c.calls
              state := newState
              linearized := newLinearized
              links := links
              entry := links.next head })
      else some (.inl { c with entry := c.links.next entry })
    | none =>
      match c.calls with
      | [] => some (.inr (false, c.longest))
      | (entry, state) :: calls =>
        let linearized ← c.linearized.clear (nodes entry).id
        let links ← unlift nodes c.links entry
        some (.inl
          { c with
            longest := if computePartial then c.prolong nodes else c.longest
            state := state
            linearized := linearized
            calls := calls
            links := links
            entry := links.next entry })

/-- The loop goes on, ends with an answer, or with a panic. -/
def turn? (head : ℕ) (computePartial : Bool) (c : Checking S) : Checking S ⊕ Option Answer :=
  match turn model nodes head computePartial c with
  | none => .inr none
  | some (.inl c) => .inl c
  | some (.inr answer) => .inr (some answer)

variable [Inhabited I]

instance instInhabitedSum : Inhabited (I ⊕ O) := Sum.inhabitedLeft

/-- The answer on the entries of a history, if the loop ends within `fuel` turns and does not panic. -/
def checkSingle (fuel : ℕ) (history : List (Entry (I ⊕ O))) (computePartial : Bool) : Option Answer :=
  let made := makeLinkedEntries 0 history
  let n := made.links.length (history.length + 1) made.root / 2
  let headEntry := history.length
  (loop (turn? model made.nodes headEntry computePartial) fuel
    { links := insertBefore made.links headEntry made.root
      entry := made.root
      state := model.init
      linearized := newBitset n
      cache := fun _ => []
      calls := []
      longest := fun _ => none }).join

end Check

end RaftLabs.Porcupine
