import Mathlib.Data.Finmap
import Mathlib.Data.List.Sort

/-!
# Ranging over a map in any order

A loop over the entries of a map meets them in some order.  What it computes by inserting them into
another map, or by collecting and sorting them, does not depend on that order: it is the same
`Finmap`, or the same list.
-/

namespace RaftLabs.Lib

section Maps

variable {α : Type*} {β : α → Type*} [DecidableEq α] {a b : AList β} {l l' : List (Sigma β)}

/-- All the entries go into the map, one after the other. -/
def insertAll (l : List (Sigma β)) (a : AList β) : AList β :=
  l.foldl (fun a e => a.insert e.1 e.2) a

/-- All the keys leave the map. -/
def eraseAll (ks : List α) (a : AList β) : AList β := ks.foldl (fun a k => a.erase k) a

/-- Of entries with a key of their own each the map has all, and beside them what it had. -/
lemma lookup_insertAll (hl : l.NodupKeys) (x : α) :
    (insertAll l a).lookup x = (l.dlookup x).or (a.lookup x) := by
  induction l generalizing a with
  | nil => rfl
  | cons e l ih =>
    obtain ⟨hmem, hl⟩ := List.nodupKeys_cons.1 hl
    change (insertAll l (a.insert e.1 e.2)).lookup x = _
    rw [ih hl]
    by_cases hx : x = e.1
    · subst hx
      rw [AList.lookup_insert, List.dlookup_cons_eq, List.dlookup_eq_none.2 hmem]
      rfl
    · rw [AList.lookup_insert_ne hx, List.dlookup_cons_ne l e hx]

/-- **Inserting the entries of one map into another**, in any order. -/
lemma toFinmap_insertAll (hl : l.Perm l') (hn : l.NodupKeys) (h : a.toFinmap = b.toFinmap) :
    (insertAll l a).toFinmap = (insertAll l' b).toFinmap := by
  refine Finmap.ext_lookup fun x => ?_
  have hn' : l'.NodupKeys := (List.perm_nodupKeys hl).1 hn
  rw [Finmap.lookup_toFinmap, Finmap.lookup_toFinmap, lookup_insertAll hn, lookup_insertAll hn',
    List.perm_dlookup x hn hl, AList.perm_lookup (AList.toFinmap_eq.1 h)]

/-- A copy of the map, made entry by entry. -/
lemma toFinmap_insertAll_empty (hl : l.Perm a.entries) :
    (insertAll l ∅).toFinmap = a.toFinmap := by
  refine Finmap.ext_lookup fun x => ?_
  have hn : l.NodupKeys := (List.perm_nodupKeys hl).2 a.nodupKeys
  rw [Finmap.lookup_toFinmap, Finmap.lookup_toFinmap, lookup_insertAll hn,
    List.perm_dlookup x hn hl]
  exact Option.or_none

lemma toFinmap_eraseAll (ks : List α) (h : a.toFinmap = b.toFinmap) :
    (eraseAll ks a).toFinmap = (eraseAll ks b).toFinmap := by
  induction ks generalizing a b with
  | nil => exact h
  | cons k ks ih =>
    refine ih ?_
    rw [← Finmap.erase_toFinmap, ← Finmap.erase_toFinmap, h]

omit [DecidableEq α] in
lemma keys_perm_of_toFinmap (h : a.toFinmap = b.toFinmap) : a.keys.Perm b.keys :=
  (AList.toFinmap_eq.1 h).map Sigma.fst

end Maps

/-- **Collecting in any order and then sorting.** -/
lemma sort_map_of_perm {α γ : Type*} [LinearOrder α] {l l' : List α} (h : l.Perm l') (f : α → γ) :
    ((l.map fun x => (x, f x)).insertionSort fun v w => v.1 ≤ w.1) =
      (l'.insertionSort (· ≤ ·)).map fun x => (x, f x) := by
  rw [← List.map_insertionSort (· ≤ ·) (fun v w : α × γ => v.1 ≤ w.1) _ l fun _ _ _ _ => Iff.rfl]
  have hperm : (l.insertionSort (· ≤ ·)).Perm (l'.insertionSort (· ≤ ·)) :=
    ((List.perm_insertionSort _ l).trans h).trans (List.perm_insertionSort _ l').symm
  rw [hperm.eq_of_pairwise' (List.pairwise_insertionSort _ l) (List.pairwise_insertionSort _ l')]

end RaftLabs.Lib
