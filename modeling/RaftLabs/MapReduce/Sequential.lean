import RaftLabs.Lib.Grouping
import RaftLabs.MapReduce.Worker

/-!
# Sequential MapReduce

`main/mrsequential.go`, and the loop with two indices that it shares with `ProcessReduceTask`.  On
sorted pairs the loop prints one line for each key, for all values of the key, so that what is
printed does not depend on the order in which the pairs came (`reduceLoop_sort`).
-/

namespace RaftLabs.MapReduce

open Lib Lib.Grouping

/-! ### The loop over the sorted pairs -/

/-- The inner loop: the first index from `j` on where there is another key. -/
def runEnd (kva : List KeyValue) (key : GoString) (j : ℕ) : ℕ :=
  if h : j < kva.length then
    if kva[j].key = key then runEnd kva key (j + 1) else j
  else j
termination_by kva.length - j

lemma le_runEnd (kva : List KeyValue) (key : GoString) (j : ℕ) : j ≤ runEnd kva key j := by
  fun_induction runEnd kva key j with
  | case1 j h _ ih => omega
  | case2 => exact le_rfl
  | case3 => exact le_rfl

/-- The loop with two indices, from `i` on: the arguments of the calls of `Fprintf`. -/
def reduceLoop (P : Program) (kva : List KeyValue) (i : ℕ) : List (GoString × GoString) :=
  if h : i < kva.length then
    let j := runEnd kva kva[i].key (i + 1)
    let values := ((kva.drop i).take (j - i)).map KeyValue.value
    let output := P.reducef kva[i].key values
    (kva[i].key, output) :: reduceLoop P kva j
  else []
termination_by kva.length - i
decreasing_by
  have := le_runEnd kva kva[i].key (i + 1)
  omega

/-- `Fprintf(ofile, "%v %v\n", key, output)`. -/
def line (r : GoString × GoString) : GoString := r.1 ++ 32 :: r.2 ++ [10]

/-- What the loop prints for the pairs with a key. -/
def result (P : Program) (key : GoString) (run : List KeyValue) : GoString × GoString :=
  (key, P.reducef key (run.map KeyValue.value))

variable {P : Program} {kva : List KeyValue} {key : GoString} {i j : ℕ}

lemma runEnd_eq (kva : List KeyValue) (key : GoString) (j : ℕ) :
    runEnd kva key j = j + ((kva.drop j).takeWhile fun kv => kv.key = key).length := by
  fun_induction runEnd kva key j with
  | case1 j h hkey ih =>
    rw [ih, List.drop_eq_getElem_cons h, List.takeWhile_cons_of_pos (by simpa using hkey),
      List.length_cons]
    omega
  | case2 j h hkey =>
    rw [List.drop_eq_getElem_cons h, List.takeWhile_cons_of_neg (by simpa using hkey)]
    rfl
  | case3 j h =>
    rw [List.drop_eq_nil_of_le (not_lt.1 h)]
    rfl

/-- **The loop goes through the runs of equal keys.** -/
theorem reduceLoop_eq (P : Program) (kva : List KeyValue) (i : ℕ) :
    reduceLoop P kva i = reduceRuns KeyValue.key (result P) (kva.drop i) := by
  fun_induction reduceLoop P kva i with
  | case1 i h j values output ih =>
    set rest := kva.drop (i + 1) with hrest
    set run := rest.takeWhile fun kv => kv.key = kva[i].key with hrundef
    have hj : j = i + 1 + run.length := runEnd_eq kva kva[i].key (i + 1)
    have hrun : (kva.drop i).take (j - i) = kva[i] :: run := by
      rw [List.drop_eq_getElem_cons h, hj, show i + 1 + run.length - i = run.length + 1 by omega,
        List.take_succ_cons, ← hrest, hrundef]
      exact congrArg _ (List.prefix_iff_eq_take.1 (List.takeWhile_prefix _)).symm
    have hnext : kva.drop j = rest.dropWhile fun kv => kv.key = kva[i].key := by
      have hsplit : rest = run ++ rest.dropWhile fun kv => kv.key = kva[i].key :=
        List.takeWhile_append_dropWhile.symm
      rw [hj, ← List.drop_drop, ← hrest]
      exact (congrArg (List.drop run.length) hsplit).trans List.drop_left
    rw [ih, hnext, List.drop_eq_getElem_cons h, reduceRuns_cons, ← hrest]
    simp only [output, values, hrun, result, ← hrundef]
  | case2 i h =>
    rw [List.drop_eq_nil_of_le (not_lt.1 h)]
    rfl

lemma outputLines_eq (P : Program) (kva : List KeyValue) :
    outputLines P kva = (reduceLoop P kva 0).map line := by
  -- both compare keys, each with its own test
  have hruns : kva.splitBy (fun a b => a.key == b.key) =
      kva.splitBy fun a b => instBEqOfDecidableEq.beq a.key b.key := by
    congr 1
    funext a b
    exact Bool.eq_iff_iff.2 (by simp only [beq_iff_eq])
  rw [reduceLoop_eq, List.drop_zero, reduceRuns, List.map_filterMap, outputLines, hruns]
  refine List.filterMap_congr fun run _ => ?_
  rw [Option.map_map]
  rfl

/-! ### What is assumed of the program -/

/-- The bytes are the encoding of a sequence of characters. -/
def ValidUTF8 (s : GoString) : Prop := ∃ cs : List Char, s = cs.flatMap String.utf8EncodeChar

def KeyValue.Valid (kv : KeyValue) : Prop := ValidUTF8 kv.key ∧ ValidUTF8 kv.value

/-- `Map` emits valid strings, `Reduce` does not depend on the order of the values, `Decode` undoes
`Encode` on valid strings, and `sort.Sort` sorts by key, in whatever order it leaves equal keys. -/
structure Program.Lawful (P : Program) : Prop where
  valid : ∀ filename content, ∀ kv ∈ P.mapf filename content, kv.Valid
  unordered : ∀ key values values', values.Perm values' →
    P.reducef key values = P.reducef key values'
  decode : ∀ kva : List KeyValue, (∀ kv ∈ kva, kv.Valid) → P.decode (kva.flatMap P.encode) = kva
  perm : ∀ kva, (P.sort kva).Perm kva
  sorted : ∀ kva, (P.sort kva).Pairwise fun a b => a.key ≤ b.key

lemma Program.Lawful.result_perm (hP : P.Lawful) {run run' : List KeyValue} (h : run.Perm run') :
    result P key run = result P key run' := by
  rw [result, result, hP.unordered key _ _ (h.map KeyValue.value)]

/-- **What is printed for sorted pairs**: for every key, what `Reduce` makes of all its values. -/
theorem reduceLoop_sort (hP : P.Lawful) (kva : List KeyValue) :
    (reduceLoop P (P.sort kva) 0 : Multiset (GoString × GoString)) =
      reduceKeys KeyValue.key (result P) kva := by
  rw [reduceLoop_eq, List.drop_zero, reduceRuns_eq_reduceKeys (hP.sorted kva)]
  exact reduceKeys_perm (fun _ _ _ h => hP.result_perm h) (hP.perm kva)

/-- Every key is printed once. -/
lemma keys_reduceLoop_sort (hP : P.Lawful) (kva : List KeyValue) :
    ((reduceLoop P (P.sort kva) 0).map Prod.fst : Multiset GoString) =
      (kva.map KeyValue.key).toFinset.val := by
  rw [← Multiset.map_coe, reduceLoop_sort hP, reduceKeys, Multiset.map_map]
  exact Multiset.map_id _

lemma nodup_keys (hP : P.Lawful) (kva : List KeyValue) :
    ((reduceLoop P (P.sort kva) 0).map Prod.fst).Nodup := by
  rw [← Multiset.coe_nodup, keys_reduceLoop_sort hP]
  exact Finset.nodup _

lemma mem_keys (hP : P.Lawful) {kva : List KeyValue} {key : GoString} :
    key ∈ (reduceLoop P (P.sort kva) 0).map Prod.fst ↔ ∃ kv ∈ kva, kv.key = key := by
  rw [← Multiset.mem_coe, keys_reduceLoop_sort hP, Finset.mem_val, List.mem_toFinset, List.mem_map]

/-! ### Files that are written by one process -/

/-- A write at the end of a file. -/
def Files.append (files : Files) (name bytes : GoString) : Files :=
  Function.update files name ((files name).map fun content => content ++ bytes)

/-- `os.Create`, and then the lines. -/
def Files.print (files : Files) (name : GoString) (records : List (GoString × GoString)) : Files :=
  records.foldl (fun files r => files.append name (line r)) (files.create name)

lemma Files.print_eq (files : Files) (name : GoString) (records : List (GoString × GoString)) :
    files.print name records = Function.update files name (some (records.flatMap line)) := by
  have hloop : ∀ (content : GoString) (files : Files),
      records.foldl (fun files r => Files.append files name (line r))
        (Function.update files name (some content)) =
      Function.update files name (some (content ++ records.flatMap line)) := by
    induction records with
    | nil => simp
    | cons r records ih =>
      intro content files
      rw [List.foldl_cons, Files.append, Function.update_self, Option.map_some, Function.update_idem, ih,
        List.append_assoc, List.flatMap_cons]
  exact hloop [] files

/-! ### The lines of a file -/

/-- The lines of a file, without their ends. -/
def linesOf (content : GoString) : List GoString := (content.splitOn 10).dropLast

lemma linesOf_append_newline (s content : GoString) :
    linesOf (s ++ 10 :: content) = s.splitOn 10 ++ linesOf content := by
  unfold linesOf
  rw [List.splitOn_append_cons_self, List.dropLast_append_of_ne_nil (List.splitOn_ne_nil _ _)]

/-- What is printed is printed in whole lines. -/
lemma linesOf_flatMap_line (records : List (GoString × GoString)) :
    linesOf (records.flatMap line) =
      records.flatMap fun r => (r.1 ++ 32 :: r.2).splitOn 10 := by
  induction records with
  | nil => rfl
  | cons r records ih =>
    rw [List.flatMap_cons, List.flatMap_cons, line, List.append_assoc, List.singleton_append,
      linesOf_append_newline, ih]

/-! ### The sequential program -/

/-- An input file, as `ReadAll` finds it. -/
structure Input where
  filename : GoString
  content : GoString

/-- The pairs of all files. -/
def intermediate (P : Program) (inputs : List Input) : List KeyValue :=
  inputs.flatMap fun input => P.mapf input.filename input.content

/-- What `mrsequential` prints. -/
def sequential (P : Program) (inputs : List Input) : List (GoString × GoString) :=
  reduceLoop P (P.sort (intermediate P inputs)) 0

/-- The main function of `mrsequential.go`. -/
def mrsequential (P : Program) (inputs : List Input) (files : Files) : Files :=
  files.print (outFile 0) (sequential P inputs)

/-! ### Word count -/

/-- `unicode.IsLetter`, for ASCII. -/
def isLetter (b : UInt8) : Bool := (65 ≤ b && b ≤ 90) || (97 ≤ b && b ≤ 122)

/-- The words of a text: `strings.FieldsFunc`. -/
def words (contents : GoString) : List GoString :=
  (contents.splitBy fun a b => isLetter a == isLetter b).filter fun w => w.all isLetter

/-- Every byte behind a mark, and an end. -/
def encodeString (s : GoString) : GoString := s.flatMap (fun b => [1, b]) ++ [0]

/-- The strings that are complete, after the beginning of one. -/
def decodeStrings (start : GoString) : GoString → List GoString
  | 0 :: rest => start :: decodeStrings [] rest
  | _ :: b :: rest => decodeStrings (start ++ [b]) rest
  | _ => []

def pairUp : List GoString → List KeyValue
  | key :: value :: rest => ⟨key, value⟩ :: pairUp rest
  | _ => []

/-- The program of `mrapps/wc.go` for texts in ASCII, with a simple encoding in the place of JSON. -/
def wordCount : Program where
  mapf _ contents := (words contents).map fun w => ⟨w, [49]⟩
  reducef _ values := Decimal.formatInt values.length
  encode kv := encodeString kv.key ++ encodeString kv.value
  decode content := pairUp (decodeStrings [] content)
  sort kva := kva.insertionSort fun a b => a.key ≤ b.key

lemma validUTF8_of_letters {w : GoString} (h : w.all isLetter) : ValidUTF8 w := by
  have hascii : ∀ n < 128, String.utf8EncodeChar (Char.ofNat n) = [UInt8.ofNat n] := by
    decide +kernel
  refine ⟨w.map fun b => Char.ofNat b.toNat, ?_⟩
  rw [List.flatMap_map]
  conv_lhs => rw [← List.flatMap_singleton' w]
  refine List.flatMap_congr fun b hb => ?_
  have hletter := List.all_eq_true.1 h b hb
  have hlt : b.toNat < 128 := by
    simp [isLetter, UInt8.le_iff_toNat_le] at hletter
    omega
  rw [hascii _ hlt, UInt8.ofNat_toNat]

lemma decodeStrings_encodeString (start s rest : GoString) :
    decodeStrings start (encodeString s ++ rest) = (start ++ s) :: decodeStrings [] rest := by
  induction s generalizing start with
  | nil => simp [encodeString, decodeStrings]
  | cons b s ih => simpa [encodeString, decodeStrings] using ih (start ++ [b])

lemma wordCount_lawful : wordCount.Lawful where
  valid filename content kv hkv := by
    obtain ⟨w, hw, rfl⟩ := List.mem_map.1 hkv
    exact ⟨validUTF8_of_letters (List.mem_filter.1 hw).2, ['1'], rfl⟩
  unordered key values values' h := by
    show Decimal.formatInt values.length = Decimal.formatInt values'.length
    rw [h.length_eq]
  decode kva hvalid := by
    induction kva with
    | nil => rfl
    | cons kv kva ih =>
      show pairUp (decodeStrings [] (encodeString kv.key ++ encodeString kv.value ++
        kva.flatMap wordCount.encode)) = kv :: kva
      rw [List.append_assoc, decodeStrings_encodeString, decodeStrings_encodeString]
      exact congrArg (kv :: ·) (ih fun kv' h => hvalid kv' (List.mem_cons_of_mem _ h))
  perm kva := List.perm_insertionSort _ kva
  sorted kva := by
    have : Std.Total fun a b : KeyValue => a.key ≤ b.key := ⟨fun a b => List.le_total _ _⟩
    have : IsTrans KeyValue fun a b => a.key ≤ b.key := ⟨fun a b c => List.le_trans⟩
    exact List.pairwise_insertionSort _ kva

/-- Two short texts. -/
def texts : List Input := [⟨[120], [97, 32, 98, 32, 97]⟩, ⟨[121], [97]⟩]

lemma sequential_texts : sequential wordCount texts = [([97], [51]), ([98], [49])] := by
  rw [sequential, reduceLoop_eq]
  decide +kernel

end RaftLabs.MapReduce
