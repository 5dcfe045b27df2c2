import RaftLabs.Lib.Trace
import RaftLabs.Raft.Cases

/-!
# Terms, votes and stable storage

`Ballot` is the part of a server that elections are about: its term, role and vote, and what of
them is in stable storage.  `Ballot.Step` is the abstract machine of its changes, and
`Raft.handle_ballot` says that every critical section of the code, on any argument, is one step of
that machine.  Whatever the code does to terms and votes is then read off the machine:

* `Ballot.Ok`: memory is never behind stable storage, and may be ahead of it only by a term in
  which nothing has been voted;
* `Ballot.Le`: a vote that is in stable storage stays there as long as the term does;
* `Ballot.Over`: a term in which a server has given up its candidacy or its leadership, or has had
  neither, is over for good, crashes included.

The only step that leaves stable storage behind is `InstallSnapshot` from a new leader with a
snapshot that is not needed, `Raft.Unsaved`.
-/

namespace RaftLabs

open Lib

/-- The term, role and vote of a server, the votes counted in its elections, and the term and vote
in its stable storage. -/
@[ext]
structure Ballot (n : ℕ) where
  me : Fin n
  term : ℕ
  identity : Identity
  vote : Option (Fin n)
  votes : ℕ → ℕ
  stableTerm : ℕ
  stableVote : Option (Fin n)

namespace Ballot

variable {n : ℕ}

section Machine

variable (b : Ballot n)

def save : Ballot n := { b with stableTerm := b.term, stableVote := b.vote }

def follow (t : ℕ) : Ballot n :=
  { b with term := t, identity := .follower, vote := if b.term = t then b.vote else none }

def stepDown (t : ℕ) : Ballot n := { b with term := t, identity := .follower, vote := none }

def grant (t : ℕ) (c : Fin n) : Ballot n :=
  { b with term := t, identity := .follower, vote := some c }

def stand : Ballot n :=
  { b with
    term := b.term + 1
    identity := .candidate
    vote := some b.me
    votes := Function.update b.votes (b.term + 1) 1 }

def count (t : ℕ) : Ballot n := { b with votes := Function.update b.votes t (b.votes t + 1) }

def restart : Ballot n :=
  { b with
    term := b.stableTerm
    identity := .follower
    vote := b.stableVote
    votes := fun _ => 0 }

end Machine

/-- The changes of a ballot.  `unsaved` says whether a new term may stay out of stable storage,
`elects` whether votes may be asked for or counted, `crashes` whether the server may restart. -/
inductive Step (unsaved elects crashes : Prop) (b : Ballot n) : Ballot n → Prop
  | stay : Step unsaved elects crashes b b
  | save : Step unsaved elects crashes b b.save
  | count {t : ℕ} (he : elects) : Step unsaved elects crashes b (b.count t)
  | elected {t : ℕ} (he : elects) (h : b.identity = .candidate) :
      Step unsaved elects crashes b { b.count t with identity := .leader }
  | follow {t : ℕ} (h : b.term ≤ t) (hu : b.term < t → unsaved) : Step unsaved elects crashes b (b.follow t)
  | followSave {t : ℕ} (h : b.term ≤ t) : Step unsaved elects crashes b (b.follow t).save
  | stepDown {t : ℕ} (h : b.term < t) : Step unsaved elects crashes b (b.stepDown t).save
  | grant {t : ℕ} {c : Fin n} (h : b.term ≤ t)
      (hv : t = b.term → b.vote = none ∨ b.vote = some c) : Step unsaved elects crashes b (b.grant t c).save
  | stand (he : elects) (h : b.identity ≠ .leader) : Step unsaved elects crashes b b.stand.save
  | restart (hc : crashes) : Step unsaved elects crashes b b.restart

/-- What always holds between memory and stable storage. -/
structure Ok (b : Ballot n) : Prop where
  le : b.stableTerm ≤ b.term
  same : b.stableTerm = b.term → b.stableVote = b.vote
  behind : b.stableTerm < b.term → b.vote = none ∧ b.identity = .follower
  active : b.identity ≠ .follower → b.vote = some b.me

/-- Stable storage has caught up with memory. -/
def InSync (b : Ballot n) : Prop := b.stableTerm = b.term ∧ b.stableVote = b.vote

/-- Stable storage moves forward, and keeps its vote within a term. -/
def Le (b b' : Ballot n) : Prop :=
  b.stableTerm ≤ b'.stableTerm ∧
    ∀ c, b.stableTerm = b'.stableTerm → b.stableVote = some c → b'.stableVote = some c

/-- Term `t` is behind the server, or it can only be a follower in it. -/
def Over (t : ℕ) (b : Ballot n) : Prop :=
  t ≤ b.stableTerm ∧ (b.term = t → b.identity = .follower)

variable {unsaved elects crashes : Prop} {b b' b'' : Ballot n} {t : ℕ}

lemma Le.refl : Le b b := ⟨le_rfl, fun _ _ h => h⟩

lemma Le.trans (h : Le b b') (h' : Le b' b'') : Le b b'' := by
  refine ⟨h.1.trans h'.1, fun c heq hc => ?_⟩
  have h₁ : b.stableTerm = b'.stableTerm := le_antisymm h.1 (heq ▸ h'.1)
  exact h'.2 c (h₁ ▸ heq) (h.2 c h₁ hc)

lemma Ok.inSync_of_active (h : Ok b) (ha : b.identity ≠ .follower) : b.InSync := by
  have heq : b.stableTerm = b.term := by
    rcases Nat.lt_or_eq_of_le h.le with hlt | heq
    · exact absurd (h.behind hlt).2 ha
    · exact heq
  exact ⟨heq, h.same heq⟩

lemma ok_save (h : b.identity ≠ .follower → b.vote = some b.me) : Ok b.save :=
  ⟨le_rfl, fun _ => rfl, fun hlt => absurd hlt (lt_irrefl _), h⟩

lemma Step.me (hs : Step unsaved elects crashes b b') : b'.me = b.me := by
  cases hs <;> rfl

lemma Step.mono {unsaved' elects' crashes' : Prop} (hs : Step unsaved elects crashes b b')
    (h : unsaved → unsaved') (h' : elects → elects') (h'' : crashes → crashes') :
    Step unsaved' elects' crashes' b b' := by
  cases hs with
  | stay => exact .stay
  | save => exact .save
  | count he => exact .count (h' he)
  | elected he hc => exact .elected (h' he) hc
  | follow ht hu => exact .follow ht fun hlt => h (hu hlt)
  | followSave ht => exact .followSave ht
  | stepDown ht => exact .stepDown ht
  | grant ht hv => exact .grant ht hv
  | stand he hl => exact .stand (h' he) hl
  | restart hc => exact .restart (h'' hc)

/-- Every step keeps memory and stable storage together. -/
lemma Step.ok (hs : Step unsaved elects crashes b b') (h : Ok b) : Ok b' := by
  cases hs with
  | stay => exact h
  | save => exact ok_save h.active
  | count _ => exact ⟨h.le, h.same, h.behind, h.active⟩
  | elected _ hc =>
    have ha : b.identity ≠ .follower := by simp [hc]
    refine ⟨h.le, h.same, fun hlt => ?_, fun _ => h.active ha⟩
    exact absurd (h.inSync_of_active ha).1 (ne_of_lt hlt)
  | @follow t ht _ =>
    refine ⟨h.le.trans ht, fun heq => ?_, fun hlt => ⟨?_, rfl⟩, fun ha => absurd rfl ha⟩
    · have hst : b.stableTerm = t := heq
      have hbt : b.term = t := le_antisymm ht (hst ▸ h.le)
      have hv : (b.follow t).vote = b.vote := if_pos hbt
      rw [hv]
      exact h.same (hst.trans hbt.symm)
    · change (if b.term = t then b.vote else none) = none
      split
      · rename_i hbt
        exact (h.behind (hbt ▸ hlt)).1
      · rfl
  | followSave _ => exact ok_save fun ha => absurd rfl ha
  | stepDown _ => exact ok_save fun ha => absurd rfl ha
  | grant _ _ => exact ok_save fun ha => absurd rfl ha
  | stand _ _ => exact ok_save fun _ => rfl
  | restart _ =>
    exact ⟨le_rfl, fun _ => rfl, fun hlt => absurd hlt (lt_irrefl _), fun ha => absurd rfl ha⟩

/-- A ballot that is saved in a term not below the old one keeps the old vote if the term is the
same. -/
lemma le_save {d : Ballot n} (h : Ok b) (ht : b.term ≤ d.term)
    (hv : ∀ c, d.term = b.term → b.vote = some c → d.vote = some c) : Le b d.save := by
  refine ⟨h.le.trans ht, fun c heq hc => ?_⟩
  have hbt : b.stableTerm = b.term := le_antisymm h.le (heq ▸ ht)
  exact hv c (heq.symm.trans hbt) (h.same hbt ▸ hc)

lemma Step.le (hs : Step unsaved elects crashes b b') (h : Ok b) : Le b b' := by
  cases hs with
  | stay => exact .refl
  | save => exact le_save h le_rfl fun c _ hc => hc
  | count _ => exact .refl
  | elected _ _ => exact .refl
  | follow _ _ => exact .refl
  | @followSave t ht =>
    refine le_save h ht fun c heq hc => ?_
    exact (if_pos heq.symm).trans hc
  | stepDown ht => exact le_save h ht.le fun c heq _ => absurd heq (ne_of_gt ht)
  | grant ht hv =>
    refine le_save h ht fun c heq hc => ?_
    rcases hv heq with hv | hv
    · rw [hv] at hc
      cases hc
    · exact hv.symm.trans hc
  | stand _ _ =>
    exact le_save h (Nat.le_succ _) fun c heq _ => absurd heq (Nat.succ_ne_self _)
  | restart _ => exact .refl

/-- The steps that leave a server candidate or leader; all others make it a follower. -/
lemma Step.active_cases (hs : Step unsaved elects crashes b b') (ha : b'.identity ≠ .follower) :
    b' = b ∨ b' = b.save ∨ (elects ∧ ∃ t, b' = b.count t) ∨
    (elects ∧ b.identity = .candidate ∧ ∃ t, b' = { b.count t with identity := .leader }) ∨
    (elects ∧ b.identity ≠ .leader ∧ b' = b.stand.save) := by
  cases hs with
  | stay => exact Or.inl rfl
  | save => exact Or.inr (Or.inl rfl)
  | count he => exact Or.inr (Or.inr (Or.inl ⟨he, _, rfl⟩))
  | elected he hc => exact Or.inr (Or.inr (Or.inr (Or.inl ⟨he, hc, _, rfl⟩)))
  | stand he hn => exact Or.inr (Or.inr (Or.inr (Or.inr ⟨he, hn, rfl⟩)))
  | follow _ _ => exact absurd rfl ha
  | followSave _ => exact absurd rfl ha
  | stepDown _ => exact absurd rfl ha
  | grant _ _ => exact absurd rfl ha
  | restart _ => exact absurd rfl ha

/-- A server is candidate or leader because it was, in this term, or because it has just stood for
election in a new one. -/
lemma Step.active (hs : Step unsaved elects crashes b b') (ha : b'.identity ≠ .follower) :
    (b'.term = b.term ∧ b.identity ≠ .follower) ∨ b' = b.stand.save := by
  obtain rfl | rfl | ⟨-, t, rfl⟩ | ⟨-, hc, t, rfl⟩ | ⟨-, -, rfl⟩ := hs.active_cases ha
  · exact Or.inl ⟨rfl, ha⟩
  · exact Or.inl ⟨rfl, ha⟩
  · exact Or.inl ⟨rfl, ha⟩
  · exact Or.inl ⟨rfl, by simp [hc]⟩
  · exact Or.inr rfl

lemma Step.over (hs : Step unsaved elects crashes b b') (h : Ok b) (ho : Over t b) : Over t b' := by
  refine ⟨ho.1.trans (hs.le h).1, fun ht => ?_⟩
  by_contra ha
  rcases hs.active ha with ⟨hterm, hb⟩ | rfl
  · exact hb (ho.2 (hterm ▸ ht))
  · have h₁ : b.term + 1 = t := ht
    have h₂ := h.le
    have h₃ := ho.1
    omega

/-- A server that gives up its candidacy or leadership does so for the whole term. -/
lemma Step.active_or_over (hs : Step unsaved elects crashes b b') (h : Ok b) (ha : b.identity ≠ .follower) :
    (b'.identity ≠ .follower ∧ b'.term = b.term) ∨ Over b.term b' := by
  have hst : b.term ≤ b'.stableTerm := (h.inSync_of_active ha).1 ▸ (hs.le h).1
  by_cases hf : b'.identity = .follower
  · exact Or.inr ⟨hst, fun _ => hf⟩
  · rcases hs.active hf with ⟨hterm, -⟩ | rfl
    · exact Or.inl ⟨hf, hterm⟩
    · exact Or.inr ⟨hst, fun heq => absurd heq (Nat.succ_ne_self _)⟩

/-- A leader goes on leading its term or leaves it for good. -/
lemma Step.leader_or_over (hs : Step unsaved elects crashes b b') (h : Ok b) (hl : b.identity = .leader) :
    (b'.identity = .leader ∧ b'.term = b.term) ∨ Over b.term b' := by
  rcases hs.active_or_over h (by simp [hl]) with ⟨ha, hterm⟩ | ho
  · left
    refine ⟨?_, hterm⟩
    obtain rfl | rfl | ⟨-, t, rfl⟩ | ⟨-, -, t, rfl⟩ | ⟨-, hn, -⟩ := hs.active_cases ha
    · exact hl
    · exact hl
    · exact hl
    · rfl
    · exact absurd hl hn
  · exact Or.inr ho

/-- A candidate was one already, or its term is new. -/
lemma Step.candidate_cases (hs : Step unsaved elects crashes b b') (hc : b'.identity = .candidate) :
    (b.identity = .candidate ∧ b'.term = b.term) ∨ b.term < b'.term := by
  obtain rfl | rfl | ⟨-, t, rfl⟩ | ⟨-, -, t, rfl⟩ | ⟨-, -, rfl⟩ := hs.active_cases (by simp [hc])
  · exact Or.inl ⟨hc, rfl⟩
  · exact Or.inl ⟨hc, rfl⟩
  · exact Or.inl ⟨hc, rfl⟩
  · cases hc
  · exact Or.inr (Nat.lt_succ_self _)

/-- A leader was leader or candidate in the same term. -/
lemma Step.leader_cases (hs : Step unsaved elects crashes b b') (hl : b'.identity = .leader) :
    (b.identity = .leader ∨ b.identity = .candidate) ∧ b'.term = b.term := by
  obtain rfl | rfl | ⟨-, t, rfl⟩ | ⟨-, hc, t, rfl⟩ | ⟨-, -, rfl⟩ := hs.active_cases (by simp [hl])
  · exact ⟨Or.inl hl, rfl⟩
  · exact ⟨Or.inl hl, rfl⟩
  · exact ⟨Or.inl hl, rfl⟩
  · exact ⟨Or.inr hc, rfl⟩
  · cases hl

/-- Outside of elections candidates and leaders were that already, with the same votes. -/
lemma Step.active_of_not_elects (hs : Step unsaved False crashes b b')
    (ha : b'.identity ≠ .follower) :
    b.identity = b'.identity ∧ b'.term = b.term ∧ b'.votes = b.votes := by
  obtain rfl | rfl | ⟨he, -⟩ | ⟨he, -⟩ | ⟨he, -⟩ := hs.active_cases ha
  · exact ⟨rfl, rfl, rfl⟩
  · exact ⟨rfl, rfl, rfl⟩
  · exact absurd he id
  · exact absurd he id
  · exact absurd he id

lemma Step.candidate (hs : Step unsaved False crashes b b') (hc : b'.identity = .candidate) :
    b.identity = .candidate ∧ b'.term = b.term ∧ b'.votes = b.votes := by
  obtain ⟨hb, hrest⟩ := hs.active_of_not_elects (by simp [hc])
  exact ⟨hb.trans hc, hrest⟩

lemma Step.leader (hs : Step unsaved False crashes b b') (hl : b'.identity = .leader) :
    b.identity = .leader ∧ b'.term = b.term := by
  obtain ⟨hb, hterm, -⟩ := hs.active_of_not_elects (by simp [hl])
  exact ⟨hb.trans hl, hterm⟩

/-- Without unsaved steps stable storage never falls behind. -/
lemma Step.inSync (hs : Step False elects crashes b b') (h : b.InSync) : b'.InSync := by
  cases hs with
  | stay => exact h
  | count _ => exact h
  | elected _ _ => exact h
  | @follow t ht hu =>
    have hbt : b.term = t := le_antisymm ht (not_lt.1 hu)
    exact ⟨h.1.trans hbt, h.2.trans (if_pos hbt).symm⟩
  | save => exact ⟨rfl, rfl⟩
  | followSave _ => exact ⟨rfl, rfl⟩
  | stepDown _ => exact ⟨rfl, rfl⟩
  | grant _ _ => exact ⟨rfl, rfl⟩
  | stand _ _ => exact ⟨rfl, rfl⟩
  | restart _ => exact ⟨rfl, rfl⟩

end Ballot

namespace Raft

variable {n : ℕ} {C σ : Type} [Inhabited C] {rf rf' : Raft n C σ}

def ballot (rf : Raft n C σ) : Ballot n :=
  ⟨rf.me, rf.currentTerm, rf.identity, rf.voteFor, rf.votes, rf.stableTerm, rf.stableVote⟩

/-- `InstallSnapshot` from a leader of a new term, with a snapshot that is not ahead of the
server's own: the one handler that takes over a term and returns without `persist`. -/
def Unsaved (rf : Raft n C σ) : Input n C σ → Prop
  | .installSnapshot args =>
    rf.currentTerm < args.term ∧ args.lastIncludedIndex ≤ rf.lastIncludedIndex
  | _ => False

end Raft

/-- The timeout that starts an election, and the replies that are counted in it. -/
def Input.Elects {n : ℕ} {C σ : Type} : Input n C σ → Prop
  | .electionTimeout => True
  | .requestVoteReply _ _ => True
  | _ => False

namespace Raft

variable {n : ℕ} {C σ : Type} [Inhabited C] {rf rf' : Raft n C σ}

/-! ### The code takes steps of the machine -/

section Steps

variable {unsaved elects crashes : Prop}

omit [Inhabited C] in
lemma observe_currentTerm (t : ℕ) : (rf.observe t).currentTerm = max rf.currentTerm t := by
  unfold observe
  split
  · rename_i h
    exact (max_eq_right h.le).symm
  · rename_i h
    exact (max_eq_left (not_lt.1 h)).symm

omit [Inhabited C] in
@[simp] lemma ballot_persist : rf.persist.ballot = rf.ballot.save := rfl

lemma ballot_followLeader {t : ℕ} (h : rf.currentTerm ≤ t) :
    (rf.followLeader t).ballot = rf.ballot.follow t := by
  rw [followLeader_eq rf h]
  rfl

lemma ballot_acceptEntries (rf : Raft n C σ) (args : ApplyEntriesArgs n C) :
    (rf.acceptEntries args).ballot = rf.ballot := by
  dsimp only [acceptEntries]
  split_ifs <;> rfl

lemma ballot_takeSnapshot (args : InstallSnapshotArgs n C σ) :
    (rf.takeSnapshot args).ballot = rf.ballot.save := by
  rw [takeSnapshot_eq]
  rfl

omit [Inhabited C] in
lemma ballot_callSnapshot (rf : Raft n C σ) (index : ℕ) (data : Snapshot C σ) :
    (rf.callSnapshot index data).ballot = rf.ballot ∨
      (rf.callSnapshot index data).ballot = rf.ballot.save := by
  dsimp only [callSnapshot]
  split_ifs
  · exact Or.inl rfl
  all_goals exact Or.inr rfl

lemma ballot_updateCommittedIndex (h : rf.updateCommittedIndex = some rf') :
    rf'.ballot = rf.ballot := by
  obtain ⟨index, rfl, -⟩ := updateCommittedIndex_cases h
  rfl

lemma ballot_applyLog {msgs : List (ApplyMsg C σ)} (h : rf.applyLog = some (rf', msgs)) :
    rf'.ballot = rf.ballot := by
  obtain ⟨-, -, lastApplied, -, rfl, -⟩ := applyLog_cases h
  rfl

lemma ballot_requestVote {args : RequestVoteArgs n} {reply : RequestVoteReply}
    (h : rf.requestVote args = some (rf', reply)) :
    Ballot.Step unsaved elects crashes rf.ballot rf'.ballot := by
  obtain ⟨rfl, -⟩ | ⟨hle, hv, last, -, ⟨rfl, -⟩ | ⟨rfl, -, -⟩⟩ := requestVote_cases h
  · exact .save
  · unfold observe
    split
    · rename_i hlt
      exact .stepDown hlt
    · exact .save
  · exact .grant hle hv

lemma ballot_applyEntries {args : ApplyEntriesArgs n C} {reply : ApplyEntriesReply}
    (h : rf.applyEntries args = some (rf', reply)) :
    Ballot.Step unsaved elects crashes rf.ballot rf'.ballot := by
  obtain ⟨-, rfl, -⟩ | ⟨hle, -, ⟨rfl, -⟩ | ⟨rfl, -⟩ | ⟨rfl, -⟩⟩ := applyEntries_cases h
  · exact .save
  · rw [ballot_persist, ballot_followLeader hle]
    exact .followSave hle
  · rw [ballot_persist, ballot_followLeader hle]
    exact .followSave hle
  · rw [ballot_persist, ballot_acceptEntries, ballot_followLeader hle]
    exact .followSave hle

lemma ballot_installSnapshot (rf : Raft n C σ) (args : InstallSnapshotArgs n C σ) :
    Ballot.Step (rf.Unsaved (.installSnapshot args)) elects crashes rf.ballot
      (rf.installSnapshot args).1.ballot := by
  obtain ⟨-, h⟩ | ⟨hle, hi, h⟩ | ⟨hle, -, h⟩ := installSnapshot_cases rf args
  · rw [h]
    exact .stay
  · rw [h, ballot_followLeader hle]
    exact .follow hle fun hlt => ⟨hlt, hi⟩
  · rw [h, ballot_takeSnapshot, ballot_followLeader hle]
    exact .followSave hle

lemma ballot_requestVoteReply (he : elects) (args : RequestVoteArgs n) (reply : RequestVoteReply) :
    Ballot.Step unsaved elects crashes rf.ballot (rf.requestVoteReply args reply).ballot := by
  obtain h | ⟨hlt, h⟩ | ⟨-, -, h | ⟨hc, -, h⟩⟩ := requestVoteReply_cases rf args reply
  · rw [h]
    exact .stay
  · rw [h]
    exact .stepDown hlt
  · rw [h]
    exact .count he
  · rw [h]
    exact .elected he hc

lemma ballot_sendApplyEntriesTo {server : Fin n} {args : ApplyEntriesArgs n C}
    {reply : ApplyEntriesReply} (h : rf.sendApplyEntriesTo server args reply = some rf') :
    Ballot.Step unsaved elects crashes rf.ballot rf'.ballot := by
  obtain rfl | ⟨hlt, rfl⟩ | ⟨index, rfl⟩ | ⟨-, -, -, -, h⟩ := sendApplyEntriesTo_cases h
  · exact .stay
  · exact .stepDown hlt
  · exact .stay
  · rw [ballot_updateCommittedIndex h]
    exact .stay

lemma ballot_sendInstallSnapshotTo (server : Fin n) (args : InstallSnapshotArgs n C σ)
    (reply : InstallSnapshotReply) :
    Ballot.Step unsaved elects crashes rf.ballot (rf.sendInstallSnapshotTo server args reply).ballot := by
  obtain h | ⟨hlt, h⟩ | ⟨-, -, h⟩ := sendInstallSnapshotTo_cases rf server args reply
  · rw [h]
    exact .stay
  · rw [h]
    exact .stepDown hlt
  · rw [h]
    exact .stay

lemma ballot_electionTimeout (he : elects) {calls : List (Fin n × Rpc n C σ)}
    (h : rf.electionTimeout = some (rf', calls)) :
    Ballot.Step unsaved elects crashes rf.ballot rf'.ballot := by
  obtain ⟨-, rfl, -⟩ | ⟨hl, last, -, rfl, -⟩ := electionTimeout_cases h
  · exact .stay
  · exact .stand he hl

lemma ballot_start {command : C} {res : Option (ℕ × ℕ)} {calls : List (Fin n × Rpc n C σ)}
    (h : rf.start command = some (rf', res, calls)) :
    Ballot.Step unsaved elects crashes rf.ballot rf'.ballot := by
  obtain ⟨-, rfl, -⟩ | ⟨-, rfl, -⟩ := start_cases h
  · exact .stay
  · exact .save

end Steps

/-- **Every critical section, on any argument, is one step of the ballot machine.** -/
theorem handle_ballot {x : Input n C σ} {terms : List ℕ} (h : rf.handle x = some (rf', terms)) :
    Ballot.Step (rf.Unsaved x) x.Elects False rf.ballot rf'.ballot := by
  cases x with
  | requestVote args =>
    obtain ⟨r, hr, h⟩ := Option.map_eq_some_iff.1 h
    cases h
    exact ballot_requestVote hr
  | requestVoteReply args reply =>
    cases h
    exact ballot_requestVoteReply trivial args reply
  | applyEntries args =>
    obtain ⟨r, hr, h⟩ := Option.map_eq_some_iff.1 h
    cases h
    exact ballot_applyEntries hr
  | applyEntriesReply server args reply =>
    obtain ⟨r, hr, h⟩ := Option.map_eq_some_iff.1 h
    cases h
    exact ballot_sendApplyEntriesTo hr
  | installSnapshot args =>
    cases h
    exact ballot_installSnapshot rf args
  | installSnapshotReply server args reply =>
    cases h
    exact ballot_sendInstallSnapshotTo server args reply
  | electionTimeout =>
    obtain ⟨r, hr, h⟩ := Option.map_eq_some_iff.1 h
    cases h
    exact ballot_electionTimeout trivial hr
  | heartbeatTimeout =>
    obtain ⟨r, hr, h⟩ := Option.map_eq_some_iff.1 h
    cases h
    exact .stay
  | start command =>
    obtain ⟨⟨r, res, calls⟩, hr, h⟩ := Option.map_eq_some_iff.1 h
    cases h
    exact ballot_start hr
  | callSnapshot index data =>
    cases h
    obtain h | h := ballot_callSnapshot rf index data
    · rw [h]
      exact .stay
    · rw [h]
      exact .save
  | applyLog =>
    obtain ⟨r, hr, h⟩ := Option.map_eq_some_iff.1 h
    cases h
    rw [ballot_applyLog hr]
    exact .stay

lemma ballot_make : (make rf.me rf.persister).ballot = rf.ballot.restart := by
  unfold make readPersist readSnapShot ballot Ballot.restart stableTerm stableVote
  cases hr : rf.persister.raftstate <;> cases hs : rf.persister.snapshot <;> simp [hr]

/-- The term in a reply is the term the server has when it replies. -/
lemma handle_terms {x : Input n C σ} {terms : List ℕ} (h : rf.handle x = some (rf', terms)) :
    ∀ t ∈ terms, t = rf'.currentTerm := by
  intro t ht
  cases x with
  | requestVote args =>
    obtain ⟨r, hr, h⟩ := Option.map_eq_some_iff.1 h
    cases h
    rw [List.mem_singleton.1 ht]
    obtain ⟨h₁, h₂⟩ | ⟨hle, hv, last, -, ⟨h₁, h₂⟩ | ⟨h₁, h₂, -⟩⟩ := requestVote_cases hr
    · rw [h₁, h₂]
      rfl
    · rw [h₁, h₂, persist_currentTerm, observe_currentTerm]
      exact (max_eq_right hle).symm
    · rw [h₁, h₂]
      rfl
  | applyEntries args =>
    obtain ⟨r, hr, h⟩ := Option.map_eq_some_iff.1 h
    cases h
    rw [List.mem_singleton.1 ht]
    obtain ⟨-, h₁, h₂, -⟩ | ⟨hle, h₂, ⟨h₁, -⟩ | ⟨h₁, -⟩ | ⟨h₁, -⟩⟩ := applyEntries_cases hr
    · rw [h₁, h₂]
      rfl
    · rw [h₁, h₂, persist_currentTerm, followLeader_currentTerm, max_eq_right hle]
    · rw [h₁, h₂, persist_currentTerm, followLeader_currentTerm, max_eq_right hle]
    · rw [h₁, h₂, persist_currentTerm]
      have := congrArg Ballot.term (ballot_acceptEntries (rf.followLeader args.term) args)
      rw [ballot_followLeader hle] at this
      exact this.symm
  | installSnapshot args =>
    cases h
    rw [List.mem_singleton.1 ht]
    obtain ⟨-, h⟩ | ⟨hle, -, h⟩ | ⟨hle, -, h⟩ := installSnapshot_cases rf args
    · rw [h]
    · rw [h, followLeader_currentTerm, max_eq_right hle]
    · rw [h, takeSnapshot_eq]
      exact ((followLeader_currentTerm args.term).trans (max_eq_right hle)).symm
  | requestVoteReply args reply =>
    cases h
    cases ht
  | installSnapshotReply server args reply =>
    cases h
    cases ht
  | callSnapshot index data =>
    cases h
    cases ht
  | applyEntriesReply server args reply =>
    obtain ⟨r, -, h⟩ := Option.map_eq_some_iff.1 h
    cases h
    cases ht
  | electionTimeout =>
    obtain ⟨r, -, h⟩ := Option.map_eq_some_iff.1 h
    cases h
    cases ht
  | heartbeatTimeout =>
    obtain ⟨r, -, h⟩ := Option.map_eq_some_iff.1 h
    cases h
    cases ht
  | start command =>
    obtain ⟨r, -, h⟩ := Option.map_eq_some_iff.1 h
    cases h
    cases ht
  | applyLog =>
    obtain ⟨r, -, h⟩ := Option.map_eq_some_iff.1 h
    cases h
    cases ht

end Raft

/-! ### A server on its own -/

/-- A server, with all the terms it has reported in replies so far. -/
structure Server (n : ℕ) (C σ : Type) where
  raft : Raft n C σ
  reported : List ℕ

/-- What can happen to a server: a critical section on any argument, or a crash while `rf.mu` is
free. -/
inductive ServerEvent (n : ℕ) (C σ : Type)
  | run (x : Input n C σ)
  | crash

namespace Server

variable {n : ℕ} {C σ : Type} [Inhabited C]

def init (me : Fin n) : Server n C σ := ⟨Raft.make me ⟨none, none⟩, []⟩

/-- The server restarts from its stable storage. -/
def restart (s : Server n C σ) : Raft n C σ := Raft.make s.raft.me s.raft.persister

def step (s : Server n C σ) : ServerEvent n C σ → Option (Server n C σ)
  | .run x => (s.raft.handle x).map fun r => ⟨r.1, r.2 ++ s.reported⟩
  | .crash => some { s with raft := s.restart }

/-- The term and the vote last written through `persist` are the ones in memory. -/
def InSync (s : Server n C σ) : Prop :=
  s.raft.stableTerm = s.raft.currentTerm ∧ s.raft.stableVote = s.raft.voteFor

/-- The step is not one that takes over a term without `persist`. -/
def Saved (s : Server n C σ) : ServerEvent n C σ → Prop
  | .run x => ¬ s.raft.Unsaved x
  | .crash => True

variable {s s' : Server n C σ} {e : ServerEvent n C σ}

lemma step_inSync (h : s.InSync) (hs : s.step e = some s') (hsaved : s.Saved e) : s'.InSync := by
  cases e with
  | run x =>
    obtain ⟨r, hr, hs⟩ := Option.map_eq_some_iff.1 hs
    cases hs
    have hstep := Raft.handle_ballot hr
    rw [eq_false hsaved] at hstep
    exact hstep.inSync h
  | crash =>
    cases hs
    have hb : s.restart.ballot = s.raft.ballot.restart := Raft.ballot_make
    exact (hb ▸ ⟨rfl, rfl⟩ : s.restart.ballot.InSync)

/-- A step that takes over a term without `persist` leaves stable storage behind. -/
lemma not_inSync_of_unsaved {x : Input n C σ} (h : s.InSync) (hs : s.step (.run x) = some s')
    (hu : s.raft.Unsaved x) : ¬ s'.InSync := by
  cases x with
  | installSnapshot args =>
    obtain ⟨hlt, hi⟩ := hu
    cases hs
    obtain ⟨hlt', -⟩ | ⟨hle, -, hf⟩ | ⟨-, hi', -⟩ := Raft.installSnapshot_cases s.raft args
    · exact absurd hlt' (not_lt.2 hlt.le)
    · rintro ⟨hterm, -⟩
      have hb : (s.raft.installSnapshot args).1.ballot = s.raft.ballot.follow args.term := by
        rw [hf]
        exact Raft.ballot_followLeader hle
      have h₁ := congrArg Ballot.stableTerm hb
      have h₂ := congrArg Ballot.term hb
      have : s.raft.stableTerm = args.term := h₁.symm.trans (hterm.trans h₂)
      exact absurd (h.1.symm.trans this) (ne_of_lt hlt)
    · exact absurd hi (not_le.2 hi')
  | _ => exact absurd hu id

lemma step_ok (h : s.raft.ballot.Ok) (hs : s.step e = some s') :
    s'.raft.ballot.Ok ∧ s.raft.stableTerm ≤ s'.raft.stableTerm := by
  cases e with
  | run x =>
    obtain ⟨r, hr, hs⟩ := Option.map_eq_some_iff.1 hs
    cases hs
    have hstep := Raft.handle_ballot hr
    exact ⟨hstep.ok h, (hstep.le h).1⟩
  | crash =>
    cases hs
    have hb : s.restart.ballot = s.raft.ballot.restart := Raft.ballot_make
    have hstep : Ballot.Step False False True s.raft.ballot s.restart.ballot := hb ▸ .restart trivial
    exact ⟨hstep.ok h, (hstep.le h).1⟩

lemma step_reported (h : s.raft.ballot.Ok) (hr : ∀ t ∈ s.reported, t ≤ s.raft.stableTerm)
    (hs : s.step e = some s') (h' : s'.InSync) : ∀ t ∈ s'.reported, t ≤ s'.raft.stableTerm := by
  have hmono := (step_ok h hs).2
  cases e with
  | run x =>
    obtain ⟨r, hx, hs⟩ := Option.map_eq_some_iff.1 hs
    cases hs
    intro t ht
    rcases List.mem_append.1 ht with ht | ht
    · rw [Raft.handle_terms hx t ht]
      exact h'.1.ge
    · exact (hr t ht).trans hmono
  | crash =>
    cases hs
    exact fun t ht => (hr t ht).trans hmono

/-- **Stable storage keeps up.**  As long as no step takes over a term without `persist`, the term
and the vote in stable storage are the ones in memory, and a restart does not fall behind any term
the server has reported; and such a step is exactly one that breaks this. -/
theorem inSync_of_saved {me : Fin n} (h : Reachable step Saved (init me) s) :
    s.InSync ∧ (∀ t ∈ s.reported, t ≤ s.restart.currentTerm) ∧
      ∀ e s', s.step e = some s' → (s'.InSync ↔ s.Saved e) := by
  have hinv : s.raft.ballot.Ok ∧ s.InSync ∧ ∀ t ∈ s.reported, t ≤ s.raft.stableTerm := by
    refine Reachable.invariant
      (P := fun s => s.raft.ballot.Ok ∧ s.InSync ∧ ∀ t ∈ s.reported, t ≤ s.raft.stableTerm)
      ⟨⟨le_rfl, fun _ => rfl, fun h => absurd h (lt_irrefl _), fun h => absurd rfl h⟩,
        ⟨rfl, rfl⟩, fun t ht => by cases ht⟩ ?_ h
    intro s e s' _ hi hsaved hs
    have hsync := step_inSync hi.2.1 hs hsaved
    exact ⟨(step_ok hi.1 hs).1, hsync, step_reported hi.1 hi.2.2 hs hsync⟩
  obtain ⟨-, hsync, hrep⟩ := hinv
  have hrestart : s.restart.currentTerm = s.raft.stableTerm := congrArg Ballot.term Raft.ballot_make
  refine ⟨hsync, hrestart ▸ hrep, fun e s' hs => ⟨fun h' => ?_, step_inSync hsync hs⟩⟩
  cases e with
  | run x => exact fun hu => not_inSync_of_unsaved hsync hs hu h'
  | crash => trivial

/-- A candidate has its new term and its vote for itself in stable storage. -/
theorem inSync_of_saved_candidate :
    ∃ s : Server 3 ℕ (List ℕ), run step (init 0) [.run .electionTimeout] = some s ∧
      s.raft.currentTerm = 1 ∧ s.InSync := by
  have hsaved : (init 0 : Server 3 ℕ (List ℕ)).Saved (.run .electionTimeout) := fun h => h
  exact ⟨_, rfl, rfl, (inSync_of_saved (Reachable.init.step _ hsaved rfl)).1⟩

/-- A leader of term `1` sends a server its snapshot up to index `1`, and then a leader of term `2`
sends one up to the same index. -/
def unneededSnapshot : List (ServerEvent 2 ℕ (List ℕ)) :=
  [.run (.installSnapshot ⟨1, 1, 1, 1, some ⟨1, [7], [⟨7, 1⟩]⟩⟩),
   .run (.installSnapshot ⟨2, 1, 1, 1, some ⟨1, [7], [⟨7, 1⟩]⟩⟩)]

/-- The server has then reported term `2` and would restart in term `1`. -/
theorem unneededSnapshot_not_inSync :
    ¬ ∀ s : Server 2 ℕ (List ℕ), Reachable step anyStep (init 0) s →
      s.InSync ∧ ∀ t ∈ s.reported, t ≤ s.restart.currentTerm := by
  intro h
  have hrun : (run step (init 0) unneededSnapshot).map (fun s : Server 2 ℕ (List ℕ) =>
      (s.raft.stableTerm, s.raft.currentTerm, s.reported, s.restart.currentTerm)) =
        some (1, 2, [2, 1], 1) := by decide +kernel
  obtain ⟨s, hs, heq⟩ := Option.map_eq_some_iff.1 hrun
  simp only [Prod.mk.injEq] at heq
  obtain ⟨-, -, hrep, hrestart⟩ := heq
  have := (h s (Reachable.init.run hs)).2 2 (by simp [hrep])
  omega

end Server

end RaftLabs
