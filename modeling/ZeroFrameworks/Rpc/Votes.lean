import Mathlib.Data.List.Nodup
import ZeroFrameworks.Rpc.Sentinel

/-!
# One vote in a term

The votes of one sentinel, over any sequence of the operations that change its term.  `m_votedFor` is
cleared by heartbeats and by `becomeFollower`, and nothing is lost by that: a vote is given only in a term
that the sentinel enters with it.

The term is a `uint64_t`.  The sentinel gives one vote in a term, and its term does not go back, if and
only if it never becomes a candidate in the last term there is:

    OneVote myId m ops ↔ Unwrapped myId m ops
-/

namespace Rpc

open Kv (Bytes lit)

/-! ## Runs of one sentinel -/

inductive Op where
  | handleRequestVote (term : Nat) (candidateId : Bytes)
  | handleHeartbeat (term : Nat) (leaderId : Bytes)
  | becomeFollower (newTerm : Nat)
  | becomeCandidate

/-- A vote. -/
structure Ballot where
  term : Nat
  candidateId : Bytes
deriving DecidableEq

variable (myId : Bytes)

def Op.apply (m : SentinelManager) : Op → SentinelManager
  | .handleRequestVote term candidateId => (m.handleRequestVote term candidateId).2
  | .handleHeartbeat term leaderId => (m.handleHeartbeat term leaderId).2
  | .becomeFollower newTerm => m.becomeFollower newTerm
  | .becomeCandidate => m.becomeCandidate myId

/-- The vote that the operation gives: a request that is granted, or the vote for itself of a candidate. -/
def Op.ballot (m : SentinelManager) : Op → Option Ballot
  | .handleRequestVote term candidateId =>
    if (m.handleRequestVote term candidateId).1 then some ⟨term, candidateId⟩ else none
  | .handleHeartbeat _ _ => none
  | .becomeFollower _ => none
  | .becomeCandidate => some ⟨(m.becomeCandidate myId).currentTerm, myId⟩

def ballots (m : SentinelManager) : List Op → List Ballot
  | [] => []
  | op :: ops => (op.ballot myId m).toList ++ ballots (op.apply myId m) ops

structure OneVote (m : SentinelManager) (ops : List Op) : Prop where
  terms : ∀ n, ((ops.take n).foldl (Op.apply myId) m).currentTerm ≤
    ((ops.take (n + 1)).foldl (Op.apply myId) m).currentTerm
  votes : ∀ a ∈ ballots myId m ops, ∀ b ∈ ballots myId m ops, a.term = b.term → a.candidateId = b.candidateId

/-- No candidacy in the term `2 ^ 64 - 1`. -/
def Unwrapped (m : SentinelManager) : List Op → Prop
  | [] => True
  | op :: ops => (op = .becomeCandidate → m.currentTerm + 1 < 2 ^ 64) ∧ Unwrapped (op.apply myId m) ops

/-! ## Lemmas -/

variable {myId : Bytes} {m : SentinelManager}

/-- An operation that does not wrap the term raises or keeps it, and a vote is in a term it raises it to. -/
theorem Op.apply_spec {op : Op} (h : op = .becomeCandidate → m.currentTerm + 1 < 2 ^ 64) :
    m.currentTerm ≤ (op.apply myId m).currentTerm ∧
      ∀ b ∈ op.ballot myId m, m.currentTerm < b.term ∧ b.term = (op.apply myId m).currentTerm := by
  cases op with
  | handleRequestVote term candidateId =>
    simp only [Op.apply, Op.ballot, SentinelManager.handleRequestVote]
    split
    · exact ⟨Nat.le_refl _, by simp⟩
    · next hlt =>
      split
      · refine ⟨by simp only; omega, ?_⟩
        intro b hb
        cases hb
        exact ⟨by simp only; omega, rfl⟩
      · exact ⟨Nat.le_refl _, by simp⟩
  | handleHeartbeat term leaderId =>
    refine ⟨?_, fun b hb => by cases hb⟩
    simp only [Op.apply, SentinelManager.handleHeartbeat]
    split
    · exact Nat.le_refl _
    · simp only
      omega
  | becomeFollower newTerm => exact ⟨Nat.le_max_left _ _, fun b hb => by cases hb⟩
  | becomeCandidate =>
    have hterm : (m.becomeCandidate myId).currentTerm = m.currentTerm + 1 := Nat.mod_eq_of_lt (h rfl)
    refine ⟨by simp only [Op.apply]; omega, ?_⟩
    intro b hb
    cases hb
    exact ⟨by simp only; omega, rfl⟩

theorem Op.apply_wraps (myId : Bytes) (h : ¬ m.currentTerm + 1 < 2 ^ 64) :
    (Op.becomeCandidate.apply myId m).currentTerm < m.currentTerm := by
  show (m.currentTerm + 1) % 2 ^ 64 < m.currentTerm
  omega

variable {ops : List Op}

/-- The votes of a run are in later and later terms. -/
theorem ballots_increase (h : Unwrapped myId m ops) :
    (∀ b ∈ ballots myId m ops, m.currentTerm < b.term) ∧
      (ballots myId m ops).Pairwise (fun a b => a.term < b.term) := by
  induction ops generalizing m with
  | nil => exact ⟨fun b hb => (List.not_mem_nil hb).elim, List.Pairwise.nil⟩
  | cons op ops ih =>
    obtain ⟨hle, hvote⟩ := op.apply_spec h.1
    obtain ⟨hlater, hpairs⟩ := ih h.2
    refine ⟨?_, ?_⟩
    · intro b hb
      obtain hb | hb := List.mem_append.mp hb
      · exact (hvote b (Option.mem_toList.mp hb)).1
      · have := hlater b hb
        omega
    · refine List.pairwise_append.mpr ⟨?_, hpairs, ?_⟩
      · cases op.ballot myId m with
        | none => exact List.Pairwise.nil
        | some b => exact List.pairwise_singleton _ b
      · intro a ha b hb
        have hterm := (hvote a (Option.mem_toList.mp ha)).2
        have := hlater b hb
        omega

theorem terms_of_unwrapped (h : Unwrapped myId m ops) (n : Nat) :
    ((ops.take n).foldl (Op.apply myId) m).currentTerm ≤
      ((ops.take (n + 1)).foldl (Op.apply myId) m).currentTerm := by
  induction ops generalizing m n with
  | nil =>
    rw [List.take_nil, List.take_nil]
  | cons op ops ih =>
    cases n with
    | zero => exact (op.apply_spec h.1).1
    | succ n => exact ih h.2 n

theorem unwrapped_of_terms
    (h : ∀ n, ((ops.take n).foldl (Op.apply myId) m).currentTerm ≤
      ((ops.take (n + 1)).foldl (Op.apply myId) m).currentTerm) : Unwrapped myId m ops := by
  induction ops generalizing m with
  | nil => trivial
  | cons op ops ih =>
    refine ⟨?_, ih fun n => h (n + 1)⟩
    rintro rfl
    by_contra hwrap
    have hfirst : m.currentTerm ≤ (Op.becomeCandidate.apply myId m).currentTerm := h 0
    have := Op.apply_wraps myId hwrap
    omega

/-! ## Top theorem -/

/-- **One vote in a term.** -/
theorem oneVote_iff_unwrapped (myId : Bytes) (m : SentinelManager) (ops : List Op) :
    OneVote myId m ops ↔ Unwrapped myId m ops := by
  constructor
  · intro h
    exact unwrapped_of_terms h.terms
  · intro h
    refine ⟨terms_of_unwrapped h, ?_⟩
    have hnodup : ((ballots myId m ops).map Ballot.term).Nodup :=
      List.pairwise_map.mpr ((ballots_increase h).2.imp Nat.ne_of_lt)
    intro a ha b hb hab
    rw [List.inj_on_of_nodup_map hnodup ha hb hab]

/-- A vote in term 5, a heartbeat of the last term, a candidacy, and another vote in term 5. -/
def wrappedVotes : List Op :=
  [.handleRequestVote 5 (lit "a"), .handleHeartbeat (2 ^ 64 - 1) (lit "b"), .becomeCandidate, .becomeFollower 0,
    .handleRequestVote 5 (lit "c")]

theorem votes_twice_wrapped : ¬ OneVote (lit "me") {} wrappedVotes := by
  intro h
  have hsame := h.votes ⟨5, lit "a"⟩ (by decide +kernel) ⟨5, lit "c"⟩ (by decide +kernel) rfl
  revert hsame
  decide

end Rpc
