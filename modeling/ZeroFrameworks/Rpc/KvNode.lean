import ZeroFrameworks.Kv.Server.Commands

/-!
# ReplicaOf on a KV node

The sentinels move the KV nodes with ReplicaOf requests, which carry the term of the leader that sent them.
The handler of `MakeKvNodeHandler` writes the term to the log and obeys every request.

So a node is fenced against leaders of earlier terms if and only if their requests, when they come late, ask
for what the request before asked for:

    Fenced repl [] reqs ↔ repl = none ∨ InOrder [] reqs
-/

namespace Rpc

open Kv (Bytes lit Replication Role)
open Kv.Commands (setSlaveOf)

/-! ## Algorithm -/

structure ReplicaOfRequest where
  masterHost : Bytes
  masterPort : Int
  term : Nat
deriving DecidableEq

structure ReplicaOfResponse where
  accepted : Bool := false
  error : Bytes := []

/-- The handler of ReplicaOf; a server without a replication manager has nothing to move. -/
def replicaOf (req : ReplicaOfRequest) (repl : Option Replication) : ReplicaOfResponse × Option Replication :=
  match repl with
  | none => ({ accepted := false, error := lit "no replication manager" }, none)
  | some r =>
    if req.masterHost = [] then ({ accepted := true }, some (setSlaveOf [] 0 r))
    else ({ accepted := true }, some (setSlaveOf req.masterHost req.masterPort r))

/-- The role of the node and its master. -/
def seat (repl : Option Replication) : Option (Role × Bytes × Int) :=
  repl.map fun r => (r.role, r.masterHost, r.masterPort)

/-- No request moves the node that has a lower term than one obeyed before; `obeyed` are the terms of those. -/
def Fenced (repl : Option Replication) (obeyed : List Nat) : List ReplicaOfRequest → Prop
  | [] => True
  | req :: reqs =>
    let r := replicaOf req repl
    ((∃ term ∈ obeyed, req.term < term) → seat r.2 = seat repl) ∧
      Fenced r.2 (if r.1.accepted then req.term :: obeyed else obeyed) reqs

/-- The two requests ask for the same role and master. -/
def SameTarget (a b : ReplicaOfRequest) : Prop :=
  a.masterHost = b.masterHost ∧ (a.masterHost ≠ [] → a.masterPort = b.masterPort)

/-- A request with a lower term than one before asks for the same as the last one before it; `earlier` are
those before, the last one first. -/
def InOrder (earlier : List ReplicaOfRequest) : List ReplicaOfRequest → Prop
  | [] => True
  | req :: reqs =>
    ((∃ q ∈ earlier, req.term < q.term) → ∀ last ∈ earlier.head?, SameTarget req last) ∧
      InOrder (req :: earlier) reqs

/-! ## Lemmas -/

theorem replicaOf_some (req : ReplicaOfRequest) (r : Replication) :
    (replicaOf req (some r)).1.accepted = true ∧
      ∃ r', (replicaOf req (some r)).2 = some r' ∧
        seat (some r') = if req.masterHost = [] then some (.master, [], 0)
          else some (.slave, req.masterHost, req.masterPort) := by
  unfold replicaOf
  simp only
  split
  · exact ⟨rfl, _, rfl, rfl⟩
  · next hhost =>
    refine ⟨rfl, _, rfl, ?_⟩
    unfold setSlaveOf
    rw [if_neg (by simpa using hhost)]
    rfl

/-- What the node is after a request says what the request asked for. -/
theorem seat_replicaOf_iff (a b : ReplicaOfRequest) (r s : Replication) :
    seat (replicaOf a (some r)).2 = seat (replicaOf b (some s)).2 ↔ SameTarget a b := by
  obtain ⟨-, r', hr, hseat⟩ := replicaOf_some a r
  obtain ⟨-, s', hs, hseat'⟩ := replicaOf_some b s
  rw [hr, hs, hseat, hseat']
  unfold SameTarget
  by_cases ha : a.masterHost = []
  · rw [if_pos ha]
    by_cases hb : b.masterHost = []
    · simp [ha, hb]
    · rw [if_neg hb]
      simp only [Option.some.injEq, Prod.mk.injEq, ha]
      constructor
      · rintro ⟨hrole, -⟩
        cases hrole
      · rintro ⟨heq, -⟩
        exact absurd heq.symm hb
  · rw [if_neg ha]
    by_cases hb : b.masterHost = []
    · rw [if_pos hb]
      simp only [Option.some.injEq, Prod.mk.injEq, hb]
      constructor
      · rintro ⟨hrole, -⟩
        cases hrole
      · rintro ⟨heq, -⟩
        exact absurd heq ha
    · rw [if_neg hb]
      simp [ha]

theorem fenced_none (obeyed : List Nat) (reqs : List ReplicaOfRequest) : Fenced none obeyed reqs := by
  induction reqs generalizing obeyed with
  | nil => trivial
  | cons req reqs ih => exact ⟨fun _ => rfl, ih _⟩

theorem fenced_some_iff (r : Replication) (last : ReplicaOfRequest) (earlier reqs : List ReplicaOfRequest) :
    Fenced (replicaOf last (some r)).2 ((last :: earlier).map (·.term)) reqs ↔
      InOrder (last :: earlier) reqs := by
  induction reqs generalizing r last earlier with
  | nil => exact ⟨fun _ => trivial, fun _ => trivial⟩
  | cons req reqs ih =>
    obtain ⟨-, r', hr, -⟩ := replicaOf_some last r
    have haccepted := (replicaOf_some req r').1
    have htarget := seat_replicaOf_iff req last r' r
    rw [hr] at htarget
    rw [hr]
    simp only [Fenced, InOrder, haccepted, if_true]
    refine and_congr ?_ (ih r' req (last :: earlier))
    rw [htarget]
    have hlower : (∃ term ∈ (last :: earlier).map (·.term), req.term < term) ↔
        ∃ q ∈ last :: earlier, req.term < q.term := by
      constructor
      · rintro ⟨term, hterm, hlt⟩
        obtain ⟨q, hq, rfl⟩ := List.mem_map.mp hterm
        exact ⟨q, hq, hlt⟩
      · rintro ⟨q, hq, hlt⟩
        exact ⟨q.term, List.mem_map_of_mem hq, hlt⟩
    rw [hlower]
    refine imp_congr_right fun _ => ?_
    simp

/-! ## Top theorem -/

/-- **The term of a request does not fence the node.** -/
theorem fenced_iff_inOrder (repl : Option Replication) (reqs : List ReplicaOfRequest) :
    Fenced repl [] reqs ↔ repl = none ∨ InOrder [] reqs := by
  cases repl with
  | none => exact ⟨fun _ => Or.inl rfl, fun _ => fenced_none [] reqs⟩
  | some r =>
    have hor : ((some r : Option Replication) = none ∨ InOrder [] reqs) ↔ InOrder [] reqs := by simp
    rw [hor]
    cases reqs with
    | nil => exact ⟨fun _ => trivial, fun _ => trivial⟩
    | cons req reqs =>
      have haccepted := (replicaOf_some req r).1
      have hrest := fenced_some_iff r req [] reqs
      simp only [Fenced, InOrder, haccepted, if_true]
      refine and_congr ?_ hrest
      simp

/-- The leader of term 2 makes the node a replica, then the request of the leader of term 1 comes in and
promotes it. -/
theorem stale_leader_obeyed :
    ¬ Fenced (some { replId := [] }) [] [⟨lit "10.0.0.2", 6379, 2⟩, ⟨[], 0, 1⟩] := by
  intro h
  have hmoved := h.2.1 ⟨2, by decide, by decide⟩
  revert hmoved
  decide

end Rpc
