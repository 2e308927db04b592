import ZeroFrameworks.Kv.Persistence.Aof
import ZeroFrameworks.Kv.Resp.Framing
import ZeroFrameworks.Kv.Server.Repeatable

/-!
# A replica follows its master

`runSlaveSyncOnce` applies the commands of its master's stream with a connection that the gates let
through.  The loop makes a new connection for every command and adds the length of the command's
encoding to `masterOffset`; `drainSessionReplication`, which runs first after CONTINUE, keeps one
connection for the commands that have already arrived.
-/

namespace Kv

variable {F : Type} [Platform F]

/-! ## Algorithm -/

/-- The connection of a replica to itself. -/
def applyContext : KvContext := { replApply := true, authenticated := true }

/-- `m_master_offset += n`, unless there is no offset. -/
def addMasterOffset (n : Nat) (sv : Server F) : Server F :=
  if 0 ≤ sv.repl.masterOffset then
    { sv with repl := { sv.repl with masterOffset := sv.repl.masterOffset + n } }
  else sv

/-- One round of the loop of `runSlaveSyncOnce`. -/
def applyOne (env : Env) (cmd : RespValue) (sv : Server F) : Server F :=
  addMasterOffset (encode cmd).length (dispatch env cmd applyContext sv).2.2

/-- The loop on what the session has received, for as many rounds. -/
def follow (envs : Nat → Env) (rounds : Nat) (data : Bytes) (sv : Server F) : Stop × Nat × Server F :=
  scan (fun n => applyOne (envs n)) rounds 0 0 data sv

/-- `drainSessionReplication`: the bytes applied, and the offset afterwards. -/
def drainSessionReplication (envs : Nat → Env) (rounds : Nat) (data : Bytes) (sv : Server F) :
    Nat × KvContext × Server F :=
  (scan (fun n cmd st =>
    let r := dispatch (envs n) cmd st.2.1 st.2.2
    (st.1 + (encode cmd).length, r.2.1, r.2.2)) rounds 0 0 data (0, applyContext, sv)).2.2

/-- `applyReplicationPayload`: the bytes applied. -/
def applyReplicationPayload (envs : Nat → Env) (payload : Bytes) (sv : Server F) :
    Nat × KvContext × Server F :=
  (scan (fun n cmd st => (dispatch (envs n) cmd st.1 st.2).2) (payload.length + 1) 0 0 payload
    (applyContext, sv)).2

/-! ## Lemmas -/

theorem replayFrom_eq_scan (envs : Nat → Env) (fuel n pos : Nat) (data : Bytes)
    (st : KvContext × Server F) :
    replayFrom envs fuel n pos data st =
      let r := scan (fun n => replayOne (envs n)) fuel n pos data st
      (match r.1 with
        | .rounds | .done => .ok ()
        | .needMore => .error (lit "ERR truncated AOF at offset " ++ printNat r.2.1)
        | .error => .error (lit "ERR corrupt AOF at offset " ++ printNat r.2.1), r.2.2) := by
  induction fuel generalizing n pos data st with
  | zero => rfl
  | succ fuel ih =>
    unfold replayFrom scan
    by_cases he : data.isEmpty = true
    · rw [if_pos he, if_pos he]
    · rw [if_neg he, if_neg he]
      cases tryParse data with
      | needMore => rfl
      | error => rfl
      | ok req consumed => exact ih (n + 1) (pos + consumed) (data.drop consumed) _

theorem repl_dispatch_of_mutating {env : Env} {req : RespValue} {ctx : KvContext} {sv : Server F}
    (hm : isMutatingCommand (upperCmd req) = true) : (dispatch env req ctx sv).2.2.repl = sv.repl := by
  unfold dispatch dispatchWith
  cases hf : fate ctx sv req with
  | refused rsp => rfl
  | queued => rfl
  | runs c =>
    have hc : c.mutating = true := by rw [← mutating_of_fate hf, hm]
    obtain ⟨db, store, waiters, hr⟩ := handle_frame hc env req.items ctx sv
    simp only [hr]

theorem masterOffset_applyOne {env : Env} {cmd : RespValue} {sv : Server F}
    (hm : isMutatingCommand (upperCmd cmd) = true) (ho : 0 ≤ sv.repl.masterOffset) :
    (applyOne env cmd sv).repl.masterOffset = sv.repl.masterOffset + (encode cmd).length := by
  unfold applyOne addMasterOffset
  rw [repl_dispatch_of_mutating hm, if_pos ho]

theorem masterOffset_applyAll (envs : Nat → Env) (cmds : List RespValue)
    (hm : ∀ cmd ∈ cmds, isMutatingCommand (upperCmd cmd) = true) (n : Nat) (sv : Server F)
    (ho : 0 ≤ sv.repl.masterOffset) :
    (applyAll (fun n => applyOne (envs n)) n cmds sv).repl.masterOffset =
      sv.repl.masterOffset + (cmds.flatMap encode).length := by
  induction cmds generalizing n sv with
  | nil => simp [applyAll]
  | cons cmd cmds ih =>
    have hone : (applyOne (envs n) cmd sv).repl.masterOffset = _ :=
      masterOffset_applyOne (hm cmd List.mem_cons_self) ho
    rw [applyAll, ih (fun c h => hm c (List.mem_cons_of_mem _ h)) (n + 1) _ (by omega), hone,
      List.flatMap_cons, List.length_append]
    omega

theorem drained_applyAll (envs : Nat → Env) (cmds : List RespValue) (n : Nat)
    (st : Nat × KvContext × Server F) :
    (applyAll (fun n cmd st =>
      let r := dispatch (envs n) cmd st.2.1 st.2.2
      (st.1 + (encode cmd).length, r.2.1, r.2.2)) n cmds st).1 =
        st.1 + (cmds.flatMap encode).length := by
  induction cmds generalizing n st with
  | nil => rfl
  | cons cmd cmds ih => rw [applyAll, ih, List.flatMap_cons, List.length_append, Nat.add_assoc]

/-! ## Top theorem -/

/-- The replay loop visits exactly the commands and ends at the end of the data; a command's encoding
is as long as what parsing it consumed; and after every round a replica's offset, or the count of its
drain, has grown by the bytes it has gone past. -/
theorem framing_exact (envs : Nat → Env) (cmds : List RespValue)
    (hc : ∀ cmd ∈ cmds, isCommand cmd = true) (sv : Server F) :
    (scan (fun _ cmd seen => seen ++ [cmd]) (cmds.length + 1) 0 0 (cmds.flatMap encode) [] =
        (.done, (cmds.flatMap encode).length, cmds) ∧
      replay envs (cmds.flatMap encode) sv = (.ok (), replayCommands envs 0 cmds ({}, sv))) ∧
    (∀ cmd ∈ cmds, ∀ rest, tryParse (encode cmd ++ rest) = .ok cmd (encode cmd).length) ∧
    ((∀ cmd ∈ cmds, isMutatingCommand (upperCmd cmd) = true) → 0 ≤ sv.repl.masterOffset →
      ∀ rounds ≤ cmds.length,
        let r := follow envs rounds (cmds.flatMap encode) sv
        r.2.1 = ((cmds.take rounds).flatMap encode).length ∧
          r.2.2.repl.masterOffset = sv.repl.masterOffset + r.2.1 ∧
          (drainSessionReplication envs rounds (cmds.flatMap encode) sv).1 = r.2.1) ∧
    (applyReplicationPayload envs (cmds.flatMap encode) sv).1 = (cmds.flatMap encode).length := by
  have hw : ∀ cmd ∈ cmds, wire cmd = true := fun cmd h => wire_of_isCommand (hc cmd h)
  refine ⟨⟨?_, replay_encode envs cmds hw sv⟩, fun cmd h rest => tryParse_encode cmd rest (hw cmd h), ?_, ?_⟩
  · have hseen : ∀ n (xs seen : List RespValue),
        applyAll (fun _ cmd seen => seen ++ [cmd]) n xs seen = seen ++ xs := by
      intro n xs
      induction xs generalizing n with
      | nil => intro seen; simp [applyAll]
      | cons x xs ih => intro seen; rw [applyAll, ih]; simp
    rw [scan_encode _ cmds hw _ (Nat.lt_succ_self _), hseen, List.nil_append, Nat.zero_add]
  · intro hm ho rounds hr r
    have hscan : r = _ := scan_take (fun n => applyOne (envs n)) cmds hw rounds hr 0 0 sv
    have hoff := masterOffset_applyAll envs (cmds.take rounds)
      (fun c h => hm c (List.mem_of_mem_take h)) 0 sv ho
    have hdrain : (drainSessionReplication envs rounds (cmds.flatMap encode) sv).1 =
        ((cmds.take rounds).flatMap encode).length := by
      unfold drainSessionReplication
      rw [scan_take _ cmds hw rounds hr, drained_applyAll, Nat.zero_add]
    rw [hscan, hdrain]
    refine ⟨Nat.zero_add _, ?_, (Nat.zero_add _).symm⟩
    rw [hoff]
    simp
  · unfold applyReplicationPayload
    rw [scan_encode _ cmds hw _ (Nat.lt_succ_of_le (length_le_flatMap_encode cmds)), Nat.zero_add]

/-- Two commands, one with a null argument: read back in order, and counted by a replica. -/
theorem framing_exact_two :
    let cmds : List RespValue := [.array [.bulk (lit "SET"), .bulk (lit "k"), .bulk [13, 10]],
      .array [.bulk (lit "DEL"), .nullBulk]]
    let sv : Server Int := { store := .empty, repl := { replId := [], masterOffset := 7 } }
    (follow (fun _ => { now := 1 }) 2 (cmds.flatMap encode) sv).2.2.repl.masterOffset = 7 + 46 := by
  intro cmds sv
  have h := (framing_exact (fun _ => { now := 1 }) cmds (by decide) sv).2.2.1 (by decide)
    (by decide) 2 (by decide)
  rw [h.2.1, h.1]
  decide

end Kv
