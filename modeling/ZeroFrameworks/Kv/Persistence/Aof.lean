import ZeroFrameworks.Kv.Resp.Reader
import ZeroFrameworks.Kv.Server.Dispatch

/-!
# Replaying the append-only log

The log is the concatenation of the encoded commands that were appended to it.  `replay` parses
it from the front and sends every command through `dispatch` with a connection of its own, which
starts in database 0 and is not authenticated; the replies are dropped.

    every command of cmds can be read back (wire) →
      replaying the encodings of cmds is dispatching cmds in order   (replay_encode)
-/

namespace Kv

variable {F : Type} [Platform F]

/-! ## Algorithm -/

/-- One command of the log; a QUIT has no effect. -/
def replayOne (env : Env) (req : RespValue) (st : KvContext × Server F) : KvContext × Server F :=
  let r := dispatch env req st.1 st.2
  ({ r.2.1 with quit := false }, r.2.2)

/-- The loop of `AofLog::replay` over what is left of the log; `n` commands have been read, up to
`pos`.  `envs n` is what command `n` meets. -/
def replayFrom (envs : Nat → Env) : Nat → Nat → Nat → Bytes → KvContext × Server F →
    Except Bytes Unit × KvContext × Server F
  | 0, _, _, _, st => (.ok (), st)
  | fuel + 1, n, pos, data, st =>
    if data.isEmpty then (.ok (), st)
    else
      match tryParse data with
      | .needMore => (.error (lit "ERR truncated AOF at offset " ++ printNat pos), st)
      | .error => (.error (lit "ERR corrupt AOF at offset " ++ printNat pos), st)
      | .ok req consumed =>
        replayFrom envs fuel (n + 1) (pos + consumed) (data.drop consumed) (replayOne (envs n) req st)

/-- `AofLog::replay` of a log on a server: the result, the connection it used and the server. -/
def replay (envs : Nat → Env) (data : Bytes) (sv : Server F) : Except Bytes Unit × KvContext × Server F :=
  replayFrom envs data.length 0 0 data ({}, sv)

/-- The commands of a log, one after the other. -/
def replayCommands (envs : Nat → Env) : Nat → List RespValue → KvContext × Server F →
    KvContext × Server F
  | _, [], st => st
  | n, req :: rest, st => replayCommands envs (n + 1) rest (replayOne (envs n) req st)

/-! ## Lemmas -/

theorem replayCommands_append (envs : Nat → Env) (n : Nat) (cmds rest : List RespValue)
    (st : KvContext × Server F) :
    replayCommands envs n (cmds ++ rest) st =
      replayCommands envs (n + cmds.length) rest (replayCommands envs n cmds st) := by
  induction cmds generalizing n st with
  | nil => rfl
  | cons req cmds ih =>
    rw [List.cons_append, replayCommands, ih, replayCommands, List.length_cons]
    rw [Nat.add_assoc, Nat.add_comm 1]

theorem length_le_flatMap_encode (cmds : List RespValue) : cmds.length ≤ (cmds.flatMap encode).length := by
  induction cmds with
  | nil => exact Nat.le_refl 0
  | cons req cmds ih =>
    have hpos : 0 < (encode req).length := List.length_pos_iff.mpr (encode_ne_nil req)
    rw [List.flatMap_cons, List.length_append, List.length_cons]
    omega

/-- With as many rounds as there are commands, the loop reads exactly these. -/
theorem replayFrom_encode (envs : Nat → Env) (cmds : List RespValue)
    (hw : ∀ req ∈ cmds, wire req = true) (fuel : Nat) (hf : cmds.length ≤ fuel) (n pos : Nat)
    (st : KvContext × Server F) :
    replayFrom envs fuel n pos (cmds.flatMap encode) st = (.ok (), replayCommands envs n cmds st) := by
  induction cmds generalizing fuel n pos st with
  | nil =>
    cases fuel with
    | zero => rfl
    | succ fuel => rfl
  | cons req cmds ih =>
    cases fuel with
    | zero => cases hf
    | succ fuel =>
      have hne : (encode req ++ cmds.flatMap encode).isEmpty = false := by
        rw [List.isEmpty_eq_false_iff]
        intro h
        exact encode_ne_nil req (List.append_eq_nil_iff.mp h).1
      have hparse := tryParse_encode req (cmds.flatMap encode) (hw req List.mem_cons_self)
      have hrest := ih (fun r hr => hw r (List.mem_cons_of_mem _ hr)) fuel (Nat.le_of_succ_le_succ hf)
        (n + 1) (pos + (encode req).length) (replayOne (envs n) req st)
      rw [List.flatMap_cons, replayFrom, hne, if_neg Bool.false_ne_true, hparse]
      show replayFrom envs fuel (n + 1) (pos + (encode req).length)
        ((encode req ++ cmds.flatMap encode).drop (encode req).length) _ = _
      rw [List.drop_left, hrest]
      rfl

/-! ## Top theorem -/

theorem replay_encode (envs : Nat → Env) (cmds : List RespValue)
    (hw : ∀ req ∈ cmds, wire req = true) (sv : Server F) :
    replay envs (cmds.flatMap encode) sv = (.ok (), replayCommands envs 0 cmds ({}, sv)) :=
  replayFrom_encode envs cmds hw _ (length_le_flatMap_encode cmds) 0 0 ({}, sv)

end Kv
