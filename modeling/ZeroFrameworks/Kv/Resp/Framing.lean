import ZeroFrameworks.Kv.Resp.Reader

/-!
# Reading a stream of commands

The replay of the log and the two loops of a replica read commands from the front of their data:
parse at a position, go past what was consumed, apply the command.  `scan` is that loop for any way
of applying commands; it stops after a number of rounds at the latest.

    cmds are wire → scan of cmds.flatMap encode visits exactly cmds, in order, and ends at the end of
      the data   (scan_encode)
    after k rounds it has visited the first k and stands at the end of their encodings   (scan_take)
-/

namespace Kv

/-! ## Algorithm -/

/-- Why the loop stopped: out of rounds, at the end of the data, or at what is not a command. -/
inductive Stop where
  | rounds | done | needMore | error
  deriving DecidableEq, Repr

/-- Parse at the front, apply, go on behind; `n` commands have been read, up to `pos`. -/
def scan {σ : Type} (apply : Nat → RespValue → σ → σ) : Nat → Nat → Nat → Bytes → σ → Stop × Nat × σ
  | 0, _, pos, _, st => (.rounds, pos, st)
  | rounds + 1, n, pos, data, st =>
    if data.isEmpty then (.done, pos, st)
    else
      match tryParse data with
      | .needMore => (.needMore, pos, st)
      | .error => (.error, pos, st)
      | .ok req consumed =>
        scan apply rounds (n + 1) (pos + consumed) (data.drop consumed) (apply n req st)

/-- Apply commands one after the other. -/
def applyAll {σ : Type} (apply : Nat → RespValue → σ → σ) : Nat → List RespValue → σ → σ
  | _, [], st => st
  | n, req :: rest, st => applyAll apply (n + 1) rest (apply n req st)

/-- An array of bulk strings, some of them possibly null, of lengths that a 64-bit number can hold. -/
def isCommand : RespValue → Bool
  | .array xs => decide (xs.length < 2 ^ 63) && xs.all fun
      | .bulk s => decide (s.length < 2 ^ 63)
      | .nullBulk => true
      | _ => false
  | _ => false

/-! ## Lemmas -/

theorem wire_of_isCommand {v : RespValue} (h : isCommand v = true) : wire v = true := by
  cases v with
  | array xs =>
    simp only [isCommand, Bool.and_eq_true] at h
    obtain ⟨hlen, hall⟩ := h
    simp only [wire, Bool.and_eq_true]
    refine ⟨hlen, ?_⟩
    clear hlen
    induction xs with
    | nil => rfl
    | cons x xs ih =>
      rw [List.all_cons, Bool.and_eq_true] at hall
      rw [wireItems, ih hall.2, Bool.and_true]
      cases x with
      | bulk s => exact hall.1
      | nullBulk => rfl
      | _ => exact absurd hall.1 Bool.false_ne_true
  | _ => cases h

theorem flatMap_encode_isEmpty (req : RespValue) (rest : Bytes) : (encode req ++ rest).isEmpty = false := by
  rw [List.isEmpty_eq_false_iff]
  intro h
  exact encode_ne_nil req (List.append_eq_nil_iff.mp h).1

section

variable {σ : Type} (apply : Nat → RespValue → σ → σ)

theorem applyAll_append (n : Nat) (cmds rest : List RespValue) (st : σ) :
    applyAll apply n (cmds ++ rest) st =
      applyAll apply (n + cmds.length) rest (applyAll apply n cmds st) := by
  induction cmds generalizing n st with
  | nil => rfl
  | cons req cmds ih =>
    rw [List.cons_append, applyAll, ih, applyAll, List.length_cons]
    rw [Nat.add_assoc, Nat.add_comm 1]

theorem scan_cons (rounds n pos : Nat) (req : RespValue) (rest : Bytes) (st : σ)
    (hw : wire req = true) :
    scan apply (rounds + 1) n pos (encode req ++ rest) st =
      scan apply rounds (n + 1) (pos + (encode req).length) rest (apply n req st) := by
  rw [scan, flatMap_encode_isEmpty, if_neg Bool.false_ne_true, tryParse_encode req rest hw]
  show scan apply rounds (n + 1) (pos + (encode req).length)
    ((encode req ++ rest).drop (encode req).length) _ = _
  rw [List.drop_left]

/-! ## Top theorems -/

theorem scan_take (cmds : List RespValue) (hw : ∀ req ∈ cmds, wire req = true) (rounds : Nat)
    (hr : rounds ≤ cmds.length) (n pos : Nat) (st : σ) :
    scan apply rounds n pos (cmds.flatMap encode) st =
      (.rounds, pos + ((cmds.take rounds).flatMap encode).length, applyAll apply n (cmds.take rounds) st) := by
  induction cmds generalizing rounds n pos st with
  | nil =>
    obtain rfl : rounds = 0 := Nat.le_zero.mp hr
    rfl
  | cons req cmds ih =>
    cases rounds with
    | zero => rfl
    | succ rounds =>
      have hrest := ih (fun r h => hw r (List.mem_cons_of_mem _ h)) rounds (Nat.le_of_succ_le_succ hr)
        (n + 1) (pos + (encode req).length) (apply n req st)
      rw [List.flatMap_cons, scan_cons apply rounds n pos req _ st (hw req List.mem_cons_self), hrest]
      rw [List.take_succ_cons, List.flatMap_cons, List.length_append, Nat.add_assoc]
      rfl

/-- With more rounds than commands, the loop visits all of them and ends at the end of the data. -/
theorem scan_encode (cmds : List RespValue) (hw : ∀ req ∈ cmds, wire req = true) (rounds : Nat)
    (hr : cmds.length < rounds) (n pos : Nat) (st : σ) :
    scan apply rounds n pos (cmds.flatMap encode) st =
      (.done, pos + (cmds.flatMap encode).length, applyAll apply n cmds st) := by
  induction cmds generalizing rounds n pos st with
  | nil =>
    cases rounds with
    | zero => cases hr
    | succ rounds => rfl
  | cons req cmds ih =>
    cases rounds with
    | zero => cases hr
    | succ rounds =>
      have hrest := ih (fun r h => hw r (List.mem_cons_of_mem _ h)) rounds (Nat.lt_of_succ_lt_succ hr)
        (n + 1) (pos + (encode req).length) (apply n req st)
      rw [List.flatMap_cons, scan_cons apply rounds n pos req _ st (hw req List.mem_cons_self), hrest]
      rw [List.length_append, Nat.add_assoc]
      rfl

end

end Kv
