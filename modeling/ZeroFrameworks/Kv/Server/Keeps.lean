import ZeroFrameworks.Kv.Server.Dispatch

/-!
# What every command keeps

A relation between a connection with its server and what they become is kept by `dispatch` if the single
handlers keep it: scripts and transactions only put these together.

    Keeps R → R (ctx, sv) (dispatch env req ctx sv).2   (Keeps.dispatch)
-/

namespace Kv

variable {F : Type} [Platform F]

/-! ## Specification -/

structure Keeps (R : KvContext × Server F → KvContext × Server F → Prop) : Prop where
  refl : ∀ st, R st st
  trans : ∀ {a b c}, R a b → R b c → R a c
  /-- Commands on the store, with the waiters that a push serves. -/
  store : ∀ ctx sv store waiters, R (ctx, sv) (ctx, { sv with store, waiters })
  server : ∀ c env args ctx sv, R (ctx, sv) (handleServer c env args ctx sv).2
  slowlog : ∀ ctx sv slowlog, R (ctx, sv) (ctx, { sv with slowlog })
  queue : ∀ ctx sv multiQueue, R (ctx, sv) ({ ctx with multiQueue }, sv)
  endMulti : ∀ ctx sv, R (ctx, sv) (Commands.endMulti ctx, sv)
  record : ∀ req rsp ctx sv, R (ctx, sv) (ctx, recordQueued req rsp sv)

/-! ## Lemmas -/

namespace Keeps

variable {R : KvContext × Server F → KvContext × Server F → Prop} {env : Env} {args : List RespValue}
  {ctx : KvContext} {sv : Server F}

theorem handleBasic (h : Keeps R) (c : Command) : R (ctx, sv) (handleBasic c env args ctx sv).2 := by
  cases c with
  | store c => exact h.store ctx sv _ sv.waiters
  | push c => exact h.store ctx sv _ _
  | server c => exact h.server c env args ctx sv
  | eval => exact h.refl _
  | evalsha => exact h.refl _
  | exec => exact h.refl _

theorem dispatchWith (h : Keeps R) {handle : Command → Handler F} {req : RespValue}
    (hh : ∀ c, R (ctx, sv) (handle c env req.items ctx sv).2) :
    R (ctx, sv) (dispatchWith handle env req ctx sv).2 := by
  unfold Kv.dispatchWith
  split
  · exact h.refl _
  · exact h.queue ctx sv _
  · exact h.trans (hh _) (h.slowlog _ _ _)

theorem runScript (h : Keeps R) (run : LuaRun) : R (ctx, sv) (runScript env run ctx sv).2 := by
  induction run generalizing ctx sv with
  | done _ => exact h.refl _
  | call args next ih =>
    have hcall : R (ctx, sv) (redisCall env args ctx sv).2 := by
      unfold redisCall
      split
      · exact h.refl _
      · exact h.dispatchWith fun c => h.handleBasic c
    exact h.trans hcall (ih _)

theorem handleQueued (h : Keeps R) (c : Command) : R (ctx, sv) (handleQueued c env args ctx sv).2 := by
  unfold Kv.handleQueued
  split
  · unfold eval
    repeat' split
    · exact h.refl _
    · exact h.refl _
    · exact h.runScript _
  · unfold evalsha
    simp only
    repeat' split
    · exact h.refl _
    · exact h.refl _
    · exact h.runScript _
  · exact h.refl _
  · exact h.handleBasic _

theorem execQueue (h : Keeps R) (queue : List RespValue) : R (ctx, sv) (execQueue env queue ctx sv).2 := by
  induction queue generalizing ctx sv with
  | nil => exact h.refl _
  | cons req queue ih =>
    have hone : R (ctx, sv) (dispatchExecOne Kv.handleQueued env req ctx sv).2 := by
      unfold dispatchExecOne
      repeat' split
      · exact h.refl _
      · exact h.refl _
      · exact h.handleQueued _
    exact h.trans hone (h.trans (h.record req _ _ _) ih)

theorem exec (h : Keeps R) : R (ctx, sv) (exec env args ctx sv).2 := by
  have hconflict : R (ctx, sv)
      (Commands.endMulti ctx, (sv.onStore (Commands.watchConflict ctx.watched) env).2) :=
    h.trans (h.endMulti ctx sv) (h.store _ sv _ sv.waiters)
  unfold Kv.exec
  simp only
  repeat' split
  · exact h.refl _
  · exact h.refl _
  · exact hconflict
  · exact h.trans hconflict (h.execQueue _)

/-! ## Top theorem -/

theorem dispatch (h : Keeps R) (req : RespValue) : R (ctx, sv) (dispatch env req ctx sv).2 := by
  refine h.dispatchWith fun c => ?_
  unfold handle
  split
  · exact h.exec
  · exact h.handleQueued _

end Keeps

end Kv
