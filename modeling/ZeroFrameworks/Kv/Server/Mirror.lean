import ZeroFrameworks.Kv.Resp.Reader
import ZeroFrameworks.Kv.Server.Repeatable

/-!
# One write, two servers

The log and the replicas see the text of a write and dispatch it again, on a server of their own.
`Reproducible` is what a request must be for this to come to the same thing: it is turned away, it
writes nothing, or it is a write whose effect follows from its text, the database `sel` that the other
side has selected, and the contents.

    a reproducible request that is not logged leaves the contents   (dispatch_unlogged)
    one that is logged does the same to the other server   (dispatch_logged)
-/

namespace Kv

variable {F : Type} [Platform F]

/-! ## Conditions -/

/-- What the text of a write, run again, has the effect of the write. -/
structure WriteOk (lo hi sel : Int) (env : Env) (req : RespValue) (ctx : KvContext) (sv : Server F)
    (c : Command) : Prop where
  mutating : c.mutating = true
  wire : wire req = true
  repeatable : Repeatable lo hi req.items c
  clean : CleanFailure env.now ctx.db req.items sv.store c
  db : c = .server .select ∨ ctx.db = sel

/-- The request changes nothing, or what it changes can be had again from its text. -/
def Reproducible (lo hi sel : Int) (env : Env) (req : RespValue) (ctx : KvContext) (sv : Server F) :
    Prop :=
  match fate ctx sv req with
  | .refused _ => True
  | .queued => RequestIs Command.harmless req
  | .runs c => c.harmless = true ∨ WriteOk lo hi sel env req ctx sv c

/-- The request is carried out and logged. -/
def IsWrite (env : Env) (req : RespValue) (ctx : KvContext) (sv : Server F) : Prop :=
  (dispatch env req ctx sv).1.isError = false ∧ isMutatingCommand (upperCmd req) = true

instance (env : Env) (req : RespValue) (ctx : KvContext) (sv : Server F) :
    Decidable (IsWrite env req ctx sv) := inferInstanceAs (Decidable (_ ∧ _))

/-- The database selected by a request, when it selects one. -/
def nextSel (sel : Int) (req : RespValue) (ctx : KvContext) (sv : Server F) : Int :=
  match fate ctx sv req with
  | .runs (.server .select) => (selectTarget req.items).getD sel
  | _ => sel

/-! ## Lemmas -/

section

variable {lo hi sel : Int} {env env' : Env} {req : RespValue} {ctx ctx' : KvContext} {sv sv' : Server F}
  {c : Command}

/-- A request that is turned away gets an error. -/
theorem isError_of_refused {rsp : RespValue} (h : fate ctx sv req = .refused rsp) :
    rsp.isError = true := by
  unfold fate at h
  split at h
  next e he =>
    cases h
    unfold rawName at he
    split at he <;> cases he <;> rfl
  · split at h
    next e he =>
      cases h
      unfold refusal at he
      split at he
      · cases he; rfl
      · split at he
        · cases he; rfl
        · split at he
          · cases he; rfl
          · cases he
    · split at h
      next f hg =>
        subst h
        unfold transactionGate at hg
        split at hg
        · cases hg
        · split at hg
          · cases hg; rfl
          · split at hg
            · cases hg; rfl
            · cases hg
      · split at h
        · cases h; rfl
        · cases h

theorem dispatch_of_runs (env : Env) (h : fate ctx sv req = .runs c) :
    (dispatch env req ctx sv).1 = (handle c env req.items ctx sv).1 ∧
      (dispatch env req ctx sv).2.1 = (handle c env req.items ctx sv).2.1 ∧
      (dispatch env req ctx sv).2.2 = { (handle c env req.items ctx sv).2.2 with
        slowlog := (dispatch env req ctx sv).2.2.slowlog } := by
  unfold dispatch dispatchWith
  rw [h]
  exact ⟨rfl, rfl, rfl⟩

/-- Slow requests are noted, which changes nothing else. -/
theorem Leaves.dispatch (hf : fate ctx sv req = .runs c)
    (h : Leaves env.now ctx sv (handle c env req.items ctx sv)) :
    Leaves env.now ctx sv (dispatch env req ctx sv) := by
  unfold Kv.dispatch dispatchWith
  rw [hf]
  exact ⟨h.items, h.waiters, h.data, h.enabled, h.db, h.queue⟩

/-- Whatever waits in the queue writes nothing. -/
def QueueOk (ctx : KvContext) : Prop := ∀ req ∈ ctx.multiQueue, RequestIs Command.harmless req

/-- What a request that is not logged leaves. -/
structure Unlogged (now : Int) (ctx : KvContext) (sv : Server F) (r : RespValue × KvContext × Server F) :
    Prop where
  items : SameItems now sv.store r.2.2.store
  waiters : r.2.2.waiters = sv.waiters
  aof : r.2.2.aof.data = sv.aof.data ∧ r.2.2.aof.enabled = sv.aof.enabled
  db : r.2.1.db = ctx.db
  queue : QueueOk r.2.1

theorem Unlogged.of_leaves {now : Int} {r : RespValue × KvContext × Server F}
    (h : Leaves now ctx sv r) (hq : QueueOk ctx) : Unlogged now ctx sv r := by
  refine ⟨h.items, h.waiters, ⟨h.data, h.enabled⟩, h.db, fun q hm => ?_⟩
  rcases h.queue with he | he
  · rw [he] at hm
    exact hq q hm
  · rw [he] at hm
    cases hm

theorem nextSel_of_runs (hf : fate ctx sv req = .runs c) :
    nextSel sel req ctx sv =
      if c = .server .select then (selectTarget req.items).getD sel else sel := by
  unfold nextSel
  rw [hf]
  split
  next h =>
    cases h
    rfl
  next h =>
    rw [if_neg]
    rintro rfl
    exact h rfl

theorem selectTarget_of_error (hf : fate ctx sv req = .runs (.server .select))
    (he : (dispatch env req ctx sv).1.isError = true) : selectTarget req.items = none := by
  rw [(dispatch_of_runs env hf).1] at he
  have hnone := select_isError env req.items ctx sv
  rw [← Option.isNone_iff_eq_none, ← hnone]
  exact he

theorem nextSel_of_error (he : (dispatch env req ctx sv).1.isError = true) :
    nextSel sel req ctx sv = sel := by
  unfold nextSel
  split
  next hf => rw [selectTarget_of_error hf he, Option.getD_none]
  · rfl

/-! ## Requests that are not logged -/

theorem unlogged_of_error (hw : WriteOk lo hi sel env req ctx sv c) (hf : fate ctx sv req = .runs c)
    (hq : QueueOk ctx) (hwait : sv.waiters = []) (hn : sv.store.conf.NoEvict)
    (he : (dispatch env req ctx sv).1.isError = true) :
    Unlogged env.now ctx sv (dispatch env req ctx sv) := by
  obtain ⟨h1, h2, h3⟩ := dispatch_of_runs env hf
  obtain ⟨db, store, waiters, hframe⟩ := handle_frame hw.mutating env req.items ctx sv
  rw [h1] at he
  obtain ⟨hsame, hdb⟩ := handle_fails hw.mutating hw.repeatable hw.clean hwait hn he
  have hwaiters : (handle c env req.items ctx sv).2.2.waiters = [] := handle_waiters hw.mutating hwait
  rw [hframe] at hsame hdb hwaiters h2 h3
  refine ⟨?_, ?_, ?_, ?_, ?_⟩
  · rw [h3]
    exact hsame.item
  · rw [h3, hwait]
    exact hwaiters
  · rw [h3]
    exact ⟨rfl, rfl⟩
  · rw [h2]
    exact hdb
  · rw [h2]
    exact hq

/-- Where nothing is logged, nothing has changed. -/
theorem dispatch_unlogged (h : Reproducible lo hi sel env req ctx sv) (hq : QueueOk ctx)
    (hwait : sv.waiters = []) (hn : sv.store.conf.NoEvict) (hquiet : Quiet lo hi sv.store)
    (hno : ¬ IsWrite env req ctx sv) :
    Unlogged env.now ctx sv (dispatch env req ctx sv) ∧ nextSel sel req ctx sv = sel := by
  unfold Reproducible at h
  cases hf : fate ctx sv req with
  | refused rsp =>
    refine ⟨?_, by simp [nextSel, hf]⟩
    rw [dispatch, dispatchWith, hf]
    exact ⟨.refl _ _, rfl, ⟨rfl, rfl⟩, rfl, hq⟩
  | queued =>
    rw [hf] at h
    refine ⟨?_, by simp [nextSel, hf]⟩
    rw [dispatch, dispatchWith, hf]
    refine ⟨.refl _ _, rfl, ⟨rfl, rfl⟩, rfl, fun q hm => ?_⟩
    rcases List.mem_append.mp hm with hm | hm
    · exact hq q hm
    · rw [List.mem_singleton.mp hm]
      exact h
  | runs c =>
    rw [hf] at h
    rcases h with hc | hw
    · have hl : Leaves env.now ctx sv (handle c env req.items ctx sv) :=
        (idle_harmless lo hi).handle (.inr hc) hq hquiet
      refine ⟨.of_leaves (hl.dispatch hf) hq, ?_⟩
      rw [nextSel_of_runs hf, if_neg]
      rintro rfl
      cases hc
    · have he : (dispatch env req ctx sv).1.isError = true := by
        rw [← Bool.not_eq_false]
        intro he
        exact hno ⟨he, by rw [mutating_of_fate hf, hw.mutating]⟩
      exact ⟨unlogged_of_error hw hf hq hwait hn he, nextSel_of_error he⟩

/-! ## Requests that are logged -/

theorem writeOk_of_isWrite (h : Reproducible lo hi sel env req ctx sv)
    (hwrite : IsWrite env req ctx sv) :
    ∃ c, fate ctx sv req = .runs c ∧ WriteOk lo hi sel env req ctx sv c := by
  obtain ⟨herr, hmut⟩ := hwrite
  unfold Reproducible at h
  cases hf : fate ctx sv req with
  | refused rsp =>
    rw [dispatch, dispatchWith, hf] at herr
    rw [isError_of_refused hf] at herr
    cases herr
  | queued =>
    rw [hf] at h
    rw [(idle_harmless (F := F) lo hi).not_mutating h] at hmut
    cases hmut
  | runs c =>
    rw [hf] at h
    refine ⟨c, rfl, h.resolve_left fun hc => ?_⟩
    rw [mutating_of_fate hf, (idle_harmless (F := F) lo hi).unlisted hc] at hmut
    cases hmut

/-- What a write does to its server and its connection. -/
structure Wrote (sel : Int) (ctx : KvContext) (sv : Server F) (r : RespValue × KvContext × Server F) :
    Prop where
  server : ∃ store slowlog, r.2.2 = { sv with store := store, slowlog := slowlog, waiters := [] }
  conn : r.2.1 = { ctx with db := sel }

theorem dispatch_wrote (hf : fate ctx sv req = .runs c) (hm : c.mutating = true)
    (hdb : c = .server .select ∨ ctx.db = sel) (hwait : sv.waiters = [])
    (herr : (dispatch env req ctx sv).1.isError = false) :
    Wrote (nextSel sel req ctx sv) ctx sv (dispatch env req ctx sv) := by
  obtain ⟨h1, h2, h3⟩ := dispatch_of_runs env hf
  obtain ⟨db, store, waiters, hframe⟩ := handle_frame hm env req.items ctx sv
  have hwaiters : (handle c env req.items ctx sv).2.2.waiters = [] := handle_waiters hm hwait
  have hnew : (handle c env req.items ctx sv).2.1.db = _ := handle_db hm
  rw [hframe] at hwaiters hnew h2 h3
  obtain rfl : waiters = [] := hwaiters
  obtain rfl : db = _ := hnew
  refine ⟨⟨store, _, h3⟩, ?_⟩
  rw [h2, nextSel_of_runs hf]
  split
  next hc =>
    subst hc
    rw [h1] at herr
    have hsome : (selectTarget req.items).isNone = false := by
      rw [← select_isError env req.items ctx sv]
      exact herr
    cases ht : selectTarget req.items with
    | none =>
      rw [ht] at hsome
      cases hsome
    | some target => rfl
  next hc => rw [hdb.resolve_left hc]

/-- The same write on two servers with the same contents, in the same database. -/
theorem dispatch_agree (hf : fate ctx sv req = .runs c) (hf' : fate ctx' sv' req = .runs c)
    (hm : c.mutating = true) (hr : Repeatable lo hi req.items c)
    (hdb : c = .server .select ∨ ctx.db = ctx'.db) (h1 : Within lo hi env) (h2 : Within lo hi env')
    (hw : sv.waiters = []) (hw' : sv'.waiters = []) (h : Agree lo hi sv.store sv'.store) :
    (dispatch env req ctx sv).1 = (dispatch env' req ctx' sv').1 ∧
      Agree lo hi (dispatch env req ctx sv).2.2.store (dispatch env' req ctx' sv').2.2.store := by
  obtain ⟨hrsp, -, hsv⟩ := dispatch_of_runs env hf
  obtain ⟨hrsp', -, hsv'⟩ := dispatch_of_runs env' hf'
  rw [hrsp, hrsp', hsv, hsv']
  by_cases hc : c = .server .select
  · subst hc
    have hreply : (Commands.select env req.items ctx sv).1 =
        (Commands.select env' req.items ctx' sv').1 := select_reply
    refine ⟨hreply, ?_⟩
    have hs := congrArg (·.2.store) (select_state env req.items ctx sv)
    have hs' := congrArg (·.2.store) (select_state env' req.items ctx' sv')
    show Agree lo hi (Commands.select env req.items ctx sv).2.2.store
      (Commands.select env' req.items ctx' sv').2.2.store
    rw [hs, hs']
    exact h
  · exact handle_agree hm hr h1 h2 hw hw' (hdb.resolve_left hc) h

end

end Kv
