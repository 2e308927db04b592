import ZeroFrameworks.Kv.Server.Dispatch
import ZeroFrameworks.Kv.Store.WatchRuns

/-!
# WATCH, MULTI and EXEC between other clients

The store serves one `KvStore` call at a time, and other clients' calls fall between those of a
transaction.  `Txn` is a client that watches keys and then sends EXEC: one step of it is one call,
and `other` is a call of somebody else.  EXEC asks for the tokens of the watched keys one by one and
then makes the calls of the queued commands; nothing keeps other clients away meanwhile.

What makes a committed transaction isolated (`exec_isolated`) is that the others

    before a key's token is asked for again   change the key by calls that tell WATCH of it
    from then to the end of EXEC              do not write the key

`checks_eq_watchConflict` and `watches_eq_watchLoop` relate the steps to the handlers.
-/

namespace Kv

variable {F : Type} {α : Type}

/-- The key a single-key write is about. -/
def KvOp.writesTo : KvOp F α → Option (Int × Bytes)
  | .set db key _ | .setex db key _ _ | .setOpt db key _ _ _ _ _ | .getset db key _ | .getdel db key
  | .getex db key _ _ _ | .incrBy db key _ | .incrByFloat db key _ | .append db key _ | .del db key
  | .persist db key | .expire db key _ | .pexpire db key _ | .expireAt db key _ | .pexpireAt db key _
  | .restoreKey db key _ _ _ | .hset db key _ _ | .hsetnx db key _ _ | .hsetFields db key _
  | .hmset db key _ | .hdel db key _ | .hincrby db key _ _ | .listPush db key _ _ | .listPop db key _
  | .listTrim db key _ _ | .listSet db key _ _ | .listRem db key _ _ | .listInsert db key _ _ _
  | .setAdd db key _ | .setRem db key _ | .spop db key | .zadd db key _ | .zaddOpt db key _ _
  | .zrem db key _ | .zincrby db key _ _ | .zpopmin db key | .zpopmax db key | .xadd db key _ _
  | .xdel db key _ | .xtrim db key _ | .xgroupCreate db key _ _ _ | .xgroupDestroy db key _
  | .xack db key _ _ | .xclaim db key _ _ _ _ _ => some (db, key)
  | _ => none

variable [Platform F]

/-- The call changes the key. -/
def Call.TakesEffect (c : Call F) (s : KvStore F) (db : Int) (key : Bytes) : Prop :=
  (c.after s).content c.env.now db key ≠ s.content c.env.now db key

/-! ## Steps -/

deriving instance DecidableEq for WatchEntry

/-- Where the transaction is: `checking` the tokens of `rest`, and running the queue when nothing is
left to check. -/
inductive TxnPhase where
  | watching
  | checking (rest : List WatchEntry)
  | aborted
  | committed
  deriving DecidableEq

structure Txn (F : Type) [Platform F] where
  store : KvStore F
  /-- Kept to the end of EXEC, which empties it before it runs the queue. -/
  watched : List WatchEntry := []
  phase : TxnPhase := .watching

inductive TxnStep (F : Type) where
  /-- One key of WATCH. -/
  | watch (db : Int) (key : Bytes) (env : Env)
  /-- A call of another command before EXEC. -/
  | own (c : Call F)
  | exec
  /-- One token that EXEC compares. -/
  | check (env : Env)
  /-- A call of a queued command. -/
  | queued (c : Call F)
  /-- EXEC returns the array. -/
  | finish
  /-- A call of another client. -/
  | other (c : Call F)

namespace Txn

/-- WATCH takes a token and keeps it unless the key is watched already. -/
def watchOne (σ : Txn F) (db : Int) (key : Bytes) (env : Env) : Txn F :=
  let r := KvStore.watchToken db key env σ.store
  let dup := σ.watched.any fun w => w.db == db && w.key == key
  { σ with store := r.2, watched := if dup then σ.watched else σ.watched ++ [⟨db, key, r.1⟩] }

/-- One token that EXEC compares: another one makes it return nil. -/
def checkOne (σ : Txn F) (env : Env) (w : WatchEntry) (rest : List WatchEntry) : Txn F :=
  let r := KvStore.watchToken w.db w.key env σ.store
  { σ with store := r.2, phase := if r.1 ≠ w.token then .aborted else .checking rest }

/-- One step; the client makes only those of its phase. -/
def step (σ : Txn F) (st : TxnStep F) : Txn F :=
  match st, σ.phase with
  | .watch db key env, .watching => σ.watchOne db key env
  | .own c, .watching => { σ with store := c.after σ.store }
  | .exec, .watching => { σ with phase := .checking σ.watched }
  | .check env, .checking (w :: rest) => σ.checkOne env w rest
  | .queued c, .checking [] => { σ with store := c.after σ.store }
  | .finish, .checking [] => { σ with phase := .committed }
  | .other c, _ => { σ with store := c.after σ.store }
  | _, _ => σ

def run (σ : Txn F) (steps : List (TxnStep F)) : Txn F := steps.foldl step σ

/-- The watched keys whose token is still to be asked for. -/
def unchecked (σ : Txn F) : List WatchEntry :=
  match σ.phase with
  | .watching => σ.watched
  | .checking rest => rest
  | .aborted | .committed => []

/-- The watched keys, until EXEC has returned. -/
def guarded (σ : Txn F) : List WatchEntry :=
  match σ.phase with
  | .watching | .checking _ => σ.watched
  | .aborted | .committed => []

/-! ## The condition -/

/-- The call tells WATCH of what it does to the keys that are still to be checked. -/
def Tells (σ : Txn F) (c : Call F) : Prop :=
  ∀ w ∈ σ.unchecked, ¬c.op.Overlooked c.env σ.store w.db w.key ∧
    σ.store.version w.db w.key + σ.store.epoch w.db w.key + c.op.cost < 2 ^ 32

/-- The step leaves the transaction isolated. -/
def Careful (σ : Txn F) : TxnStep F → Prop
  | .watch db key _ => IsDb db ∧ σ.store.version db key + σ.store.epoch db key < 2 ^ 32
  | .own c => σ.Tells c
  | .other c => σ.Tells c ∧
      ∀ w ∈ σ.guarded, c.op.writesTo = some (w.db, w.key) → w ∈ σ.unchecked
  | _ => True

def CarefulRun (σ : Txn F) : List (TxnStep F) → Prop
  | [] => True
  | st :: steps => σ.Careful st ∧ CarefulRun (σ.step st) steps

end Txn

/-! ## Lemmas -/

/-- The token of `w` was taken at version `v` and epoch `e`, and the store has counted on from there. -/
structure Follows (s : KvStore F) (w : WatchEntry) (v e : Nat) : Prop where
  isDb : IsDb w.db
  watching : s.Watching w.key
  token : w.token = ((e <<< 32) % 2 ^ 64) ^^^ v
  version : v ≤ s.version w.db w.key
  epoch : e ≤ s.epoch w.db w.key
  bound : s.version w.db w.key + s.epoch w.db w.key < 2 ^ 32

namespace Follows

variable {s s' : KvStore F} {w : WatchEntry} {v e n : Nat} {now : Int}

theorem noted (h : Follows s w v e) (hn : Noted w.db w.key now n s s')
    (hroom : s.version w.db w.key + s.epoch w.db w.key + n < 2 ^ 32) : Follows s' w v e := by
  have hb := hn.bound
  exact ⟨h.isDb, hn.watching, h.token, h.version.trans hn.version, h.epoch.trans hn.epoch, by omega⟩

theorem watched {db : Int} {key : Bytes} {env : Env} (hdb : IsDb db)
    (hroom : s.version db key + s.epoch db key < 2 ^ 32) :
    Follows (KvStore.watchToken db key env s).2 ⟨db, key, (KvStore.watchToken db key env s).1⟩
      (s.version db key) (s.epoch db key) := by
  have hn : Noted db key env.now 0 s (KvStore.watchToken db key env s).2 :=
    KvStore.noted_watchToken (.inr rfl)
  have hb := hn.bound
  exact ⟨hdb, hn.watching, rfl, hn.version, hn.epoch, by simp only; omega⟩

theorem of_token (h : Follows s w v e) {env : Env} (ht : (KvStore.watchToken w.db w.key env s).1 = w.token) :
    s.version w.db w.key = v ∧ s.epoch w.db w.key = e := by
  have hb := h.bound
  have hv := h.version
  have he := h.epoch
  have htok : ((s.epoch w.db w.key <<< 32) % 2 ^ 64) ^^^ s.version w.db w.key =
      ((e <<< 32) % 2 ^ 64) ^^^ v := by
    rw [← h.token, ← ht]
    rfl
  have hnow := KvStore.packed (show s.epoch w.db w.key < 2 ^ 32 by omega)
    (show s.version w.db w.key < 2 ^ 32 by omega)
  have hthen := KvStore.packed (show e < 2 ^ 32 by omega) (show v < 2 ^ 32 by omega)
  rw [htok] at hnow
  exact ⟨hnow.1.symm.trans hthen.1, hnow.2.symm.trans hthen.2⟩

end Follows

namespace Txn

variable {σ : Txn F} {st : TxnStep F} {w : WatchEntry} {v e : Nat}

theorem noted_call {c : Call F} (hw : w ∈ σ.unchecked) (hf : Follows σ.store w v e) (ht : σ.Tells c) :
    Noted w.db w.key c.env.now c.op.cost σ.store (c.after σ.store) ∧ Follows (c.after σ.store) w v e := by
  obtain ⟨ho, hroom⟩ := ht w hw
  have hn := KvStore.noted_runOp hf.isDb ho hf.watching hroom
  exact ⟨hn, hf.noted hn hroom⟩

theorem follows_token {s : KvStore F} (hf : Follows s w v e) (db : Int) (key : Bytes) (env : Env) :
    Follows (KvStore.watchToken db key env s).2 w v e ∧
      (KvStore.watchToken db key env s).2.version w.db w.key = s.version w.db w.key ∧
      (KvStore.watchToken db key env s).2.epoch w.db w.key = s.epoch w.db w.key := by
  have hn : Noted w.db w.key env.now 0 s (KvStore.watchToken db key env s).2 :=
    KvStore.noted_watchToken (.inl hf.watching)
  have hv := hn.version
  have he := hn.epoch
  have hb := hn.bound
  exact ⟨hf.noted hn hf.bound, by omega, by omega⟩

theorem follows_step (hw : w ∈ σ.unchecked) (hf : Follows σ.store w v e) (hc : σ.Careful st) :
    Follows (σ.step st).store w v e ∧
      σ.store.version w.db w.key ≤ (σ.step st).store.version w.db w.key ∧
      σ.store.epoch w.db w.key ≤ (σ.step st).store.epoch w.db w.key := by
  obtain ⟨store, watched, phase⟩ := σ
  have hsame : Follows store w v e ∧ store.version w.db w.key ≤ store.version w.db w.key ∧
      store.epoch w.db w.key ≤ store.epoch w.db w.key := ⟨hf, le_rfl, le_rfl⟩
  have hcall : ∀ c : Call F, Tells ⟨store, watched, phase⟩ c → Follows (c.after store) w v e ∧
      store.version w.db w.key ≤ (c.after store).version w.db w.key ∧
      store.epoch w.db w.key ≤ (c.after store).epoch w.db w.key := by
    intro c ht
    obtain ⟨hn, hfollow⟩ := noted_call hw hf ht
    exact ⟨hfollow, hn.version, hn.epoch⟩
  cases st with
  | watch db key env =>
    cases phase with
    | watching =>
      obtain ⟨hfollow, hv, he⟩ := follows_token hf db key env
      exact ⟨hfollow, hv.ge, he.ge⟩
    | _ => exact hsame
  | own c =>
    cases phase with
    | watching => exact hcall c hc
    | _ => exact hsame
  | exec => cases phase <;> exact hsame
  | check env =>
    rcases phase with _ | (_ | ⟨w', rest⟩) | _ | _
    · exact hsame
    · exact hsame
    · obtain ⟨hfollow, hv, he⟩ := follows_token hf w'.db w'.key env
      exact ⟨hfollow, hv.ge, he.ge⟩
    · exact hsame
    · exact hsame
  | queued c =>
    rcases phase with _ | (_ | ⟨w', rest⟩) | _ | _
    · exact hsame
    · cases hw
    · exact hsame
    · exact hsame
    · exact hsame
  | finish =>
    rcases phase with _ | (_ | ⟨w', rest⟩) | _ | _ <;> exact hsame
  | other c => exact hcall c hc.1

/-- What is to be checked after a step was so before, or has just been watched. -/
theorem unchecked_step (h : w ∈ (σ.step st).unchecked) : w ∈ σ.unchecked ∨
    ∃ db key env, st = .watch db key env ∧ σ.phase = .watching ∧
      w = ⟨db, key, (KvStore.watchToken db key env σ.store).1⟩ := by
  obtain ⟨store, watched, phase⟩ := σ
  cases st with
  | watch db key env =>
    cases phase with
    | watching =>
      simp only [step, watchOne, unchecked] at h
      split at h
      · exact .inl h
      · rcases List.mem_append.mp h with h | h
        · exact .inl h
        · exact .inr ⟨db, key, env, rfl, rfl, List.mem_singleton.mp h⟩
    | _ => exact .inl h
  | check env =>
    rcases phase with _ | (_ | ⟨w', rest⟩) | _ | _
    · exact .inl h
    · exact .inl h
    · simp only [step, checkOne, unchecked] at h
      split at h
      · next heq => split at heq <;> cases heq
      · next heq =>
        split at heq <;> cases heq
        exact .inl (List.mem_cons_of_mem _ h)
      · cases h
      · cases h
    · exact .inl h
    · exact .inl h
  | own c => cases phase <;> exact .inl h
  | exec => cases phase <;> exact .inl h
  | queued c => rcases phase with _ | (_ | ⟨w', rest⟩) | _ | _ <;> exact .inl h
  | finish =>
    rcases phase with _ | (_ | ⟨w', rest⟩) | _ | _
    · exact .inl h
    · cases h
    · exact .inl h
    · exact .inl h
    · exact .inl h
  | other c => cases phase <;> exact .inl h

/-- A key stays to be checked until its token has been found unchanged. -/
theorem kept_step (h : w ∈ σ.unchecked) : w ∈ (σ.step st).unchecked ∨ (σ.step st).phase = .aborted ∨
    ∃ env, (KvStore.watchToken w.db w.key env σ.store).1 = w.token := by
  obtain ⟨store, watched, phase⟩ := σ
  cases st with
  | watch db key env =>
    cases phase with
    | watching =>
      left
      simp only [step, watchOne, unchecked]
      split
      · exact h
      · exact List.mem_append_left _ h
    | _ => exact .inl h
  | check env =>
    rcases phase with _ | (_ | ⟨w', rest⟩) | _ | _
    · exact .inl h
    · exact .inl h
    · by_cases htok : (KvStore.watchToken w'.db w'.key env store).1 = w'.token
      · rcases List.mem_cons.mp h with rfl | h
        · exact .inr (.inr ⟨env, htok⟩)
        · left
          simp only [step, checkOne, unchecked, htok, ne_eq, not_true_eq_false, if_false]
          exact h
      · right
        left
        simp only [step, checkOne, ne_eq, htok, not_false_eq_true, if_true]
    · cases h
    · cases h
  | own c => cases phase <;> exact .inl h
  | exec =>
    cases phase with
    | watching => exact .inl h
    | _ => exact .inl h
  | queued c => rcases phase with _ | (_ | ⟨w', rest⟩) | _ | _ <;> exact .inl h
  | finish =>
    rcases phase with _ | (_ | ⟨w', rest⟩) | _ | _
    · exact .inl h
    · cases h
    · exact .inl h
    · cases h
    · cases h
  | other c => cases phase <;> exact .inl h

/-- Every key that is still to be checked is followed. -/
def Good (σ : Txn F) : Prop := ∀ w ∈ σ.unchecked, ∃ v e, Follows σ.store w v e

/-- A key that is still to be checked has been counted. -/
def Stale (σ : Txn F) (w : WatchEntry) : Prop :=
  w ∈ σ.unchecked ∧ ∃ v e, Follows σ.store w v e ∧
    (v < σ.store.version w.db w.key ∨ e < σ.store.epoch w.db w.key)

theorem good_step (hg : σ.Good) (hc : σ.Careful st) : (σ.step st).Good := by
  intro w hw
  rcases unchecked_step hw with hold | ⟨db, key, env, rfl, hphase, rfl⟩
  · obtain ⟨v, e, hf⟩ := hg w hold
    exact ⟨v, e, (follows_step hold hf hc).1⟩
  · obtain ⟨hdb, hroom⟩ := hc
    refine ⟨σ.store.version db key, σ.store.epoch db key, ?_⟩
    simp only [step, hphase]
    exact .watched hdb hroom

theorem stale_step (hs : σ.Stale w) (hc : σ.Careful st) :
    (σ.step st).Stale w ∨ (σ.step st).phase = .aborted := by
  obtain ⟨hw, v, e, hf, hlt⟩ := hs
  obtain ⟨hf', hv, he⟩ := follows_step hw hf hc
  have hkept : w ∈ (σ.step st).unchecked ∨ (σ.step st).phase = .aborted ∨
      ∃ env, (KvStore.watchToken w.db w.key env σ.store).1 = w.token := kept_step hw
  rcases hkept with hkeep | habort | ⟨env, htok⟩
  · exact .inl ⟨hkeep, v, e, hf', by omega⟩
  · exact .inr habort
  · -- the token shows what has been counted
    obtain ⟨h1, h2⟩ := hf.of_token htok
    omega

theorem aborted_run {steps : List (TxnStep F)} (h : σ.phase = .aborted) :
    (σ.run steps).phase = .aborted := by
  induction steps generalizing σ with
  | nil => exact h
  | cons st steps ih =>
    refine ih ?_
    obtain ⟨store, watched, phase⟩ := σ
    subst h
    cases st <;> rfl

theorem stale_run {steps : List (TxnStep F)} (hs : σ.Stale w) (hc : σ.CarefulRun steps) :
    (σ.run steps).phase ≠ .committed := by
  induction steps generalizing σ with
  | nil =>
    intro h
    have hw := hs.1
    unfold unchecked at hw
    rw [show σ.phase = .committed from h] at hw
    cases hw
  | cons st steps ih =>
    obtain ⟨hstep, hrest⟩ := hc
    rcases stale_step hs hstep with hs' | habort
    · exact ih hs' hrest
    · have hrun : ((σ.step st).run steps).phase = .aborted := aborted_run habort
      show ((σ.step st).run steps).phase ≠ .committed
      rw [hrun]
      exact fun h => by cases h

/-- In a run that commits, no careful call of another client changes a guarded key it writes. -/
theorem isolated_from {pre post : List (TxnStep F)} {c : Call F} (hg : σ.Good)
    (hc : σ.CarefulRun (pre ++ .other c :: post))
    (hcommit : (σ.run (pre ++ .other c :: post)).phase = .committed)
    (hw : w ∈ (σ.run pre).guarded) (hto : c.op.writesTo = some (w.db, w.key)) :
    ¬c.TakesEffect (σ.run pre).store w.db w.key := by
  induction pre generalizing σ with
  | nil =>
    obtain ⟨⟨htells, hunchecked⟩, hrest⟩ := hc
    intro heffect
    have hun := hunchecked w hw hto
    obtain ⟨v, e, hf⟩ := hg w hun
    obtain ⟨hn, hf'⟩ := noted_call hun hf htells
    refine stale_run (w := w) ⟨?_, v, e, hf', ?_⟩ hrest hcommit
    · exact hun
    · by_contra hle
      have hv := hn.version
      have he := hn.epoch
      have hv0 := hf.version
      have he0 := hf.epoch
      have hv1 : (c.after σ.store).version w.db w.key ≤ v := Nat.not_lt.mp fun h => hle (.inl h)
      have he1 : (c.after σ.store).epoch w.db w.key ≤ e := Nat.not_lt.mp fun h => hle (.inr h)
      exact heffect (hn.content (by omega) (by omega))
  | cons st pre ih =>
    obtain ⟨hstep, hrest⟩ := hc
    exact ih (good_step hg hstep) hrest hcommit hw

/-! ## The handlers, when nobody else is there -/

theorem run_check_aborted {env : Env} (h : σ.phase = .aborted) (n : Nat) :
    σ.run (List.replicate n (.check env)) = σ := by
  induction n with
  | zero => rfl
  | succ n ih =>
    have hstep : σ.step (.check env) = σ := by
      obtain ⟨store, watched, phase⟩ := σ
      subst h
      rfl
    show (σ.step (.check env)).run (List.replicate n (.check env)) = σ
    rw [hstep, ih]

theorem checks_eq_watchConflict (env : Env) (ws : List WatchEntry) (h : σ.phase = .checking ws) :
    σ.run (List.replicate ws.length (.check env)) =
      { σ with
        store := (Commands.watchConflict ws env σ.store).2
        phase := if (Commands.watchConflict ws env σ.store).1 then .aborted else .checking [] } := by
  induction ws generalizing σ with
  | nil =>
    obtain ⟨store, watched, phase⟩ := σ
    subst h
    rfl
  | cons w ws ih =>
    obtain ⟨store, watched, phase⟩ := σ
    subst h
    show (checkOne _ env w ws).run (List.replicate ws.length (.check env)) = _
    by_cases htok : (KvStore.watchToken w.db w.key env store).1 = w.token
    · rw [ih (by simp [checkOne, htok])]
      simp [checkOne, Commands.watchConflict, htok]
    · rw [run_check_aborted (by simp [checkOne, htok])]
      simp [checkOne, Commands.watchConflict, htok]

theorem watches_eq_watchLoop (env : Env) (ctx : KvContext) (sv : Server F) (vs : List RespValue)
    (hv : ∀ v ∈ vs, v.isNull = false) :
    let r := Commands.watchLoop env ctx sv vs
    run ⟨sv.store, ctx.watched, .watching⟩ (vs.map fun v => .watch ctx.db v.str env) =
      ⟨r.2.2.store, r.2.1.watched, .watching⟩ := by
  induction vs generalizing ctx sv with
  | nil => rfl
  | cons v vs ih =>
    have hnull := hv v List.mem_cons_self
    let r := sv.onStore (KvStore.watchToken ctx.db v.str) env
    let dup := ctx.watched.any fun w => w.db == ctx.db && w.key == v.str
    have hrest := ih { ctx with watched := if dup then ctx.watched else ctx.watched ++ [⟨ctx.db, v.str, r.1⟩] }
      r.2 fun v' hv' => hv v' (List.mem_cons_of_mem _ hv')
    simp only [Commands.watchLoop, hnull, Bool.false_eq_true, if_false]
    exact hrest

end Txn

/-! ## Top theorem -/

/-- A committed transaction is isolated from the others' writes to the keys it watches, when every
step of the run is careful. -/
theorem exec_isolated (s : KvStore F) (steps : List (TxnStep F))
    (hc : Txn.CarefulRun ⟨s, [], .watching⟩ steps)
    (hcommit : (Txn.run ⟨s, [], .watching⟩ steps).phase = .committed)
    (pre post : List (TxnStep F)) (c : Call F) (hsplit : steps = pre ++ .other c :: post)
    (w : WatchEntry) (hw : w ∈ (Txn.run ⟨s, [], .watching⟩ pre).guarded)
    (hto : c.op.writesTo = some (w.db, w.key)) :
    ¬c.TakesEffect (Txn.run ⟨s, [], .watching⟩ pre).store w.db w.key := by
  subst hsplit
  exact Txn.isolated_from (fun w hw => by cases hw) hc hcommit hw hto

/-- A transaction that watches `k`, and a call on `k` in between. -/
def interrupted (between : Call Int) (first : Bool) : List (TxnStep Int) :=
  [.watch 0 (lit "k") { now := 1 }] ++ (if first then [.other between] else []) ++
    [.exec, .check { now := 3 }] ++ (if first then [] else [.other between]) ++
    [.queued ⟨.set 0 (lit "x") (lit "y"), { now := 5 }⟩, .finish]

theorem careful_interrupted :
    Txn.CarefulRun ⟨.empty, [], .watching⟩ (interrupted ⟨.del 0 (lit "k"), { now := 2 }⟩ true) := by
  have hun : (Txn.run ⟨.empty, [], .watching⟩
      ([.watch 0 (lit "k") { now := 1 }] : List (TxnStep Int))).unchecked = [⟨0, lit "k", 0⟩] := by
    decide
  refine ⟨⟨by decide, by decide⟩, ⟨fun w hw => ?_, fun w hw _ => hw⟩, trivial, trivial, trivial, trivial, trivial⟩
  have hk : w = ⟨0, lit "k", 0⟩ := List.mem_singleton.mp (hun ▸ hw)
  subst hk
  exact ⟨id, by decide⟩

theorem exec_isolated_del :
    let c : Call Int := ⟨.del 0 (lit "k"), { now := 2 }⟩
    let σ : Txn Int := Txn.run ⟨.empty, [], .watching⟩ [.watch 0 (lit "k") { now := 1 }]
    (Txn.run ⟨.empty, [], .watching⟩ (interrupted c true)).phase = .committed ∧
      ¬c.TakesEffect σ.store 0 (lit "k") := by
  have hcommit : (Txn.run ⟨.empty, [], .watching⟩
      (interrupted ⟨.del 0 (lit "k"), { now := 2 }⟩ true)).phase = .committed := by
    decide
  exact ⟨hcommit, exec_isolated .empty _ careful_interrupted hcommit [.watch 0 (lit "k") { now := 1 }]
    [.exec, .check { now := 3 }, .queued ⟨.set 0 (lit "x") (lit "y"), { now := 5 }⟩, .finish] _ rfl
    ⟨0, lit "k", 0⟩ (by decide) rfl⟩

/-- Another client sets the key after EXEC has checked it, and EXEC returns the array. -/
theorem exec_not_isolated :
    let c : Call Int := ⟨.set 0 (lit "k") (lit "v"), { now := 4 }⟩
    let σ : Txn Int := Txn.run ⟨.empty, [], .watching⟩ ((interrupted c false).take 3)
    (interrupted c false)[3]? = some (.other c) ∧
      (Txn.run ⟨.empty, [], .watching⟩ (interrupted c false)).phase = .committed ∧
      (σ.guarded.any fun w => c.op.writesTo == some (w.db, w.key)) = true ∧
      c.TakesEffect σ.store 0 (lit "k") := by
  refine ⟨rfl, by decide, by decide, ?_⟩
  intro heq
  have hsome := congrArg Option.isSome heq
  revert hsome
  decide

end Kv
