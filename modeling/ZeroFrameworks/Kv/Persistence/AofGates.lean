import ZeroFrameworks.Kv.Persistence.Aof
import ZeroFrameworks.Kv.Server.Repeatable

/-!
# Replay and the gates of dispatch

`replay` uses the path of clients: its connection is not authenticated and not that of a master,
so the gates in front of the handlers stand before it as well, and it does not look at the
replies.  On a log of write commands:

    replay succeeds → every command reaches its handler
      ↔  the log is empty, or no password is required and the server is a master
-/

namespace Kv

variable {F : Type} [Platform F]

/-- Every command is handed to its handler; none is turned away or queued. -/
def AllApplied (envs : Nat → Env) : Nat → List RespValue → KvContext × Server F → Prop
  | _, [], _ => True
  | n, req :: rest, st =>
    (∃ c, fate st.1 st.2 req = .runs c) ∧ AllApplied envs (n + 1) rest (replayOne (envs n) req st)

/-! ## Lemmas -/

theorem gates_of_mutating : ∀ s ∈ kMutating, isCommandAuthExempt (lit s) = false ∧
    isSlaveWriteAllowed (lit s) = false := by decide

theorem upper_gates : ∀ s ∈ ["AUTH", "PING", "INFO", "ROLE", "SLAVEOF", "REPLICAOF", "QUIT", "CONFIG",
    "CLIENT"], upper (lit s) = lit s := by decide

theorem upper_of_any {names : List String} {name : Bytes} (hu : ∀ s ∈ names, upper (lit s) = lit s)
    (h : names.any (lit · == name) = true) : names.any (lit · == upper name) = true := by
  obtain ⟨s, hs, he⟩ := List.any_eq_true.mp h
  rw [beq_iff_eq] at he
  refine List.any_eq_true.mpr ⟨s, hs, ?_⟩
  rw [← he, hu s hs, beq_self_eq_true]

theorem not_exempt_of_mutating {name : Bytes} (h : isMutatingCommand (upper name) = true) :
    (isCommandAuthExempt name = false ∧ isCommandAuthExempt (upper name) = false) ∧
      isSlaveWriteAllowed name = false ∧ isSlaveWriteAllowed (upper name) = false := by
  obtain ⟨s, hs, he⟩ := List.any_eq_true.mp h
  rw [beq_iff_eq] at he
  obtain ⟨h1, h2⟩ := gates_of_mutating s hs
  rw [he] at h1 h2
  refine ⟨⟨?_, h1⟩, ?_, h2⟩
  · rw [← Bool.not_eq_true]
    intro hx
    have := upper_of_any (fun t ht => upper_gates t (by simp at ht ⊢; tauto)) hx
    rw [isCommandAuthExempt, this] at h1
    cases h1
  · rw [← Bool.not_eq_true]
    intro hx
    have := upper_of_any upper_gates hx
    rw [isSlaveWriteAllowed, this] at h2
    cases h2

theorem fate_of_mutating {ctx : KvContext} {sv : Server F} {req : RespValue}
    (hm : isMutatingCommand (upperCmd req) = true) (hp : ctx.pubsubMode = false)
    (ht : ctx.multiMode = false) (ha : ctx.authenticated = false) (hr : ctx.replApply = false) :
    (∃ c, fate ctx sv req = .runs c) ↔ sv.requirePass = [] ∧ sv.repl.role = .master := by
  obtain ⟨name, c, hname, hu, hl, -⟩ := mutating_request hm
  rw [hu] at hm
  obtain ⟨⟨h1, h2⟩, h3, h4⟩ := not_exempt_of_mutating hm
  have hgate : transactionGate ctx name = none := by simp [transactionGate, ht]
  have href : refusal ctx sv name =
      if sv.isAuthRequired then some noauthError
      else if sv.repl.role = .slave then some readonlyError else none := by
    simp [refusal, hp, ha, hr, h1, h2, h3, h4, hm]
  unfold fate
  rw [hname]
  simp only [href]
  cases hpass : sv.requirePass with
  | cons b bs => simp [Server.isAuthRequired, hpass]
  | nil =>
    cases hrole : sv.repl.role with
    | slave => simp [Server.isAuthRequired, hpass]
    | master => simp [Server.isAuthRequired, hpass, hgate, hl]

/-- A write leaves the settings and the modes of its connection. -/
theorem replayOne_frame {req : RespValue} {ctx : KvContext} {sv : Server F} {c : Command}
    (hf : fate ctx sv req = .runs c) (hc : c.mutating = true) (env : Env) :
    ∃ db, (replayOne env req (ctx, sv)).1 = { ctx with db := db, quit := false } ∧
      (replayOne env req (ctx, sv)).2.requirePass = sv.requirePass ∧
      (replayOne env req (ctx, sv)).2.repl = sv.repl := by
  obtain ⟨db, store, waiters, hr⟩ := handle_frame hc env req.items ctx sv
  refine ⟨db, ?_⟩
  simp only [replayOne, dispatch, dispatchWith, hf, hr, and_self]

theorem allApplied_of_open (envs : Nat → Env) (cmds : List RespValue)
    (hm : ∀ req ∈ cmds, isMutatingCommand (upperCmd req) = true) (n : Nat) (ctx : KvContext)
    (sv : Server F) (hp : ctx.pubsubMode = false) (ht : ctx.multiMode = false)
    (ha : ctx.authenticated = false) (hr : ctx.replApply = false) (hpass : sv.requirePass = [])
    (hrole : sv.repl.role = .master) : AllApplied envs n cmds (ctx, sv) := by
  induction cmds generalizing n ctx sv with
  | nil => trivial
  | cons req cmds ih =>
    have hreq := hm req List.mem_cons_self
    obtain ⟨c, hf⟩ := (fate_of_mutating hreq hp ht ha hr).mpr ⟨hpass, hrole⟩
    have hc : c.mutating = true := by rw [← mutating_of_fate hf, hreq]
    obtain ⟨db, hctx, hpass', hrepl'⟩ := replayOne_frame hf hc (envs n)
    refine ⟨⟨c, hf⟩, ?_⟩
    rw [← Prod.eta (replayOne (envs n) req (ctx, sv)), hctx]
    refine ih (fun r h => hm r (List.mem_cons_of_mem _ h)) (n + 1) _ _ hp ht ha hr ?_ ?_
    · rw [hpass', hpass]
    · rw [hrepl', hrole]

/-! ## Top theorem -/

/-- Replay of write commands: success means that each of them was applied exactly when the gates
are open, or there is nothing to replay. -/
theorem replay_applies_iff (envs : Nat → Env) (cmds : List RespValue)
    (hw : ∀ req ∈ cmds, wire req = true)
    (hm : ∀ req ∈ cmds, isMutatingCommand (upperCmd req) = true) (sv : Server F) :
    ((replay envs (cmds.flatMap encode) sv).1 = .ok () → AllApplied envs 0 cmds ({}, sv)) ↔
      cmds = [] ∨ (sv.requirePass = [] ∧ sv.repl.role = .master) := by
  have hok : (replay envs (cmds.flatMap encode) sv).1 = .ok () := by
    rw [replay_encode envs cmds hw sv]
  constructor
  · intro h
    have happ := h hok
    cases cmds with
    | nil => exact .inl rfl
    | cons req cmds =>
      right
      have hfirst := happ.1
      rw [fate_of_mutating (hm req List.mem_cons_self) rfl rfl rfl rfl] at hfirst
      exact hfirst
  · rintro (rfl | ⟨hpass, hrole⟩) _
    · trivial
    · exact allApplied_of_open envs cmds hm 0 {} sv rfl rfl rfl rfl hpass hrole

/-- `SET k v`. -/
def setKV : RespValue := .array [.bulk (lit "SET"), .bulk (lit "k"), .bulk (lit "v")]

/-- The rest of a log. -/
def selectDel : List RespValue :=
  [.array [.bulk (lit "SELECT"), .bulk (lit "1")], .array [.bulk (lit "DEL"), .bulk (lit "k")]]

/-- On a fresh server the writes of a log are applied. -/
theorem replay_applies_fresh :
    AllApplied (fun _ => { now := 0 }) 0 (setKV :: selectDel)
      ({}, ({ store := .empty, repl := { replId := [] } } : Server Int)) :=
  (replay_applies_iff (fun _ => { now := 0 }) (setKV :: selectDel) (by decide) (by decide)
    { store := .empty, repl := { replId := [] } }).mpr (.inr ⟨rfl, rfl⟩) (by decide)

/-- On a server with a password the replay of the same log succeeds, and the write is turned away. -/
theorem replay_turned_away :
    let sv : Server Int := { store := .empty, repl := { replId := [] }, requirePass := lit "p" }
    (replay (fun _ => { now := 0 }) (encode setKV) sv).1 = .ok () ∧
      ¬ AllApplied (fun _ => { now := 0 }) 0 [setKV] ({}, sv) := by
  intro sv
  have hok : replay (fun _ => { now := 0 }) ([setKV].flatMap encode) sv = (.ok (), _) :=
    replay_encode _ [setKV] (by decide) sv
  refine ⟨congrArg Prod.fst hok, ?_⟩
  rintro ⟨⟨c, hf⟩, -⟩
  have hgates := (fate_of_mutating (by decide) rfl rfl rfl rfl).mp ⟨c, hf⟩
  exact absurd hgates.1 (by decide)

end Kv
