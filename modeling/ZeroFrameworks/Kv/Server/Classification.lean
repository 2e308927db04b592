import ZeroFrameworks.Kv.Server.Effects

/-!
# Which changes `isMutatingCommand` knows of

The log, the propagation to replicas and the read-only gate all go by `isMutatingCommand`.  A
command is `Classified` when every change it makes to the live contents comes with a name on that
list.  This holds of all registered commands but nine (`classified_iff_not_overlooked`): the blocking
pops, XREADGROUP and the scripts write without being listed, TTL and PTTL erase keys whose deadline
has overflowed, and EXEC, which logs and propagates the commands of its queue itself, is not listed
either; what EXEC changes comes from a command of its queue (`mayWrite_of_exec`).
-/

namespace Kv

/-- Whenever the command registered as `name` changes the live contents, it is mutating by name. -/
def Classified (name : String) : Prop :=
  ∀ (F : Type) [Platform F] (env : Env) (req : RespValue) (ctx : KvContext) (sv : Server F),
    upperCmd req = lit name →
    (dispatch env req ctx sv).2.2.store.view env.now ≠ sv.store.view env.now →
    isMutatingCommand (upperCmd req) = true

/-- The commands that change the contents under a name that is not listed. -/
def overlooked : List Command :=
  [.exec, .eval, .evalsha, .store .blpop, .store .brpop, .push .brpoplpush, .store .xreadgroup,
    .store .ttl, .store .pttl]

/-! ## Lemmas -/

variable {c : Command}

section

variable {F : Type} [Platform F] {env : Env} {req : RespValue} {ctx : KvContext} {sv : Server F}

theorem store_dispatch (env : Env) (req : RespValue) (ctx : KvContext) (sv : Server F) :
    (dispatch env req ctx sv).2.2.store = sv.store ∨ ∃ c, fate ctx sv req = .runs c ∧
      (dispatch env req ctx sv).2.2.store = (handle c env req.items ctx sv).2.2.store := by
  unfold dispatch dispatchWith
  cases hf : fate ctx sv req with
  | refused rsp => exact .inl rfl
  | queued => exact .inl rfl
  | runs c => exact .inr ⟨c, rfl, rfl⟩

theorem overlooked_of_indirect (h : c.indirect = true) : c ∈ overlooked := by
  unfold Command.indirect at h
  split at h
  case h_7 => cases h
  all_goals decide

theorem reader_of_not_overlooked (hm : c.mutating = false) (ho : c ∉ overlooked) :
    c.reader = true := by
  have hi : c.indirect = false := by
    rw [← Bool.not_eq_true]
    exact fun h => ho (overlooked_of_indirect h)
  have hne : c ≠ .store .ttl ∧ c ≠ .store .pttl ∧ c ≠ .exec := by
    refine ⟨?_, ?_, ?_⟩ <;>
    · rintro rfl
      exact ho (by decide)
  simp [Command.reader, hm, hi, hne]

theorem view_dispatch_of_reader (hf : fate ctx sv req = .runs c) (hc : c.reader = true) :
    (dispatch env req ctx sv).2.2.store.view env.now = sv.store.view env.now := by
  have hx : c ≠ .exec := by
    rintro rfl
    cases hc
  have hl : Leaves env.now ctx sv (handle c env req.items ctx sv) := by
    rw [handle_eq_handleQueued hx]
    exact leaves_of_reader hc
  rcases store_dispatch env req ctx sv with h | ⟨c', hf', h⟩
  · rw [h]
  · rw [hf] at hf'
    cases hf'
    rw [h]
    exact hl.items.view

end

/-- A run that changes something `f` sees, under a name that is not listed. -/
theorem not_classified {α : Type} {name : String} (env : Env) (req : RespValue) (ctx : KvContext)
    (sv : Server Int) (key : Bytes) (f : Option (Item Int) → α) (hn : upperCmd req = lit name)
    (hm : isMutatingCommand (lit name) = false)
    (hc : f ((dispatch env req ctx sv).2.2.store.view env.now 0 key) ≠
      f (sv.store.view env.now 0 key)) : ¬ Classified name := by
  intro h
  have hmut := h Int env req ctx sv hn fun hv => hc (by rw [hv])
  rw [hn, hm] at hmut
  cases hmut

/-! ## Runs -/

/-- A request of plain strings. -/
def command (args : List String) : RespValue := .array (args.map fun s => .bulk (lit s))

/-- A server that has nothing but a store, after some requests at time 1. -/
def serverAfter (reqs : List RespValue) : Server Int :=
  reqs.foldl (fun sv req => (dispatch { now := 1 } req {} sv).2.2)
    { store := .empty, repl := { replId := [] } }

/-- A deadline in seconds so large that it is negative in milliseconds. -/
def overflowed : Server Int :=
  serverAfter [command ["SET", "k", "v"], command ["EXPIREAT", "k", "9223372036854776"]]

/-- Each of the nine changes the contents of some server and is not on the list. -/
theorem not_classified_overlooked {name : String}
    (h : name ∈ ["EXEC", "EVAL", "EVALSHA", "BLPOP", "BRPOP", "BRPOPLPUSH", "XREADGROUP", "TTL", "PTTL"]) :
    ¬ Classified name := by
  simp only [List.mem_cons, List.not_mem_nil, or_false] at h
  rcases h with rfl | rfl | rfl | rfl | rfl | rfl | rfl | rfl | rfl
  · exact not_classified { now := 1 } (command ["EXEC"])
      { multiMode := true, multiQueue := [command ["SET", "k", "v"]] } (serverAfter []) (lit "k")
      Option.isSome (by decide) (by decide) (by decide)
  · exact not_classified { now := 1 } (command ["EVAL", "return redis.call('SET','k','v')", "0"]) {}
      (serverAfter []) (lit "k") Option.isSome (by decide +kernel) (by decide +kernel) (by decide)
  · exact not_classified { now := 1 }
      (command ["EVALSHA", "sha1:return redis.call('SET','k','v')", "0"]) {}
      (serverAfter [command ["SCRIPT", "LOAD", "return redis.call('SET','k','v')"]]) (lit "k")
      Option.isSome (by decide +kernel) (by decide) (by decide)
  · exact not_classified { now := 1 } (command ["BLPOP", "k", "0"]) {}
      (serverAfter [command ["RPUSH", "k", "v"]]) (lit "k") Option.isSome (by decide)
      (by decide) (by decide +kernel)
  · exact not_classified { now := 1 } (command ["BRPOP", "k", "0"]) {}
      (serverAfter [command ["RPUSH", "k", "v"]]) (lit "k") Option.isSome (by decide)
      (by decide +kernel) (by decide +kernel)
  · exact not_classified { now := 1 } (command ["BRPOPLPUSH", "j", "k", "0"]) {}
      (serverAfter [command ["RPUSH", "j", "v"]]) (lit "k") Option.isSome (by decide +kernel)
      (by decide) (by decide +kernel)
  · -- The group gets a consumer with a pending entry.
    exact not_classified { now := 1 } (command ["XREADGROUP", "GROUP", "g", "c", "STREAMS", "k", ">"]) {}
      (serverAfter [command ["XADD", "k", "*", "f", "v"], command ["XGROUP", "CREATE", "k", "g", "0"]])
      (lit "k") (fun o => o.any fun o => o.streamGroups[lit "g"]?.any fun g => lit "c" ∈ g.consumers)
      (by decide +kernel) (by decide) (by decide +kernel)
  · exact not_classified { now := 1 } (command ["TTL", "k"]) {} overflowed (lit "k") Option.isSome
      (by decide +kernel) (by decide +kernel) (by decide +kernel)
  · exact not_classified { now := 1 } (command ["PTTL", "k"]) {} overflowed (lit "k") Option.isSome
      (by decide +kernel) (by decide) (by decide +kernel)

/-! ## Top theorem -/

theorem overlooked_names : ∀ e ∈ registered, e.2 ∈ overlooked →
    e.1 ∈ ["EXEC", "EVAL", "EVALSHA", "BLPOP", "BRPOP", "BRPOPLPUSH", "XREADGROUP", "TTL", "PTTL"] := by
  decide +kernel

variable {e : String × Command}

theorem registered_of_fate {F : Type} [Platform F] {ctx : KvContext}
    {sv : Server F} {req : RespValue} (he : e ∈ registered)
    (hn : upperCmd req = lit e.1) (hf : fate ctx sv req = .runs c) : c = e.2 := by
  obtain ⟨raw, hraw, -, -, hl⟩ := fate_runs hf
  have hc : lookup raw = some e.2 := by
    refine (lookup_iff raw e.2).mpr ⟨e.1, he, ?_⟩
    rw [← hn, upperCmd_of_rawName hraw]
  rw [hc] at hl
  cases hl
  rfl

theorem classified_of_not_overlooked (he : e ∈ registered)
    (ho : e.2 ∉ overlooked) : Classified e.1 := by
  intro F _ env req ctx sv hn hv
  by_cases hm : e.2.mutating = true
  · rw [hn, mutating_registered _ he, hm]
  · exfalso
    have hr := reader_of_not_overlooked (Bool.not_eq_true _ ▸ hm) ho
    rcases store_dispatch env req ctx sv with h | ⟨c, hf, -⟩
    · exact hv (by rw [h])
    · obtain rfl := registered_of_fate he hn hf
      exact hv (view_dispatch_of_reader hf hr)

/-- A queued request that may write: mutating by name, or for an overlooked command. -/
def MayWrite (req : RespValue) : Prop :=
  isMutatingCommand (upperCmd req) = true ∨
    ∃ e ∈ registered, upperCmd req = lit e.1 ∧ e.2 ∈ overlooked

theorem reader_of_not_mayWrite {req : RespValue} (h : ¬ MayWrite req) :
    RequestIs Command.reader req := by
  intro name c hname hl
  obtain ⟨s, hs, hu⟩ := (lookup_iff name c).mp hl
  have hname' := upperCmd_of_rawName hname
  refine reader_of_not_overlooked ?_ fun ho => h (.inr ⟨(s, c), hs, by rw [hname', hu], ho⟩)
  rw [← isMutating_of_lookup hl, ← hname', ← Bool.not_eq_true]
  exact fun hm => h (.inl hm)

theorem mayWrite_of_exec {F : Type} [Platform F] {env : Env} {req : RespValue} {ctx : KvContext}
    {sv : Server F} (hn : upperCmd req = lit "EXEC")
    (hv : (dispatch env req ctx sv).2.2.store.view env.now ≠ sv.store.view env.now) :
    ∃ q ∈ ctx.multiQueue, MayWrite q := by
  by_contra hno
  rw [not_exists] at hno
  have hq : ∀ q ∈ ctx.multiQueue, RequestIs Command.reader q := fun q hm =>
    reader_of_not_mayWrite fun h => hno q ⟨hm, h⟩
  rcases store_dispatch env req ctx sv with h | ⟨c, hf, h⟩
  · exact hv (by rw [h])
  · obtain rfl := registered_of_fate (e := ("EXEC", .exec)) (by decide) hn hf
    have hl : Leaves env.now ctx sv (handle .exec env req.items ctx sv) :=
      idle_reader.handle (.inl rfl) hq trivial
    exact hv (by rw [h, hl.items.view])

end Kv
