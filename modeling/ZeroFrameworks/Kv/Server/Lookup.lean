import ZeroFrameworks.Kv.Server.Dispatch

/-!
# Finding commands by name

    lookup name = some c  ↔  c is registered as upper name   (lookup_iff)
    lookup name = some c  →  isMutatingCommand (upper name) = c.mutating  (isMutating_of_lookup)
-/

namespace Kv

/-- The commands of `kMutating`. -/
def Command.mutating : Command → Bool
  | .store c => match c with
    | .flushdb | .flushall | .getset | .getdel | .set | .setex | .expire | .pexpire | .persist
    | .expireat | .pexpireat | .mset | .del | .incr | .decr | .incrby | .decrby | .hset | .hdel
    | .hmset | .lpop | .rpop | .sadd | .srem | .zadd | .zrem | .zincrby | .append | .hincrby | .ltrim
    | .lset | .lrem | .rpoplpush | .rename | .renamenx | .xadd | .xdel | .getex | .setnx | .hsetnx
    | .spop | .zpopmin | .zpopmax | .xgroup | .xack | .msetnx | .incrbyfloat | .linsert
    | .sinterstore | .sunionstore | .sdiffstore | .xtrim | .xclaim | .restore => true
    | _ => false
  | .push .lpush | .push .rpush => true
  | .server .select => true
  | _ => false

/-- The commands that change the store without being mutating by name. -/
def Command.indirect : Command → Bool
  | .store .blpop | .store .brpop | .store .xreadgroup | .push .brpoplpush | .eval | .evalsha => true
  | _ => false

/-- One evaluation, so that each name is turned into bytes once. -/
theorem registered_spec : ∀ e ∈ registered, upper (lit e.1) = lit e.1 ∧
    registered.find? (fun e' => lit e'.1 == lit e.1) = some e ∧ isMutatingCommand (lit e.1) = e.2.mutating := by
  decide +kernel

theorem upper_registered (e : String × Command) (he : e ∈ registered) : upper (lit e.1) = lit e.1 :=
  (registered_spec e he).1

theorem find_registered (e : String × Command) (he : e ∈ registered) :
    registered.find? (fun e' => lit e'.1 == lit e.1) = some e := (registered_spec e he).2.1

theorem mutating_registered (e : String × Command) (he : e ∈ registered) : isMutatingCommand (lit e.1) = e.2.mutating :=
  (registered_spec e he).2.2

theorem kMutating_registered : ∀ s ∈ kMutating, ∃ e ∈ registered, e.1 = s := by decide +kernel

variable {name : Bytes} {c : Command}

theorem upper_of_findHandler (h : findHandler name = some c) :
    ∃ s, (s, c) ∈ registered ∧ lit s = upper name := by
  obtain ⟨⟨s, c'⟩, he, rfl⟩ := Option.map_eq_some_iff.mp h
  have hm := List.mem_of_find?_eq_some he
  have hp := List.find?_some he
  simp only [Bool.or_eq_true, beq_iff_eq] at hp
  refine ⟨s, hm, ?_⟩
  rcases hp with rfl | rfl
  · rw [upper_registered _ hm]
  · rw [upper_lower, upper_registered _ hm]

theorem findHandler_isSome {e : String × Command} (he : e ∈ registered)
    (h : lower (lit e.1) = name) : (findHandler name).isSome := by
  unfold findHandler
  rw [Option.isSome_map, List.find?_isSome]
  exact ⟨e, he, by simp [h]⟩

theorem lookup_iff (name : Bytes) (c : Command) :
    lookup name = some c ↔ ∃ s, (s, c) ∈ registered ∧ lit s = upper name := by
  have upper_of_lookup : ∀ c, lookup name = some c → ∃ s, (s, c) ∈ registered ∧ lit s = upper name := by
    intro c h
    rcases Option.or_eq_some_iff.mp h with h | ⟨-, h⟩
    · exact upper_of_findHandler h
    · have := upper_of_findHandler h
      rwa [upper_lower] at this
  refine ⟨upper_of_lookup c, ?_⟩
  rintro ⟨s, hs, hu⟩
  have hsome : (lookup name).isSome := by
    have hl : (findHandler (lower name)).isSome :=
      findHandler_isSome hs (by rw [hu, lower_upper])
    unfold lookup
    cases h : findHandler name with
    | none => simpa using hl
    | some c' => rfl
  obtain ⟨c', hc'⟩ := Option.isSome_iff_exists.mp hsome
  obtain ⟨s', hs', hu'⟩ := upper_of_lookup c' hc'
  have h1 := find_registered _ hs
  rw [hu, ← hu', find_registered _ hs'] at h1
  simp only [Option.some.injEq, Prod.mk.injEq] at h1
  rw [hc', h1.2]

theorem isMutating_of_lookup (h : lookup name = some c) :
    isMutatingCommand (upper name) = c.mutating := by
  obtain ⟨s, hs, hu⟩ := (lookup_iff name c).mp h
  rw [← hu, mutating_registered _ hs]

theorem lookup_of_isMutating (h : isMutatingCommand (upper name) = true) :
    ∃ c, lookup name = some c ∧ c.mutating = true := by
  obtain ⟨s, hs, hu⟩ := List.any_eq_true.mp h
  rw [beq_iff_eq] at hu
  obtain ⟨⟨s', c⟩, he, rfl⟩ := kMutating_registered s hs
  have hl := (lookup_iff name c).mpr ⟨s', he, hu⟩
  exact ⟨c, hl, by rw [← isMutating_of_lookup hl, h]⟩

/-! ## Fates -/

variable {F : Type} [Platform F]

theorem transactionGate_not_runs (ctx : KvContext) (name : Bytes) (c : Command) :
    transactionGate ctx name ≠ some (.runs c) := by
  unfold transactionGate
  split
  · intro h; cases h
  · split
    · intro h; cases h
    · split <;> intro h <;> cases h

variable {req : RespValue}

theorem fate_runs {ctx : KvContext} {sv : Server F}
    (h : fate ctx sv req = .runs c) : ∃ name, rawName req = .ok name ∧ refusal ctx sv name = none ∧
      transactionGate ctx name = none ∧ lookup name = some c := by
  unfold fate at h
  split at h
  · cases h
  next name hname =>
    split at h
    · cases h
    next href =>
      split at h
      next f hgate =>
        subst h
        exact absurd hgate (transactionGate_not_runs ctx name c)
      next hgate =>
        split at h
        · cases h
        next c' hl =>
          cases h
          exact ⟨name, hname, href, hgate, hl⟩

theorem upperCmd_of_rawName (h : rawName req = .ok name) :
    upperCmd req = upper name := by
  unfold rawName at h
  split at h
  next n args =>
    cases h
    rfl
  · cases h
  · cases h

theorem mutating_of_fate {ctx : KvContext} {sv : Server F}
    (h : fate ctx sv req = .runs c) : isMutatingCommand (upperCmd req) = c.mutating := by
  obtain ⟨name, hname, -, -, hl⟩ := fate_runs h
  rw [upperCmd_of_rawName hname, isMutating_of_lookup hl]

theorem mutating_request (h : isMutatingCommand (upperCmd req) = true) :
    ∃ name c, rawName req = .ok name ∧ upperCmd req = upper name ∧ lookup name = some c ∧
      c.mutating = true := by
  have hnil : isMutatingCommand [] = false := by decide
  unfold upperCmd at h
  split at h
  next name args =>
    obtain ⟨c, hl, hc⟩ := lookup_of_isMutating h
    exact ⟨name, c, rfl, rfl, hl, hc⟩
  next => rw [hnil] at h; cases h

end Kv
