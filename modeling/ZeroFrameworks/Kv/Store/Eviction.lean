import ZeroFrameworks.Kv.Store.OrderlyDbs

/-!
# Eviction

A round of `evictIfNeededLocked` finds the estimate above the limit and erases one live entry that the
policy lets go.  Each round leaves one live key less, so no run of the loop has more rounds than there are
live keys (`length_of_rounds`); and a sample is empty only when no key is left that may go, so that the loop
ends where the estimate fits or nothing can be evicted any more (`settled_evictLoop`).

    s' = (evictIfNeededLocked env s).2 →
      Rounds env n s t → n ≤ (s.unexpired env).length
      the estimate fits, or the policy is noeviction, or the limit is zero → s' = s
      the entry of a key is in s' what it is in s, or it is gone from s' and was live and evictable
      0 < maxmemory → Settled env s'   (eviction_contract)
-/

namespace Kv

variable {F : Type} [Platform F]

/-! ## Specification -/

/-- The policies that spare the keys without a deadline. -/
def StoreConf.VolatileOnly (c : StoreConf) : Prop :=
  c.maxmemoryPolicy ∈ [lit "volatile-lru", lit "volatile-random", lit "volatile-ttl"]

instance (c : StoreConf) : Decidable c.VolatileOnly := inferInstanceAs (Decidable (_ ∈ _))

/-- The policy lets the entry go. -/
def StoreConf.Evictable (c : StoreConf) (o : Item F) : Prop :=
  c.maxmemoryPolicy ≠ lit "noeviction" ∧ (c.VolatileOnly → 0 < o.expireAtMs)

namespace KvStore

/-- The store without a candidate. -/
def drop (s : KvStore F) (c : Candidate F) : KvStore F := (s.putEntry c.db c.key none).bumpWatchKey c.db c.key

/-- One round of the loop, whatever the random number is. -/
def Round (env : Env) (s s' : KvStore F) : Prop :=
  s.conf.maxmemory < s.usedMemory env ∧ ∃ draw c, s.victim env draw = some c ∧ s' = s.drop c

/-- So many rounds, one after the other. -/
def Rounds (env : Env) : Nat → KvStore F → KvStore F → Prop
  | 0, s, s' => s' = s
  | n + 1, s, s' => ∃ t, Round env s t ∧ Rounds env n t s'

/-- The estimate fits, or no live key may be evicted. -/
def Settled (env : Env) (s : KvStore F) : Prop :=
  s.usedMemory env ≤ s.conf.maxmemory ∨ ∀ db key o, s.live env.now db key = some o → ¬s.conf.Evictable o

/-- There is no round for an eviction. -/
def AtRest (env : Env) (s : KvStore F) : Prop := s.conf.NoEvict ∨ s.Settled env

/-- The first round of an eviction takes the key, and there is no other. -/
def TakesOnly (env : Env) (s : KvStore F) (db : Int) (key : Bytes) : Prop :=
  ¬s.AtRest env ∧ ∃ c, s.victim env (env.pick ((s.unexpired env).length - 1)) = some c ∧
    c.db = db ∧ c.key = key ∧ (s.drop c).AtRest env

/-! ## Lemmas -/

variable {env : Env} {s s' : KvStore F} {c : Candidate F} {draw n : Nat} {db : Int} {key : Bytes}

/-- The candidates of a round, before the first sixteen are taken. -/
def eligible (env : Env) (s : KvStore F) : List (Candidate F) :=
  (s.unexpired env).filter fun c => !(decide s.conf.VolatileOnly && decide (c.entry.expireAtMs ≤ 0))

theorem mem_eligible : c ∈ s.eligible env ↔
    c ∈ s.unexpired env ∧ (s.conf.VolatileOnly → 0 < c.entry.expireAtMs) := by
  unfold eligible
  rw [List.mem_filter]
  refine and_congr_right fun _ => ?_
  by_cases hv : s.conf.VolatileOnly <;> simp [hv]

variable {l : List (Candidate F)}

omit [Platform F] in
theorem leastBy_eq_none_iff {f : Candidate F → Int} : leastBy f l = none ↔ l = [] := by
  cases l with
  | nil => exact ⟨fun _ => rfl, fun _ => rfl⟩
  | cons c l =>
    refine ⟨fun h => ?_, fun h => absurd h (List.cons_ne_nil _ _)⟩
    unfold leastBy at h
    split at h <;> cases h

/-- What a round chooses among. -/
def sample (env : Env) (s : KvStore F) : List (Candidate F) := (s.eligible env).take 16

/-- How it chooses. -/
def choose (now : Int) (policy : Bytes) (draw : Nat) (l : List (Candidate F)) : Option (Candidate F) :=
  if policy = lit "allkeys-random" ∨ policy = lit "volatile-random" then l[draw % l.length]?
  else if policy = lit "volatile-ttl" then
    leastBy (fun c => if 0 < c.entry.expireAtMs then i64 (c.entry.expireAtMs - now) else 2 ^ 63 - 1) l
  else if policy = lit "allkeys-lru" ∨ policy = lit "volatile-lru" then leastBy (fun c => c.entry.lruMs) l
  else l.head?

theorem victim_eq (env : Env) (draw : Nat) (s : KvStore F) :
    s.victim env draw = choose env.now s.conf.maxmemoryPolicy draw (s.sample env) := rfl

variable {now : Int}

omit [Platform F] in
theorem mem_of_choose {policy : Bytes}
    (h : choose now policy draw l = some c) : c ∈ l := by
  unfold choose at h
  split at h
  · exact List.mem_of_getElem? h
  · split at h
    · exact mem_of_leastBy h
    · split at h
      · exact mem_of_leastBy h
      · exact List.mem_of_head? h

omit [Platform F] in
theorem choose_eq_none_iff {policy : Bytes} :
    choose now policy draw l = none ↔ l = [] := by
  unfold choose
  split
  · rw [List.getElem?_eq_none_iff]
    refine ⟨fun h => List.length_eq_zero_iff.mp ?_, fun h => by rw [h]; exact Nat.zero_le _⟩
    by_contra hpos
    exact absurd (Nat.mod_lt draw (Nat.pos_of_ne_zero hpos)) (Nat.not_lt.mpr h)
  · split
    · exact leastBy_eq_none_iff
    · split
      · exact leastBy_eq_none_iff
      · exact List.head?_eq_none_iff

theorem victim_mem (h : s.victim env draw = some c) : c ∈ s.sample env := mem_of_choose h

theorem victim_eq_none_iff : s.victim env draw = none ↔ s.eligible env = [] := by
  rw [victim_eq, choose_eq_none_iff, sample, List.take_eq_nil_iff]
  exact or_iff_right (by decide)

theorem live_of_victim (h : s.victim env draw = some c) :
    s.live env.now c.db c.key = some c.entry.toItem ∧ (s.conf.VolatileOnly → 0 < c.entry.expireAtMs) := by
  obtain ⟨hc, hv⟩ := mem_eligible.mp (List.mem_of_mem_take (victim_mem h))
  exact ⟨live_of_mem_unexpired hc, hv⟩

theorem isSome_of_victim (h : s.victim env draw = some c) : (s.live env.now c.db c.key).isSome :=
  Option.isSome_of_eq_some (live_of_victim h).1

theorem not_evictable_of_victim (h : s.victim env draw = none) {o : Item F}
    (hl : s.live env.now db key = some o) : ¬s.conf.Evictable o := by
  rintro ⟨-, hv⟩
  have hmem : (db, key) ∈ (s.unexpired env).map fun c => (c.db, c.key) := mem_unexpired.mpr (by rw [hl]; rfl)
  obtain ⟨c, hc, heq⟩ := List.mem_map.mp hmem
  obtain ⟨rfl, rfl⟩ := Prod.mk.inj heq
  have hlive := live_of_mem_unexpired hc
  rw [hl, Option.some.injEq] at hlive
  have helig : c ∈ s.eligible env := mem_eligible.mpr ⟨hc, by rw [← hlive]; exact hv⟩
  rw [victim_eq_none_iff.mp h] at helig
  cases helig

@[simp] theorem conf_drop (s : KvStore F) (c : Candidate F) : (s.drop c).conf = s.conf := rfl

theorem entry_drop (s : KvStore F) (c : Candidate F) (db : Int) (key : Bytes) :
    (s.drop c).entry db key = if db = c.db ∧ key = c.key then none else s.entry db key := by
  unfold drop
  rw [entry_bumpWatchKey, entry_putEntry]

theorem live_drop (s : KvStore F) (c : Candidate F) (now db : Int) (key : Bytes) :
    (s.drop c).live now db key = if db = c.db ∧ key = c.key then none else s.live now db key := by
  unfold live item
  rw [entry_drop]
  split <;> rfl

theorem length_unexpired_drop (hl : (s.live env.now c.db c.key).isSome) :
    ((s.drop c).unexpired env).length + 1 = (s.unexpired env).length := by
  have hperm : ((s.unexpired env).map fun c => (c.db, c.key)).Perm
      ((c.db, c.key) :: ((s.drop c).unexpired env).map fun c => (c.db, c.key)) := by
    refine (List.perm_ext_iff_of_nodup (nodup_unexpired env s) (List.nodup_cons.mpr
      ⟨fun h => ?_, nodup_unexpired env _⟩)).mpr fun ⟨db, key⟩ => ?_
    · have hgone := mem_unexpired.mp h
      rw [live_drop, if_pos ⟨rfl, rfl⟩] at hgone
      cases hgone
    · rw [List.mem_cons, mem_unexpired, mem_unexpired, live_drop, Prod.mk.injEq]
      split
      next hk =>
        obtain ⟨rfl, rfl⟩ := hk
        exact ⟨fun _ => .inl ⟨rfl, rfl⟩, fun _ => hl⟩
      next hk => exact (or_iff_right hk).symm
  have hlen := hperm.length_eq
  rw [List.length_cons, List.length_map, List.length_map] at hlen
  exact hlen.symm

theorem Round.length (h : Round env s s') : (s'.unexpired env).length + 1 = (s.unexpired env).length := by
  obtain ⟨-, draw, c, hc, rfl⟩ := h
  exact length_unexpired_drop (isSome_of_victim hc)

theorem length_of_rounds (h : Rounds env n s s') : n + (s'.unexpired env).length = (s.unexpired env).length := by
  induction n generalizing s with
  | zero =>
    obtain rfl := h
    exact Nat.zero_add _
  | succ n ih =>
    obtain ⟨t, ht, hrest⟩ := h
    rw [← ht.length, ← ih hrest]
    exact Nat.add_right_comm n 1 _

theorem entry_of_rounds (h : Rounds env n s s') (db : Int) (key : Bytes) : s'.entry db key = s.entry db key ∨
    s'.entry db key = none ∧
      ∃ o, s.live env.now db key = some o ∧ (s.conf.VolatileOnly → 0 < o.expireAtMs) := by
  induction n generalizing s with
  | zero =>
    obtain rfl := h
    exact .inl rfl
  | succ n ih =>
    obtain ⟨t, ⟨-, draw, c, hc, rfl⟩, hrest⟩ := h
    have hrest := ih hrest
    rw [entry_drop, live_drop] at hrest
    by_cases hk : db = c.db ∧ key = c.key
    · obtain ⟨rfl, rfl⟩ := hk
      rw [if_pos ⟨rfl, rfl⟩] at hrest
      exact .inr ⟨hrest.elim id And.left, c.entry.toItem, live_of_victim hc⟩
    · rw [if_neg hk, if_neg hk] at hrest
      exact hrest

theorem conf_of_rounds (h : Rounds env n s s') : s'.conf = s.conf := by
  induction n generalizing s with
  | zero =>
    obtain rfl := h
    rfl
  | succ n ih =>
    obtain ⟨t, ⟨-, draw, c, hc, rfl⟩, hrest⟩ := h
    exact (ih hrest).trans (conf_drop s c)

theorem evictLoop_succ (env : Env) (n : Nat) (s : KvStore F) : evictLoop env (n + 1) s =
    if s.usedMemory env ≤ s.conf.maxmemory then s
    else (s.victim env (env.pick n)).elim s fun c => evictLoop env n (s.drop c) := by
  rw [evictLoop]
  split
  · rfl
  · cases s.victim env (env.pick n) <;> rfl

theorem rounds_evictLoop (env : Env) (m : Nat) (s : KvStore F) : ∃ n, Rounds env n s (evictLoop env m s) := by
  induction m generalizing s with
  | zero => exact ⟨0, rfl⟩
  | succ m ih =>
    rw [evictLoop_succ]
    split
    · exact ⟨0, rfl⟩
    next hused =>
      cases hv : s.victim env (env.pick m) with
      | none => exact ⟨0, rfl⟩
      | some c =>
        obtain ⟨n, hn⟩ := ih (s.drop c)
        exact ⟨n + 1, s.drop c, ⟨Int.not_le.mp hused, _, c, hv, rfl⟩, hn⟩

variable {m : Nat}

/-- With as many rounds as there are live keys it ends by itself. -/
theorem settled_evictLoop (h : (s.unexpired env).length ≤ m) : Settled env (evictLoop env m s) := by
  induction m generalizing s with
  | zero =>
    refine .inr fun db key o hl => absurd (mem_unexpired.mpr (Option.isSome_of_eq_some hl)) ?_
    change (db, key) ∉ (s.unexpired env).map _
    rw [List.length_eq_zero_iff.mp (Nat.le_zero.mp h)]
    exact List.not_mem_nil
  | succ m ih =>
    rw [evictLoop_succ]
    split
    next hused => exact .inl hused
    next hused =>
      cases hv : s.victim env (env.pick m) with
      | none => exact .inr fun db key o hl => not_evictable_of_victim hv hl
      | some c =>
        refine ih ?_
        have hlen := length_unexpired_drop (isSome_of_victim hv)
        omega

theorem evictLoop_of_fits (h : s.usedMemory env ≤ s.conf.maxmemory) : evictLoop env m s = s := by
  cases m with
  | zero => rfl
  | succ m => rw [evictLoop_succ, if_pos h]

theorem rounds_evict (env : Env) (s : KvStore F) : ∃ n, Rounds env n s (evictIfNeededLocked env s).2 := by
  unfold evictIfNeededLocked
  simp only
  split
  · exact ⟨0, rfl⟩
  · exact rounds_evictLoop env _ s

/-! ## What an eviction leaves -/

theorem view_eq_map (now : Int) (s : KvStore F) (db : Int) (key : Bytes) :
    s.view now db key = (((s.entry db key).map Entry.toItem).map Item.norm).filter fun o => !o.expired now :=
  live_map_norm now s db key

theorem view_congr (h : s'.entry db key = s.entry db key) : s'.view now db key = s.view now db key := by
  rw [view_eq_map, view_eq_map, h]

theorem view_none (h : s.entry db key = none) : s.view now db key = none := by
  rw [view_eq_map, h]
  rfl

theorem view_ne_none {o : Item F} (h : s.live now db key = some o) : s.view now db key ≠ none := by
  unfold view
  rw [h]
  exact Option.some_ne_none _

theorem view_evictLoop_drop (c : Candidate F) :
    (evictLoop env m (s.drop c)).view env.now c.db c.key = none := by
  obtain ⟨n, hn⟩ := rounds_evictLoop env m (s.drop c)
  have hgone : (s.drop c).entry c.db c.key = none := by rw [entry_drop, if_pos ⟨rfl, rfl⟩]
  refine view_none ((entry_of_rounds hn c.db c.key).elim (fun h => h.trans hgone) And.left)

theorem victim_of_unsettled (h : ¬s.Settled env) (draw : Nat) : ∃ c, s.victim env draw = some c := by
  by_contra hno
  have hnone : s.victim env draw = none := Option.eq_none_iff_forall_ne_some.mpr fun c hc => hno ⟨c, hc⟩
  exact h (.inr fun db key o hl => not_evictable_of_victim hnone hl)

theorem evictLoop_of_unsettled (h : ¬s.Settled env) {c : Candidate F}
    (hc : s.victim env (env.pick m) = some c) : evictLoop env (m + 1) s = evictLoop env m (s.drop c) := by
  rw [evictLoop_succ, if_neg fun hused => h (.inl hused), hc]
  rfl

theorem unexpired_pos (h : ¬s.Settled env) : 0 < (s.unexpired env).length := by
  refine Nat.pos_of_ne_zero fun h0 => h ?_
  exact settled_evictLoop (m := 0) (Nat.le_of_eq h0)

theorem evictLoop_of_settled (hev : ¬s.conf.NoEvict) (h : s.Settled env) (m : Nat) : evictLoop env m s = s := by
  cases m with
  | zero => rfl
  | succ m =>
    rw [evictLoop_succ]
    split
    · rfl
    next hused =>
      cases hv : s.victim env (env.pick m) with
      | none => rfl
      | some c =>
        obtain ⟨hl, hvol⟩ := live_of_victim hv
        exact absurd ⟨fun hp => hev (.inr hp), hvol⟩ (h.resolve_left hused _ _ _ hl)

theorem view_evictLoop_iff (hev : ¬s.conf.NoEvict) (hm : (s.unexpired env).length ≤ m) :
    (evictLoop env m s).view env.now = s.view env.now ↔ s.Settled env := by
  refine ⟨fun h => ?_, fun h => by rw [evictLoop_of_settled hev h]⟩
  by_contra hs
  have hpos := unexpired_pos hs
  obtain ⟨m, rfl⟩ := Nat.exists_eq_add_of_le' (Nat.lt_of_lt_of_le hpos hm)
  obtain ⟨c, hc⟩ := victim_of_unsettled hs (env.pick m)
  rw [evictLoop_of_unsettled hs hc] at h
  refine view_ne_none (live_of_victim hc).1 ?_
  rw [← h, view_evictLoop_drop]

theorem evict_of_atRest (h : s.AtRest env) : (evictIfNeededLocked env s).2 = s := by
  unfold evictIfNeededLocked
  simp only
  split
  · rfl
  next hev => exact evictLoop_of_settled hev (h.resolve_left hev) _

theorem view_evict_iff : (evictIfNeededLocked env s).2.view env.now = s.view env.now ↔ s.AtRest env := by
  refine ⟨fun h => ?_, fun h => by rw [evict_of_atRest h]⟩
  by_cases hev : s.conf.NoEvict
  · exact .inl hev
  · have heq : (evictIfNeededLocked env s).2 = evictLoop env (s.unexpired env).length s := by
      unfold evictIfNeededLocked
      exact if_neg hev
    rw [heq] at h
    exact .inr ((view_evictLoop_iff hev Nat.le.refl).mp h)

theorem evict_eq_drop (h : ¬s.AtRest env) : ∃ c,
    s.victim env (env.pick ((s.unexpired env).length - 1)) = some c ∧
      (evictIfNeededLocked env s).2 = evictLoop env ((s.drop c).unexpired env).length (s.drop c) := by
  have hs : ¬s.Settled env := fun hs => h (.inr hs)
  obtain ⟨c, hc⟩ := victim_of_unsettled hs (env.pick ((s.unexpired env).length - 1))
  refine ⟨c, hc, ?_⟩
  have hlen := length_unexpired_drop (isSome_of_victim hc)
  have heq : (evictIfNeededLocked env s).2 = evictLoop env (s.unexpired env).length s := by
    unfold evictIfNeededLocked
    exact if_neg fun hev => h (.inl hev)
  rw [heq, ← hlen]
  rw [← hlen] at hc
  exact evictLoop_of_unsettled hs hc

theorem takesOnly_iff (hl : s.view env.now db key ≠ none) : s.TakesOnly env db key ↔
    (evictIfNeededLocked env s).2.view env.now db key = none ∧
      ∀ db' key', ¬(db' = db ∧ key' = key) →
        (evictIfNeededLocked env s).2.view env.now db' key' = s.view env.now db' key' := by
  constructor
  · rintro ⟨hrest, c, hc, rfl, rfl, hdrop⟩
    obtain ⟨c', hc', heq⟩ := evict_eq_drop hrest
    obtain rfl : c = c' := by simpa [hc] using hc'
    have hev : ¬(s.drop c).conf.NoEvict := fun h => hrest (.inl h)
    rw [heq, evictLoop_of_settled hev (hdrop.resolve_left hev)]
    refine ⟨view_none (by rw [entry_drop, if_pos ⟨rfl, rfl⟩]), fun db' key' hne => view_congr ?_⟩
    rw [entry_drop, if_neg hne]
  · rintro ⟨hgone, hothers⟩
    have hrest : ¬s.AtRest env := fun h => hl (by rw [← hgone, evict_of_atRest h])
    obtain ⟨c, hc, heq⟩ := evict_eq_drop hrest
    have hev : ¬(s.drop c).conf.NoEvict := fun h => hrest (.inl h)
    have hkey : c.db = db ∧ c.key = key := by
      by_contra hne
      refine view_ne_none (live_of_victim hc).1 ?_
      rw [← hothers c.db c.key hne, heq, view_evictLoop_drop]
    obtain ⟨rfl, rfl⟩ := hkey
    refine ⟨hrest, c, hc, rfl, rfl, .inr ((view_evictLoop_iff hev Nat.le.refl).mp ?_)⟩
    funext db' key'
    by_cases hk : db' = c.db ∧ key' = c.key
    · obtain ⟨rfl, rfl⟩ := hk
      rw [view_evictLoop_drop, view_none (by rw [entry_drop, if_pos ⟨rfl, rfl⟩])]
    · rw [← heq, hothers db' key' hk]
      exact (view_congr (by rw [entry_drop, if_neg hk])).symm

/-! ## Top theorem -/

/-- What an eviction does, at every clock reading, limit and policy. -/
theorem eviction_contract (env : Env) (s : KvStore F) :
    (∃ n, Rounds env n s (evictIfNeededLocked env s).2) ∧
    (∀ n t, Rounds env n s t → n ≤ (s.unexpired env).length) ∧
    (s.usedMemory env ≤ s.conf.maxmemory ∨ s.conf.maxmemoryPolicy = lit "noeviction" ∨ s.conf.maxmemory ≤ 0 →
      (evictIfNeededLocked env s).2 = s) ∧
    (∀ db key, (evictIfNeededLocked env s).2.entry db key = s.entry db key ∨
      (evictIfNeededLocked env s).2.entry db key = none ∧
        ∃ o, s.live env.now db key = some o ∧ (s.conf.VolatileOnly → 0 < o.expireAtMs)) ∧
    (0 < s.conf.maxmemory → Settled env (evictIfNeededLocked env s).2) := by
  obtain ⟨n, hn⟩ := rounds_evict env s
  refine ⟨⟨n, hn⟩, fun m t ht => ?_, fun h => ?_, entry_of_rounds hn, fun hpos => ?_⟩
  · have hlen := length_of_rounds ht
    omega
  · by_cases hno : s.conf.NoEvict
    · rw [evictIfNeededLocked_eq_of_noEvict env s hno]
    · have hfits := h.resolve_right fun hp => hno hp.symm
      unfold evictIfNeededLocked
      rw [if_neg hno]
      exact evictLoop_of_fits hfits
  · unfold evictIfNeededLocked
    simp only
    split
    next hev =>
      have hp : s.conf.maxmemoryPolicy = lit "noeviction" := hev.resolve_left (Int.not_le.mpr hpos)
      exact .inr fun db key o _ h => h.1 hp
    next hev => exact settled_evictLoop Nat.le.refl

/-- Without a limit a key stays that allkeys-lru would let go. -/
theorem unlimited_unsettled : ¬Settled { now := 0 } (evictIfNeededLocked { now := 0 }
    (set 0 (lit "a") (lit "1") { now := 0 } (empty : KvStore Int)).2).2 := by
  rintro (h | h)
  · exact absurd h (by decide)
  · exact h 0 (lit "a") { value := lit "1" } rfl ⟨by decide, fun hv => absurd hv (by decide)⟩

end KvStore

end Kv
