import ZeroFrameworks.Kv.Store.StoreM

/-!
# Memory limit

`evictIfNeededLocked` estimates the size of the live entries and, while it is above the limit,
samples the first sixteen candidates it meets and erases one of them.  Each round erases a
live entry, so the number of entries bounds the rounds.
-/

namespace Kv

variable {F : Type}

/-! ## Algorithm -/

def Entry.estimateBytes (key : Bytes) (e : Entry F) : Int :=
  let n : Int := key.length + 64
  match e.type with
  | .hash => n + (e.hash.toList.map fun f => (f.1.length : Int) + f.2.length + 16).sum
  | .list => n + (e.list.map fun v => (v.length : Int) + 8).sum
  | .set => n + (e.set.toList.map fun m => (m.length : Int) + 8).sum
  | .zset => n + (e.zset.toList.map fun z => (z.1.length : Int) + 16).sum
  | .stream => n + (e.stream.map fun x => (x.id.length : Int) + 16 +
      (x.fields.toList.map fun f => (f.1.length : Int) + f.2.length + 16).sum).sum
  | .string | .other _ => n + e.value.length

variable [Platform F]

/-- A key the sampling loop may pick: database, key and entry. -/
structure Candidate (F : Type) where
  db : Int
  key : Bytes
  entry : Entry F

/-- First candidate with the least `f`: for at most sixteen elements `std::sort` is an insertion
sort, which keeps the order of equal ones. -/
def leastBy (f : Candidate F → Int) : List (Candidate F) → Option (Candidate F)
  | [] => none
  | c :: cs =>
    match leastBy f cs with
    | none => some c
    | some d => some (if f d < f c then d else c)

namespace KvStore

/-- The unexpired entries, in the order of the loops. -/
def unexpired (env : Env) (s : KvStore F) : List (Candidate F) :=
  ((s.listing env.order).map fun x => (⟨x.2.1, x.2.2.1, x.2.2.2⟩ : Candidate F)).filter
    fun c => !c.entry.expired env.now

def usedMemory (env : Env) (s : KvStore F) : Int :=
  ((s.unexpired env).map fun c => c.entry.estimateBytes c.key).sum

/-- The entry one round erases, if there is a candidate; `draw` is the round's random number. -/
def victim (env : Env) (draw : Nat) (s : KvStore F) : Option (Candidate F) :=
  let policy := s.conf.maxmemoryPolicy
  let volatileOnly := policy ∈ [lit "volatile-lru", lit "volatile-random", lit "volatile-ttl"]
  let sample := ((s.unexpired env).filter
    fun c => !(volatileOnly && decide (c.entry.expireAtMs ≤ 0))).take 16
  if policy = lit "allkeys-random" ∨ policy = lit "volatile-random" then
    sample[draw % sample.length]?
  else if policy = lit "volatile-ttl" then
    leastBy (fun c => if 0 < c.entry.expireAtMs then i64 (c.entry.expireAtMs - env.now)
      else 2 ^ 63 - 1) sample
  else if policy = lit "allkeys-lru" ∨ policy = lit "volatile-lru" then
    leastBy (fun c => c.entry.lruMs) sample
  else sample.head?

def evictLoop (env : Env) : Nat → KvStore F → KvStore F
  | 0, s => s
  | rounds + 1, s =>
    if s.usedMemory env ≤ s.conf.maxmemory then s
    else
      match s.victim env (env.pick rounds) with
      | none => s
      | some c => evictLoop env rounds ((s.putEntry c.db c.key none).bumpWatchKey c.db c.key)

def evictIfNeededLocked : StoreM F Unit := fun env s =>
  ((), if s.conf.NoEvict then s else evictLoop env (s.unexpired env).length s)

/-- `setMaxMemory`. -/
def setMaxMemory (bytes : Int) : StoreM F Unit := fun _ s =>
  ((), { s with conf := { s.conf with maxmemory := if 0 < bytes then bytes else 0 } })

/-- `setMaxMemoryPolicy`. -/
def setMaxMemoryPolicy (policy : Bytes) : StoreM F Unit := fun _ s =>
  ((), { s with conf := { s.conf with
    maxmemoryPolicy := if policy.isEmpty then lit "noeviction" else policy } })

/-! ## Lemmas -/

theorem evictIfNeededLocked_eq_of_noEvict (env : Env) (s : KvStore F) (h : s.conf.NoEvict) :
    evictIfNeededLocked env s = ((), s) := by
  simp [evictIfNeededLocked, h]

theorem keeps_evict {P : Unit → Prop} :
    KeepsWhen StoreConf.NoEvict P (evictIfNeededLocked : StoreM F Unit) := by
  intro env s h _
  rw [evictIfNeededLocked_eq_of_noEvict env s h]
  exact Same.refl env.now s

theorem det_evict {lo hi : Int} : Det lo hi (evictIfNeededLocked : StoreM F Unit) := by
  intro e1 e2 s t _ _ h
  rw [evictIfNeededLocked_eq_of_noEvict e1 s h.noEvictL,
    evictIfNeededLocked_eq_of_noEvict e2 t h.noEvictR]
  exact ⟨rfl, h⟩

end KvStore

end Kv
