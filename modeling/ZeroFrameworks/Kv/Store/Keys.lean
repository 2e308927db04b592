import ZeroFrameworks.Kv.Store.Strings

/-!
# Operations on keys of any type

Existence, deadlines, renaming, listing and flushing.  `TTL` and `PTTL` look at the deadline only,
but a deadline below zero (a product that left the 64-bit range) makes them erase the key.
-/

namespace Kv

variable {F : Type} [Platform F]

/-! ## Glob patterns -/

/-- The loop of `matchGlob` over positions in pattern and text; `star` is the place after the
last `*` and the text position it was tried at. -/
def globLoop (pattern text : Bytes) : Nat → Nat → Nat → Option (Nat × Nat) → Bool
  | 0, _, _, _ => false
  | fuel + 1, pi, ti, star =>
    if h : ti < text.length then
      if pattern[pi]? = some 63 ∨ pattern[pi]? = some text[ti] then
        globLoop pattern text fuel (pi + 1) (ti + 1) star
      else if pattern[pi]? = some 42 then
        globLoop pattern text fuel (pi + 1) ti (some (pi + 1, ti))
      else
        match star with
        | some (starPi, starTi) =>
          globLoop pattern text fuel starPi (starTi + 1) (some (starPi, starTi + 1))
        | none => false
    else (pattern.drop pi).all (· == 42)

/-- `matchGlob`; between two steps back of the text position there are at most as many rounds as
pattern and text have bytes. -/
def matchGlob (pattern text : Bytes) : Bool :=
  globLoop pattern text ((text.length + 2) * (pattern.length + text.length + 2)) 0 0 none

/-- Lexicographic order of `std::string`. -/
def bytesLe (a b : Bytes) : Bool := (compare a b).isLE

/-- One page of a listing and the next cursor, `0` at the end; `scan` and `scanFlatItems`. -/
def page (all : List Bytes) (cursor : Nat) (count : Int) : Nat × List Bytes :=
  let size := if count ≤ 0 then 10 else count.toNat
  if all.length ≤ cursor then (0, [])
  else
    let stop := min (cursor + size) all.length
    (if all.length ≤ stop then 0 else stop, (all.take stop).drop cursor)

namespace KvStore

/-! ## Operations on one key -/

/-- `findEntry` in a database that is only looked up. -/
def find (db : Int) (key : Bytes) : StoreM F (Option (Item F)) :=
  .onFound db key none fun o => { reply := some o }

def exist (db : Int) (key : Bytes) : StoreM F Bool := .onObj db key fun o => { reply := o.isSome }

def ObjType.name : ObjType → Bytes
  | .hash => lit "hash"
  | .list => lit "list"
  | .set => lit "set"
  | .zset => lit "zset"
  | .stream => lit "stream"
  | .string | .other _ => lit "string"

def type (db : Int) (key : Bytes) : StoreM F Bytes :=
  .onObj db key fun o => { reply := (o.map fun o => ObjType.name o.type).getD (lit "none") }

def existsMany (db : Int) : List Bytes → StoreM F Int
  | [] => pure 0
  | key :: keys => do
    let n ← .onFound db key 0 fun _ => { reply := 1 }
    let m ← existsMany db keys
    pure (n + m)

def persist (db : Int) (key : Bytes) : StoreM F Int :=
  .onEntry db key fun o =>
    match o with
    | none => { reply := 0 }
    | some o => { act := .put { o with expireAtMs := 0 }, reply := 1 }

/-- The shape of the four expiry operations: an argument that is not positive erases the key. -/
def expireBody (arg deadline reply : Int) (o : Option (Item F)) : Out (Item F) Int :=
  match o with
  | none => { reply := 0 }
  | some o =>
    if arg ≤ 0 then { act := .erase, reply := 1 }
    else { act := .put { o with expireAtMs := deadline }, reply := reply }

def expire (db : Int) (key : Bytes) (seconds : Int) : StoreM F Int :=
  .withEnv fun env => .onEntry db key (expireBody seconds (i64 (env.now + seconds * 1000)) 1)

def pexpire (db : Int) (key : Bytes) (milliseconds : Int) : StoreM F Int :=
  .withEnv fun env => .onEntry db key (expireBody milliseconds (i64 (env.now + milliseconds)) 1)

def expireAt (db : Int) (key : Bytes) (unixSec : Int) : StoreM F Int :=
  .withEnv fun env => .onEntry db key
    (expireBody unixSec (i64 (unixSec * 1000)) (if env.now < i64 (unixSec * 1000) then 1 else 0))

def pexpireAt (db : Int) (key : Bytes) (unixMs : Int) : StoreM F Int :=
  .withEnv fun env => .onEntry db key
    (expireBody unixMs unixMs (if env.now < unixMs then 1 else 0))

/-- `expire_at_ms - now` in int64: where the clock is not negative it can only pass the lower end. -/
def remaining (expireAtMs now : Int) : Int :=
  if expireAtMs - now < -2 ^ 63 then expireAtMs - now + 2 ^ 64 else expireAtMs - now

/-- `ttl` and `pttl`; `unit` turns the remaining milliseconds into the reply. -/
def ttlWith (unit : Int → Int) (db : Int) (key : Bytes) : StoreM F Int :=
  .withEnv fun env => .onFound db key (-2) fun o =>
    if o.expireAtMs = 0 then { reply := -1 }
    else if remaining o.expireAtMs env.now ≤ 0 then { act := .erase, reply := -2 }
    else { reply := unit (remaining o.expireAtMs env.now) }

def ttl (db : Int) (key : Bytes) : StoreM F Int := ttlWith (fun ms => (i64 (ms + 999)).tdiv 1000) db key

def pttl (db : Int) (key : Bytes) : StoreM F Int := ttlWith id db key

/-- `renameKey`: `false` is the refusal of the NX form. -/
def renameKey (db : Int) (src dst : Bytes) (nx : Bool) : StoreM F (Except Bytes Bool) :=
  if src = dst then pure (.ok true)
  else do
    match ← find db src with
    | none => pure (.error (lit "ERR no such key"))
    | some moved => do
      let found ← .onFound db dst false fun _ => { reply := true }
      if found && nx then pure (.ok false)
      else do
        let _ ← delOne db dst
        let _ ← delOne db src
        .onEntry db dst fun _ =>
          { act := .put moved, touch := true, bump := shardIdx F src != shardIdx F dst, reply := () }
        pure (.ok true)

/-! ## Operations on a whole database -/

/-- `purgeExpiredDb` in every shard. -/
def purgeExpiredDb (db : Int) : StoreM F Unit := fun env s =>
  ((), s.filterDb db fun e => !e.expired env.now)

/-- The keys of a database, shard by shard. -/
def dbKeys (s : KvStore F) (db : Int) : List Bytes :=
  (List.finRange 16).flatMap fun i => ((s.dbMap i db).getD ∅).keys

def dbsize (db : Int) : StoreM F Int := do
  purgeExpiredDb db
  fun _ s => ((s.dbKeys db).length, s)

def expireCount (db : Int) : StoreM F Int := do
  purgeExpiredDb db
  fun _ s => (((s.dbKeys db).filter fun key =>
    (s.item db key).any fun o => decide (0 < o.expireAtMs)).length, s)

def keys (db : Int) (pattern : Bytes) : StoreM F (List Bytes) := do
  purgeExpiredDb db
  fun _ s => (((s.dbKeys db).filter (matchGlob pattern)).mergeSort bytesLe, s)

/-- `scan`: one page of the sorted keys. -/
def scan (db : Int) (cursor : Nat) (pattern : Bytes) (count : Int) : StoreM F (Nat × List Bytes) :=
  (page · cursor count) <$> keys db pattern

/-- `m_dbs[db].clear()` and `bumpWatchDb(db)` in every shard. -/
def flushdb (db : Int) : StoreM F Unit := fun _ s =>
  ((), { s with
    shards := fun i =>
      { (s.shards i).bumpWatchDb db with dbs := (s.shards i).dbs.insert db ∅ }
    placed := by
      intro i db' m key hl hk
      by_cases hdb : db' = db
      · subst hdb
        rw [AList.lookup_insert, Option.some.injEq] at hl
        subst hl
        exact absurd hk Std.ExtTreeMap.not_mem_empty
      · rw [AList.lookup_insert_ne hdb] at hl
        exact s.placed i db' m key hl hk })

def flushall : StoreM F Unit := fun _ s =>
  ((), { s with
    shards := fun i =>
      { (List.range 16).foldl (fun sh (db : Nat) => sh.bumpWatchDb db) (s.shards i) with dbs := ∅ }
    placed := by
      intro i db m key hl hk
      rw [AList.lookup_empty] at hl
      cases hl })

/-- One database of `purgeExpiredActive`: the first `maxScan` entries met are looked at. -/
def purgeScanned (env : Env) (maxScan : Nat) (s : KvStore F) (i : Fin 16) (db : Int) : List Bytes :=
  ((env.order ((s.dbMap i db).getD ∅).keys).take maxScan).filter fun key =>
    (s.item db key).any fun o => o.expired env.now

/-- `purgeExpiredActive`. -/
def purgeExpiredActive (maxScan : Int) : StoreM F Int := fun env s =>
  if maxScan ≤ 0 then (0, s)
  else
    let dead := (List.finRange 16).flatMap fun i => (s.shards i).dbs.entries.flatMap fun d =>
      (s.purgeScanned env maxScan.toNat i d.1).map fun key => (d.1, key)
    (dead.length, dead.foldl (fun s d => s.putEntry d.1 d.2 none) s)

/-! ## Lemmas -/

variable {I : StoreConf → Prop} {lo hi db : Int} {key : Bytes}

theorem item_flushdb (db db' : Int) (key : Bytes) (env : Env) (s : KvStore F) :
    (flushdb db env s).2.item db' key = if db' = db then none else s.item db' key := by
  unfold item entry dbMap flushdb
  simp only
  by_cases hdb : db' = db
  · subst hdb
    simp [AList.lookup_insert]
  · rw [AList.lookup_insert_ne hdb, if_neg hdb]

theorem item_flushall (db : Int) (key : Bytes) (env : Env) (s : KvStore F) :
    (flushall env s).2.item db key = none := rfl

theorem reads_find : Reads (find db key : StoreM F _) := .onFound fun _ _ => rfl

theorem find_reply (env : Env) (s : KvStore F) : (find db key env s).1 = s.live env.now db key := by
  unfold find StoreM.onFound
  rw [onFound_reply]
  cases s.live env.now db key <;> rfl

theorem reads_type : Reads (type db key : StoreM F _) := .onObj fun _ _ => rfl

theorem reads_existsMany {keys : List Bytes} : Reads (existsMany db keys : StoreM F _) := by
  induction keys with
  | nil => exact .pure _
  | cons key keys ih => exact .bind (.onFound fun _ _ => rfl) fun _ => .bind ih fun _ => .pure _

theorem item_purgeExpiredDb (db db' : Int) (key : Bytes) (env : Env) (s : KvStore F) :
    (purgeExpiredDb db env s).2.item db' key =
      if db' = db then s.live env.now db' key else s.item db' key := by
  unfold item purgeExpiredDb
  rw [entry_filterDb, live_eq_entry]
  split <;> rfl

theorem reads_purgeExpiredDb : Reads (purgeExpiredDb db : StoreM F Unit) := by
  intro env s _ _
  refine ⟨rfl, fun db' key => ?_⟩
  rw [item_purgeExpiredDb]
  split
  · cases hl : s.live env.now db' key with
    | none => exact .inr ⟨rfl, rfl⟩
    | some o => exact .inl (by rw [item_of_live hl])
  · exact .inl rfl

theorem mem_purgeScanned {env : Env} {maxScan : Nat} {s : KvStore F} {i : Fin 16}
    (h : key ∈ s.purgeScanned env maxScan i db) : s.live env.now db key = none := by
  have hexp := (List.mem_filter.mp h).2
  unfold live
  cases ho : s.item db key with
  | none => rfl
  | some o =>
    rw [ho, Option.any_some] at hexp
    simp [Option.filter, hexp]

theorem same_eraseExpired {now : Int} (dead : List (Int × Bytes)) (s : KvStore F)
    (h : ∀ d ∈ dead, s.live now d.1 d.2 = none) :
    Same now s (dead.foldl (fun s d => s.putEntry d.1 d.2 none) s) := by
  induction dead generalizing s with
  | nil => exact Same.refl now s
  | cons d dead ih =>
    have hone : Same now s (s.putEntry d.1 d.2 none) := by
      refine ⟨rfl, fun db' key' => ?_⟩
      unfold item
      rw [entry_putEntry]
      split
      next hk =>
        obtain ⟨rfl, rfl⟩ := hk
        exact .inr ⟨rfl, h d List.mem_cons_self⟩
      · exact .inl rfl
    refine hone.trans (ih _ fun d' hd' => ?_)
    have hlive := hone.live d'.1 d'.2
    rw [h d' (List.mem_cons_of_mem _ hd')] at hlive
    simpa using hlive

theorem reads_purgeExpiredActive {maxScan : Int} :
    Reads (purgeExpiredActive maxScan : StoreM F _) := by
  intro env s _ _
  unfold purgeExpiredActive
  split
  · exact Same.refl _ _
  · refine same_eraseExpired _ s fun d hd => ?_
    simp only [List.mem_flatMap, List.mem_map] at hd
    obtain ⟨i, -, e, -, key, hkey, rfl⟩ := hd
    exact mem_purgeScanned hkey

theorem reads_gets {α : Type} (f : KvStore F → α) : Reads (fun _ s => (f s, s) : StoreM F α) :=
  fun env s _ _ => Same.refl env.now s

theorem reads_dbsize : Reads (dbsize db : StoreM F _) :=
  .bind reads_purgeExpiredDb fun _ => reads_gets _

theorem reads_expireCount : Reads (expireCount db : StoreM F _) :=
  .bind reads_purgeExpiredDb fun _ => reads_gets _

theorem reads_keys {pattern : Bytes} : Reads (keys db pattern : StoreM F _) :=
  .bind reads_purgeExpiredDb fun _ => reads_gets _

theorem reads_scan {cursor : Nat} {pattern : Bytes} {count : Int} :
    Reads (scan db cursor pattern count : StoreM F _) :=
  .map reads_keys fun _ _ => trivial

/-- Where no deadline is below zero, reading the time to live leaves the contents alone. -/
theorem same_ttlWith {unit : Int → Int} {env : Env} {s : KvStore F} (hq : Quiet lo hi s) :
    Same env.now s (ttlWith unit db key env s).2 := by
  unfold ttlWith StoreM.withEnv StoreM.onFound
  refine ⟨conf_onFound .., fun db' key' => ?_⟩
  rw [item_onFound]
  split
  next hk =>
    obtain ⟨rfl, rfl⟩ := hk
    cases hl : s.live env.now db' key' with
    | none => exact .inr ⟨rfl, rfl⟩
    | some o =>
      rw [item_of_live hl]
      left
      have hd := hq db' key' o (item_of_live hl)
      have he := (Option.filter_eq_some_iff.mp hl).2
      rw [Option.bind_some]
      split
      · rfl
      next h0 =>
        split
        next hle =>
          -- a positive deadline that is not ahead of the clock would have been expired
          exfalso
          have hpos : 0 < o.expireAtMs := (hd.resolve_left h0).1
          simp only [Item.expired, Bool.not_eq_true', Bool.and_eq_false_iff,
            decide_eq_false_iff_not] at he
          rw [remaining, if_neg (by omega)] at hle
          omega
        · rfl
  · exact .inl rfl

theorem fails_renameKey {src dst : Bytes} {nx : Bool} :
    KeepsWhen I Failed (renameKey db src dst nx : StoreM F _) := by
  unfold renameKey
  refine .ite (fun _ => .pure _) fun _ => .bind (.of_reads reads_find) ?_
  rintro (_ | moved)
  · exact .pure _
  · refine .bind (.onFound fun _ _ => rfl) fun found => .ite (fun _ => .pure _) fun _ => ?_
    intro env s _ hp
    exact hp.elim

theorem det_persist : Det lo hi (persist db key : StoreM F _) := by
  refine .onEntry ⟨fun o => ?_, fun o o' hp => ?_⟩
  · cases o
    · rfl
    · simp [Out.map, Act.map, Item.norm_eq_iff]
  · cases o <;> cases hp
    exact .inl rfl

/-- An expiry operation runs alike when its argument erases the key, or when the deadline it sets
does not depend on the clock and is not passed. -/
theorem det_expireBody {arg : Int} (deadline reply : Int → Int)
    (h : arg ≤ 0 ∨ ∃ d r, QuietDeadline lo hi d ∧
      ∀ now, lo ≤ now → now ≤ hi → deadline now = d ∧ reply now = r) :
    Det lo hi (StoreM.withEnv fun env =>
      StoreM.onEntry db key (expireBody arg (deadline env.now) (reply env.now)) : StoreM F Int) := by
  have hnorm : ∀ (d r : Int) (o : Option (Item F)),
      (expireBody arg d r (o.map Item.norm)).map Item.norm = (expireBody arg d r o).map Item.norm := by
    rintro d r (_ | o)
    · rfl
    · unfold expireBody
      simp only [Option.map_some]
      split
      · rfl
      · simp [Out.map, Act.map, Item.norm_eq_iff]
  rcases h with harg | ⟨d, r, hd, hc⟩
  · refine .withEnv (m := StoreM.onEntry db key (expireBody arg 0 0)) (fun e _ => ?_)
      (.onEntryTtl (hnorm 0 0) fun o o' hp => ?_)
    · congr 1
      funext o
      simp [expireBody, harg]
    · unfold expireBody at hp
      split at hp
      · cases hp
      · rw [if_pos harg] at hp; cases hp
  · refine .withEnv (m := StoreM.onEntry db key (expireBody arg d r)) (fun e he => ?_)
      (.onEntryTtl (hnorm d r) fun o o' hp => ?_)
    · rw [(hc e.now he.1 he.2).1, (hc e.now he.1 he.2).2]
    · unfold expireBody at hp
      split at hp
      · cases hp
      · split at hp
        · cases hp
        · cases hp
          exact .inl hd

theorem det_flushdb : Det lo hi (flushdb db : StoreM F Unit) := by
  intro e1 e2 s t _ _ h
  have hq : ∀ (e : Env) (u : KvStore F), Quiet lo hi u → Quiet lo hi (flushdb db e u).2 := by
    intro e u hu db' key o ho
    rw [item_flushdb] at ho
    split at ho
    · cases ho
    · exact hu db' key o ho
  refine ⟨rfl, ⟨?_, hq e1 s h.quietL, hq e2 t h.quietR⟩, h.noEvictL, h.noEvictR⟩
  funext db' key
  have hv := congrFun (congrFun h.view db') key
  unfold view live at hv ⊢
  rw [item_flushdb, item_flushdb]
  split
  · rfl
  · exact hv

theorem det_flushall : Det lo hi (flushall : StoreM F Unit) := by
  intro e1 e2 s t _ _ h
  have hq : ∀ (e : Env) (u : KvStore F), Quiet lo hi (flushall e u).2 := by
    intro e u db key o ho
    rw [item_flushall] at ho
    cases ho
  exact ⟨rfl, ⟨rfl, hq e1 s, hq e2 t⟩, h.noEvictL, h.noEvictR⟩

theorem det_renameKey {src dst : Bytes} {nx : Bool} :
    Det lo hi (renameKey db src dst nx : StoreM F _) := by
  unfold renameKey
  refine .ite (fun _ => .pure _) fun _ => ?_
  intro e1 e2 s t h1 h2 h
  -- what is moved agrees only in its visible part, so the first step is taken by hand
  have hfind : Reads (find db src : StoreM F _) := reads_find
  have hs := h.same_left h1 (hfind e1 s trivial trivial)
  have hst := hs.same_right h2 (hfind e2 t trivial trivial)
  have hl := h.live h1 h2 db src
  simp only [StoreM.bind_apply, find_reply]
  cases hm : s.live e1.now db src with
  | none =>
    have hm' : t.live e2.now db src = none := by simpa [hm] using hl.symm
    rw [hm']
    exact ⟨rfl, hst⟩
  | some moved =>
    rw [hm] at hl
    cases hm' : t.live e2.now db src with
    | none => rw [hm'] at hl; cases hl
    | some moved' =>
      rw [hm', Option.map_some, Option.map_some, Option.some.injEq] at hl
      have hd := h.quietL db src moved (item_of_live hm)
      have hd' := h.quietR db src moved' (item_of_live hm')
      have hfound : Det lo hi (StoreM.onFound db dst false fun _ => { reply := true } : StoreM F _) :=
        .onFound ⟨fun o => by cases o <;> rfl, fun o o' hp => by cases o <;> cases hp⟩
      obtain ⟨hr, ha⟩ := hfound e1 e2 _ _ h1 h2 hst
      simp only [StoreM.bind_apply, hr]
      split
      · exact ⟨rfl, ha⟩
      · have hdel : ∀ key, Det lo hi (delOne db key : StoreM F _) := fun _ => det_delOne
        obtain ⟨-, ha⟩ := hdel dst e1 e2 _ _ h1 h2 ha
        obtain ⟨-, ha⟩ := hdel src e1 e2 _ _ h1 h2 ha
        simp only [StoreM.bind_apply, StoreM.pure_apply, true_and]
        refine (ha.onEntry db dst h1 h2 ?_ ?_ ?_).2
        · intro _ _ _
          simp [Out.map, Act.map, hl]
        · intro _ o' hp
          cases hp
          exact .inl hd
        · intro _ o' hp
          cases hp
          exact .inl hd'

end KvStore

end Kv
