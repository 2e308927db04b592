import ZeroFrameworks.Kv.Store.Keys

/-!
# Hash operations of the store
-/

namespace Kv

variable {F : Type} [Platform F]

namespace KvStore

/-! ## Operations -/

def hsetBody (field value : Bytes) (v : Option (BMap Bytes)) :
    Out (BMap Bytes) (Except Bytes Int) :=
  let h := v.getD ∅
  { act := .put (h.insert field value), bump := true,
    reply := .ok (if h.contains field then 0 else 1) }

/-- `hset`: `1` for a new field, `0` for an old one. -/
def hset (db : Int) (key field value : Bytes) : StoreM F (Except Bytes Int) :=
  .onField .hash db key (hsetBody field value)

def hget (db : Int) (key field : Bytes) : StoreM F (Except Bytes (Option Bytes)) :=
  .onField .hash db key fun v => { reply := .ok (v.bind (·[field]?)) }

def hdel (db : Int) (key field : Bytes) : StoreM F (Except Bytes Int) :=
  .onField .hash db key fun v =>
    match v with
    | none => { reply := .ok 0 }
    | some h =>
      let rest := h.erase field
      { act := if rest.isEmpty then .erase else .put rest, bump := true,
        reply := .ok (if h.contains field then 1 else 0) }

def hexists (db : Int) (key field : Bytes) : StoreM F (Except Bytes Bool) :=
  .onField .hash db key fun v => { reply := .ok ((v.map (·.contains field)).getD false) }

/-- `hlen`; `none` is `found == false`. -/
def hlen (db : Int) (key : Bytes) : StoreM F (Except Bytes (Option Int)) :=
  .onField .hash db key fun v => { reply := .ok (v.map fun h => (h.size : Int)) }

/-- `hgetall`: fields in increasing order. -/
def hgetall (db : Int) (key : Bytes) : StoreM F (Except Bytes (Option (List (Bytes × Bytes)))) :=
  .onField .hash db key fun v => { reply := .ok (v.map (·.toList)) }

def hmset (db : Int) (key : Bytes) : List (Bytes × Bytes) → StoreM F (Except Bytes Unit)
  | [] => pure (.ok ())
  | (field, value) :: fields => do
    match ← hset db key field value with
    | .error e => pure (.error e)
    | .ok _ => hmset db key fields

def hmget (db : Int) (key : Bytes) : List Bytes → StoreM F (Except Bytes (List (Option Bytes)))
  | [] => pure (.ok [])
  | field :: fields => do
    match ← hget db key field with
    | .error e => pure (.error e)
    | .ok v => do
      match ← hmget db key fields with
      | .error e => pure (.error e)
      | .ok vs => pure (.ok (v :: vs))

def hkeys (db : Int) (key : Bytes) : StoreM F (Except Bytes (List Bytes)) :=
  (fun r => r.map fun all => (all.getD []).map Prod.fst) <$> hgetall db key

def hvals (db : Int) (key : Bytes) : StoreM F (Except Bytes (List Bytes)) :=
  (fun r => r.map fun all => (all.getD []).map Prod.snd) <$> hgetall db key

def hincrby (db : Int) (key field : Bytes) (delta : Int) : StoreM F (Except Bytes Int) := do
  evictIfNeededLocked
  .onField .hash db key fun v =>
    match v with
    | none =>
      { act := .put ((∅ : BMap Bytes).insert field (printInt delta)), touch := true, bump := true,
        reply := .ok delta }
    | some h =>
      match (h[field]?).elim (some 0) parseIntegerValue with
      | none => { reply := .error (lit "ERR hash value is not an integer") }
      | some cur =>
        let next := i64 (cur + delta)
        { act := .put (h.insert field (printInt next)), touch := true, bump := true,
          reply := .ok next }

/-- `hsetnx`: the field is looked for before, and apart from, the `hset`. -/
def hsetnx (db : Int) (key field value : Bytes) : StoreM F (Except Bytes Bool) := do
  let found ← .peek db key fun o =>
    o.any fun o => decide (o.type = .hash) && o.hash.contains field
  if found then pure (.ok false)
  else (fun r => r.map fun _ => true) <$> hset db key field value

/-- Number of fields that were not there, and the hash with all of them set. -/
def insertFields (fields : List (Bytes × Bytes)) (h : BMap Bytes) : Int × BMap Bytes :=
  fields.foldl (fun a f => (if a.2.contains f.1 then a.1 else a.1 + 1, a.2.insert f.1 f.2)) (0, h)

def hsetFields (db : Int) (key : Bytes) (fields : List (Bytes × Bytes)) :
    StoreM F (Except Bytes Int) :=
  if fields.isEmpty then pure (.ok 0)
  else .onField .hash db key fun v =>
    let r := insertFields fields (v.getD ∅)
    { act := .put r.2, touch := true, bump := true, reply := .ok r.1 }

def hscan (db : Int) (key : Bytes) (cursor : Nat) (pattern : Bytes) (count : Int) :
    StoreM F (Except Bytes (Nat × List Bytes)) :=
  .onField .hash db key fun v =>
    match v with
    | none => { reply := .ok (0, []) }
    | some h =>
      let flat := (h.toList.filter fun f => matchGlob pattern f.1).flatMap fun f => [f.1, f.2]
      { reply := .ok (page flat cursor count) }

/-! ## Lemmas -/

variable {I : StoreConf → Prop} {lo hi db : Int} {key field value : Bytes}

theorem reads_hget : Reads (hget db key field : StoreM F _) := reads_onField fun _ => rfl

theorem reads_hexists : Reads (hexists db key field : StoreM F _) := reads_onField fun _ => rfl

theorem reads_hlen : Reads (hlen db key : StoreM F _) := reads_onField fun _ => rfl

theorem reads_hgetall : Reads (hgetall db key : StoreM F _) := reads_onField fun _ => rfl

theorem reads_hmget {fields : List Bytes} : Reads (hmget db key fields : StoreM F _) := by
  induction fields with
  | nil => exact .pure _
  | cons field fields ih =>
    refine .bind reads_hget ?_
    rintro (e | v)
    · exact .pure _
    · refine .bind ih ?_
      rintro (e | vs) <;> exact .pure _

theorem reads_hscan {cursor : Nat} {pattern : Bytes} {count : Int} :
    Reads (hscan db key cursor pattern count : StoreM F _) :=
  reads_onField fun v => by cases v <;> rfl

theorem fails_hset : KeepsWhen I Failed (hset db key field value : StoreM F _) :=
  fails_onField fun _ hp => hp.elim

theorem fails_hdel : KeepsWhen I Failed (hdel db key field : StoreM F _) :=
  fails_onField fun v hp => by cases v <;> exact hp.elim

theorem fails_hincrby {delta : Int} :
    KeepsWhen StoreConf.NoEvict Failed (hincrby db key field delta : StoreM F _) := by
  refine .bind keeps_evict fun _ => fails_onField fun v hp => ?_
  cases v with
  | none => exact hp.elim
  | some h =>
    simp only at hp ⊢
    split at hp
    · rfl
    · exact hp.elim

variable {fields : List (Bytes × Bytes)}

theorem fails_hsetFields :
    KeepsWhen I Failed (hsetFields db key fields : StoreM F _) :=
  .ite (fun _ => .pure _) fun _ => fails_onField fun _ hp => hp.elim

theorem fails_hsetnx : KeepsWhen I Failed (hsetnx db key field value : StoreM F _) := by
  refine .bind .peek fun found => .ite (fun _ => .pure _) fun _ => .map fails_hset ?_
  rintro (e | n) hq <;> exact hq

variable {s : KvStore F}

theorem hset_ok {env : Env} (h : HasType .hash env.now db key s)
    (field value : Bytes) : ∃ n, (hset db key field value env s).1 = .ok n :=
  ⟨_, onField_reply h (hsetBody field value)⟩

theorem hset_refused {env : Env} (h : ¬ HasType .hash env.now db key s)
    (field value : Bytes) : (hset db key field value env s).1 = .error wrongType :=
  onField_refused h (hsetBody field value)

theorem hmset_ok {env : Env}
    (h : HasType .hash env.now db key s) : (hmset db key fields env s).1 = .ok () := by
  induction fields generalizing s with
  | nil => rfl
  | cons f fields ih =>
    obtain ⟨n, hn⟩ := hset_ok h f.1 f.2
    simp only [hmset, StoreM.bind_apply, hn]
    exact ih (h.onField _)

theorem fails_hmset :
    KeepsWhen I Failed (hmset db key fields : StoreM F _) := by
  intro env s hi hp
  by_cases ht : HasType .hash env.now db key s
  · rw [hmset_ok ht] at hp
    exact hp.elim
  · cases fields with
    | nil => exact Same.refl env.now s
    | cons f fields =>
      have hr := hset_refused ht f.1 f.2
      have hk := fails_hset (I := I) env s hi (by rw [hr]; trivial)
      simp only [hmset, StoreM.bind_apply, hr]
      exact hk

theorem det_hmset :
    Det lo hi (hmset db key fields : StoreM F _) := by
  induction fields with
  | nil => exact .pure _
  | cons f fields ih =>
    refine .bind det_onField ?_
    rintro (e | n)
    · exact .pure _
    · exact ih

theorem det_hincrby {delta : Int} : Det lo hi (hincrby db key field delta : StoreM F _) :=
  .bind det_evict fun _ => det_onField

theorem det_hsetnx : Det lo hi (hsetnx db key field value : StoreM F _) := by
  refine .bind (.peek fun o => ?_) fun found => .ite (fun _ => .pure _) fun _ => .map det_onField
  rcases o with _ | ⟨⟨t, _⟩, _⟩
  · rfl
  · cases t <;> rfl

theorem det_hsetFields :
    Det lo hi (hsetFields db key fields : StoreM F _) :=
  .ite (fun _ => .pure _) fun _ => det_onField

end KvStore

end Kv
