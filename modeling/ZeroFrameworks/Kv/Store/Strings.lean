import ZeroFrameworks.Kv.Store.Field

/-!
# String operations of the store

After the operations: which of them only look (`reads_…`), that the others leave the contents
alone when they report an error (`fails_…`), and that they run alike on stores with the same
contents (`det_…`; those that are one `onField` need no lemma of their own).
-/

namespace Kv

variable {F : Type} [Platform F]

def notInteger : Bytes := lit "ERR value is not an integer or out of range"

/-- `parseIntegerValue`. -/
def parseIntegerValue (s : Bytes) : Option Int :=
  if s.isEmpty then none
  else if (strtoll s).2 = s.length then some (strtoll s).1 else none

/-- `formatDouble`: `%.17g` without trailing zeros after a point. -/
def formatDouble (x : F) : Bytes :=
  if Platform.isInf x || Platform.isNan x then Platform.toString x
  else
    let s := Platform.format17g x
    if s.contains 46 && !s.contains 101 && !s.contains 69 then
      let t := (s.reverse.dropWhile (· == 48)).reverse
      if t.getLast? = some 46 then t.dropLast else t
    else s

namespace KvStore

/-! ## Operations -/

def get (db : Int) (key : Bytes) : StoreM F (Except Bytes (Option Bytes)) :=
  .onField .string db key fun v => { reply := .ok v }

/-- The entry `setOpt` leaves in place of `old`. -/
def setItem (value : Bytes) (expireAtMs : Int) (old : Option (Item F)) : Item F :=
  match old with
  | none => { value := value, expireAtMs := expireAtMs }
  | some o =>
    if o.type = .string then { o with value := value, expireAtMs := expireAtMs }
    else { value := value, streamGroups := o.streamGroups, expireAtMs := expireAtMs }

/-- Deadline that `setOpt` computes; `0` is no deadline. -/
def setDeadline (now exSeconds pxMilliseconds : Int) : Int :=
  if 0 ≤ exSeconds then i64 (now + exSeconds * 1000)
  else if 0 ≤ pxMilliseconds then i64 (now + pxMilliseconds)
  else 0

def setBody (value : Bytes) (nx xx : Bool) (expireAtMs : Int) (old : Option (Item F)) :
    Out (Item F) Bool :=
  if nx && old.isSome then { reply := false }
  else if xx && old.isNone then { reply := false }
  else { act := .put (setItem value expireAtMs old), bump := true, reply := true }

def setOpt (db : Int) (key value : Bytes) (nx xx : Bool) (exSeconds pxMilliseconds : Int) :
    StoreM F Bool := do
  evictIfNeededLocked
  .withEnv fun env => .onEntry db key
    (setBody value nx xx (setDeadline env.now exSeconds pxMilliseconds))

def set (db : Int) (key value : Bytes) : StoreM F Bool := setOpt db key value false false (-1) (-1)

def setex (db : Int) (key value : Bytes) (ttlSeconds : Int) : StoreM F Bool :=
  setOpt db key value false false ttlSeconds (-1)

/-- One round of `delMany`: whether the key was there. -/
def delOne (db : Int) (key : Bytes) : StoreM F Int :=
  .onFound db key 0 fun _ => { act := .erase, bump := true, reply := 1 }

def delMany (db : Int) : List Bytes → StoreM F Int
  | [] => pure 0
  | key :: keys => do
    let n ← delOne db key
    let removed ← delMany db keys
    pure (n + removed)

def del (db : Int) (key : Bytes) : StoreM F Bool := (fun n => decide (0 < n)) <$> delMany db [key]

def getset (db : Int) (key value : Bytes) : StoreM F (Except Bytes (Option Bytes)) := do
  match ← get db key with
  | .error e => pure (.error e)
  | .ok old => do
    let _ ← set db key value
    pure (.ok old)

def getdel (db : Int) (key : Bytes) : StoreM F (Except Bytes (Option Bytes)) := do
  match ← get db key with
  | .error e => pure (.error e)
  | .ok none => pure (.ok none)
  | .ok (some value) => do
    let _ ← del db key
    pure (.ok (some value))

def incrBy (db : Int) (key : Bytes) (delta : Int) : StoreM F (Except Bytes Int) :=
  .onField .string db key fun v =>
    match v with
    | none => { act := .put (printInt delta), bump := true, reply := .ok delta }
    | some value =>
      match parseIntegerValue value with
      | none => { reply := .error notInteger }
      | some cur =>
        let next := i64 (cur + delta)
        { act := .put (printInt next), bump := true, reply := .ok next }

def append (db : Int) (key value : Bytes) : StoreM F (Except Bytes Int) := do
  evictIfNeededLocked
  .onField .string db key fun v =>
    let next := v.getD [] ++ value
    { act := .put next, touch := true, bump := true, reply := .ok next.length }

def strlen (db : Int) (key : Bytes) : StoreM F (Except Bytes Int) :=
  .onField .string db key fun v =>
    { touch := v.isSome, reply := .ok ((v.map List.length).getD 0 : Nat) }

def getexBody (now exSeconds pxMilliseconds : Int) (persist : Bool) (old : Option (Item F)) :
    Out (Item F) (Except Bytes (Option Bytes)) :=
  match old with
  | none => { reply := .ok none }
  | some o =>
    if o.type = .string then
      let deadline :=
        if persist then 0
        else if 0 ≤ exSeconds then i64 (now + exSeconds * 1000)
        else if 0 ≤ pxMilliseconds then i64 (now + pxMilliseconds)
        else o.expireAtMs
      { act := .put { o with expireAtMs := deadline }, touch := true, bump := true,
        reply := .ok (some o.value) }
    else { reply := .error wrongType }

def getex (db : Int) (key : Bytes) (exSeconds pxMilliseconds : Int) (persist : Bool) :
    StoreM F (Except Bytes (Option Bytes)) := do
  evictIfNeededLocked
  .withEnv fun env => .onEntry db key (getexBody env.now exSeconds pxMilliseconds persist)

def incrByFloat (db : Int) (key : Bytes) (delta : F) : StoreM F (Except Bytes Bytes) :=
  .onField .string db key fun v =>
    match v with
    | none =>
      { act := .put (formatDouble delta), bump := true, reply := .ok (formatDouble delta) }
    | some value =>
      match Platform.strtod (F := F) (cstr value) with
      | (_, 0) => { reply := .error (lit "ERR value is not a valid float") }
      | (cur, _ + 1) =>
        let next := formatDouble (Platform.add cur delta)
        { act := .put next, touch := true, bump := true, reply := .ok next }

/-- Whether one of the keys exists. -/
def anyExists (db : Int) : List Bytes → StoreM F Bool
  | [] => pure false
  | key :: keys => do
    if ← .onFound db key false fun _ => { reply := true } then pure true else anyExists db keys

/-- The entry `msetnx` leaves: `dbmap[key]` with every field but the stream's last id reset. -/
def msetnxBody (value : Bytes) (old : Option (Item F)) : Out (Item F) Unit :=
  { act := .put
      { value := value, streamLastMs := (old.map fun o => o.streamLastMs).getD 0,
        streamLastSeq := (old.map fun o => o.streamLastSeq).getD 0 },
    touch := true, bump := true, reply := () }

def msetAll (db : Int) : List (Bytes × Bytes) → StoreM F Unit
  | [] => pure ()
  | (key, value) :: pairs => do
    .onEntry db key (msetnxBody value)
    msetAll db pairs

def msetnx (db : Int) (pairs : List (Bytes × Bytes)) : StoreM F Bool := do
  if ← anyExists db (pairs.map Prod.fst) then pure false
  else do
    msetAll db pairs
    pure true

/-! ## Lemmas -/

variable {I : StoreConf → Prop} {lo hi db : Int} {key value : Bytes} {keys : List Bytes}
  {pairs : List (Bytes × Bytes)}

theorem reads_get : Reads (get db key : StoreM F _) :=
  reads_onField fun _ => rfl

theorem reads_strlen : Reads (strlen db key : StoreM F _) :=
  reads_onField fun _ => rfl

theorem fails_incrBy {delta : Int} :
    KeepsWhen I Failed (incrBy db key delta : StoreM F _) := by
  refine fails_onField fun v hp => ?_
  cases v with
  | none => exact hp.elim
  | some value =>
    simp only at hp ⊢
    split at hp
    · rfl
    · exact hp.elim

theorem fails_incrByFloat {delta : F} :
    KeepsWhen I Failed (incrByFloat db key delta : StoreM F _) := by
  refine fails_onField fun v hp => ?_
  cases v with
  | none => exact hp.elim
  | some value =>
    simp only at hp ⊢
    split at hp
    · rfl
    · exact hp.elim

theorem fails_append :
    KeepsWhen StoreConf.NoEvict Failed (append db key value : StoreM F _) :=
  .bind keeps_evict fun _ => fails_onField fun _ hp => hp.elim

theorem fails_getset :
    KeepsWhen I Failed (getset db key value : StoreM F _) := by
  refine .bind_of (P := Failed) (.of_reads reads_get) ?_ ?_
  · rintro (e | old) hp
    · exact .pure _
    · exact hp.elim
  · rintro (e | old) hp env s
    · exact absurd trivial hp
    · exact id

theorem fails_getdel :
    KeepsWhen I Failed (getdel db key : StoreM F _) := by
  refine .bind_of (P := Failed) (.of_reads reads_get) ?_ ?_
  · rintro (e | old) hp
    · exact .pure _
    · exact hp.elim
  · rintro (e | _ | old) hp env s
    · exact absurd trivial hp
    · exact id
    · exact id

variable {ex px : Int}

theorem det_setOpt {nx xx : Bool}
    (h : FixedDeadline lo hi fun now => setDeadline now ex px) :
    Det lo hi (setOpt db key value nx xx ex px : StoreM F _) := by
  obtain ⟨d, hd, hc⟩ := h
  refine .bind det_evict fun _ => .withEnv (m := StoreM.onEntry db key (setBody value nx xx d))
    (fun e he => by rw [← hc e.now he.1 he.2]) (.onEntryTtl (fun o => ?_) fun o o' hp => ?_)
  · rcases o with _ | ⟨⟨t, _⟩, _⟩
    · cases nx <;> cases xx <;> rfl
    · cases t <;> cases nx <;> cases xx <;> rfl
  · left
    unfold setBody at hp
    split at hp
    · cases hp
    · split at hp
      · cases hp
      · cases hp
        unfold setItem
        split
        · exact hd
        · split <;> exact hd

theorem fixedDeadline_set (hex : ex < 0) (hpx : px < 0) :
    FixedDeadline lo hi fun now => setDeadline now ex px :=
  ⟨0, .inl rfl, fun now _ _ => by simp [setDeadline, Int.not_le.mpr hex, Int.not_le.mpr hpx]⟩

theorem det_set : Det lo hi (set db key value : StoreM F _) :=
  det_setOpt (fixedDeadline_set (by decide) (by decide))

variable {persist : Bool}

theorem fails_getex :
    KeepsWhen StoreConf.NoEvict Failed (getex db key ex px persist : StoreM F _) := by
  refine .bind keeps_evict fun _ => .withEnv fun env => .onEntry fun o hp => ?_
  cases o with
  | none => rfl
  | some o =>
    unfold getexBody at hp ⊢
    simp only at hp ⊢
    split at hp
    · exact hp.elim
    next ht => rw [if_neg ht]; rfl

omit [Platform F] in
theorem getexBody_norm (now ex px : Int) (persist : Bool) (o : Option (Item F)) :
    (getexBody now ex px persist (o.map Item.norm)).map Item.norm =
      (getexBody now ex px persist o).map Item.norm := by
  rcases o with _ | ⟨⟨t, _⟩, _⟩
  · rfl
  · cases t <;> rfl

omit [Platform F] in
theorem getexBody_act {now ex px : Int} {o : Option (Item F)} {o' : Item F}
    (hp : (getexBody now ex px persist o).act = .put o') :
    o'.expireAtMs = (if persist then 0 else setDeadline now ex px) ∨
      ∃ p, o = some p ∧ o'.expireAtMs = p.expireAtMs := by
  unfold getexBody at hp
  split at hp
  · cases hp
  next p =>
    split at hp
    · cases hp
      unfold setDeadline
      simp only
      split
      · exact .inl rfl
      · split
        · exact .inl rfl
        · split
          · exact .inl rfl
          · exact .inr ⟨p, rfl, rfl⟩
    · cases hp

/-- GETEX runs alike when it makes the key persistent, or gives it a deadline that does not depend
on the clock. -/
theorem det_getex
    (h : persist = true ∨ FixedDeadline lo hi fun now => setDeadline now ex px) :
    Det lo hi (getex db key ex px persist : StoreM F _) := by
  refine .of_le fun hle => .bind det_evict fun _ => .withEnv
    (m := StoreM.onEntry db key (getexBody lo ex px persist)) (fun e he => ?_)
    (.onEntryTtl (getexBody_norm lo ex px persist) fun o o' hp => ?_)
  · rcases h with rfl | ⟨d, -, hc⟩
    · rfl
    · have h1 := hc e.now he.1 he.2
      have h2 := hc lo (Int.le_refl lo) hle
      unfold setDeadline at h1 h2
      congr 1
      funext o
      unfold getexBody
      split
      · rfl
      · grind
  · rcases getexBody_act hp with hd | hd
    · left
      rw [hd]
      rcases h with rfl | ⟨d, hq, hc⟩
      · exact .inl rfl
      · split
        · exact .inl rfl
        · have hlo : setDeadline lo ex px = d := hc lo (Int.le_refl lo) hle
          rw [hlo]
          exact hq
    · exact .inr hd

theorem det_delOne : Det lo hi (delOne db key : StoreM F _) := by
  refine .onFound ⟨fun o => ?_, fun o o' hp => ?_⟩
  · cases o <;> rfl
  · cases o <;> cases hp

theorem det_delMany :
    Det lo hi (delMany db keys : StoreM F _) := by
  induction keys with
  | nil => exact .pure _
  | cons key keys ih => exact .bind det_delOne fun n => .bind ih fun _ => .pure _

theorem det_getset :
    Det lo hi (getset db key value : StoreM F _) := by
  refine .bind det_onField ?_
  rintro (e | old)
  · exact .pure _
  · exact .bind det_set fun _ => .pure _

theorem det_getdel : Det lo hi (getdel db key : StoreM F _) := by
  refine .bind det_onField ?_
  rintro (e | _ | old)
  · exact .pure _
  · exact .pure _
  · exact .bind (.map det_delMany) fun _ => .pure _

theorem det_append :
    Det lo hi (append db key value : StoreM F _) :=
  .bind det_evict fun _ => det_onField

theorem det_anyExists :
    Det lo hi (anyExists db keys : StoreM F _) := by
  induction keys with
  | nil => exact .pure _
  | cons key keys ih =>
    refine .bind (.onFound ⟨fun o => ?_, fun o o' hp => ?_⟩) fun b => ?_
    · cases o <;> rfl
    · cases o <;> cases hp
    · exact .ite (fun _ => .pure _) fun _ => ih

theorem det_msetAll :
    Det lo hi (msetAll db pairs : StoreM F _) := by
  induction pairs with
  | nil => exact .pure _
  | cons p pairs ih =>
    refine .bind (.onEntry ⟨fun o => ?_, fun o o' hp => ?_⟩) fun _ => ih
    · cases o <;> rfl
    · cases hp
      exact .inl rfl

theorem det_msetnx :
    Det lo hi (msetnx db pairs : StoreM F _) := by
  refine .bind det_anyExists fun b => .ite (fun _ => .pure _) fun _ => ?_
  exact .bind det_msetAll fun _ => .pure _

end KvStore

end Kv
