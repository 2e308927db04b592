import ZeroFrameworks.Kv.Store.Keys

/-!
# Set operations of the store

The set algebra reads its sources one after the other; the STORE forms repeat the same loops
without touching the sources and then write the destination.
-/

namespace Kv

variable {F : Type} [Platform F]

namespace KvStore

/-! ## Operations -/

/-- Insert the members, counting the new ones. -/
def insertMembers (members : List Bytes) (a : BSet) : Int × BSet :=
  members.foldl (fun r m => (if r.2.contains m then r.1 else r.1 + 1, r.2.insert m)) (0, a)

/-- Erase the members, counting the ones that were there. -/
def eraseMembers (members : List Bytes) (a : BSet) : Int × BSet :=
  members.foldl (fun r m => (if r.2.contains m then r.1 + 1 else r.1, r.2.erase m)) (0, a)

def setAdd (db : Int) (key : Bytes) (members : List Bytes) : StoreM F (Except Bytes Int) :=
  if members.isEmpty then pure (.ok 0)
  else .onField .sets db key fun v =>
    let r := insertMembers members (v.getD ∅)
    { act := .put r.2, bump := true, reply := .ok r.1 }

def setRem (db : Int) (key : Bytes) (members : List Bytes) : StoreM F (Except Bytes Int) :=
  if members.isEmpty then pure (.ok 0)
  else .onField .sets db key fun v =>
    match v with
    | none => { reply := .ok 0 }
    | some a =>
      let r := eraseMembers members a
      { act := if r.2.isEmpty then .erase else .put r.2, bump := true, reply := .ok r.1 }

/-- `setMembers`: in increasing order. -/
def setMembers (db : Int) (key : Bytes) : StoreM F (Except Bytes (List Bytes)) :=
  .onField .sets db key fun v => { reply := .ok ((v.map (·.toList)).getD []) }

/-- `setCard`; `none` is `found == false`. -/
def setCard (db : Int) (key : Bytes) : StoreM F (Except Bytes (Option Int)) :=
  .onField .sets db key fun v => { reply := .ok (v.map fun a => (a.size : Int)) }

def setIsMember (db : Int) (key member : Bytes) : StoreM F (Except Bytes Bool) :=
  .onField .sets db key fun v => { reply := .ok ((v.map (·.contains member)).getD false) }

def sscan (db : Int) (key : Bytes) (cursor : Nat) (pattern : Bytes) (count : Int) :
    StoreM F (Except Bytes (Nat × List Bytes)) :=
  .onField .sets db key fun v =>
    { reply := .ok (page (((v.map (·.toList)).getD []).filter (matchGlob pattern)) cursor count) }

/-- `spop`: the member `set.begin()` happens to point at. -/
def spop (db : Int) (key : Bytes) : StoreM F (Except Bytes (Option Bytes)) := do
  evictIfNeededLocked
  .withEnv fun env => .onField .sets db key fun v =>
    match v.bind fun a => (env.order a.toList).head?.map fun m => (m, a.erase m) with
    | none => { reply := .ok none }
    | some (m, rest) =>
      if rest.isEmpty then { act := .erase, bump := true, reply := .ok (some m) }
      else { act := .put rest, touch := true, bump := true, reply := .ok (some m) }

/-- One source of the set algebra. -/
def source (touch : Bool) (db : Int) (key : Bytes) : StoreM F (Except Bytes (Option BSet)) :=
  .onFoundField .sets db key (.ok none) (.error wrongType) fun a =>
    { touch := touch, reply := .ok (some a) }

/-- The loop of `setInter`; `none` at the end when a source is missing. -/
def interLoop (touch : Bool) (db : Int) :
    List Bytes → Option BSet → StoreM F (Except Bytes (Option BSet))
  | [], acc => pure (.ok acc)
  | key :: keys, acc => do
    match ← source touch db key with
    | .error e => pure (.error e)
    | .ok none => pure (.ok none)
    | .ok (some a) =>
      interLoop touch db keys (some (acc.elim a fun prev => prev.filter a.contains))

def unionLoop (touch : Bool) (db : Int) : List Bytes → BSet → StoreM F (Except Bytes BSet)
  | [], acc => pure (.ok acc)
  | key :: keys, acc => do
    match ← source touch db key with
    | .error e => pure (.error e)
    | .ok none => unionLoop touch db keys acc
    | .ok (some a) => unionLoop touch db keys (a.toList.foldl (·.insert ·) acc)

def diffLoop (db : Int) : List Bytes → BSet → StoreM F (Except Bytes BSet)
  | [], acc => pure (.ok acc)
  | key :: keys, acc => do
    match ← source false db key with
    | .error e => pure (.error e)
    | .ok none => diffLoop db keys acc
    | .ok (some a) => diffLoop db keys (a.toList.foldl (·.erase ·) acc)

/-- The first set less the others; nothing is read after a missing first one. -/
def diffAll (db : Int) : List Bytes → StoreM F (Except Bytes BSet)
  | [] => pure (.ok ∅)
  | key :: keys => do
    match ← source false db key with
    | .error e => pure (.error e)
    | .ok none => pure (.ok ∅)
    | .ok (some a) => diffLoop db keys a

def setInter (db : Int) (keys : List Bytes) : StoreM F (Except Bytes (List Bytes)) :=
  (fun r => r.map fun a => (a.getD ∅).toList) <$> interLoop true db keys none

def setUnion (db : Int) (keys : List Bytes) : StoreM F (Except Bytes (List Bytes)) :=
  (fun r => r.map (·.toList)) <$> unionLoop true db keys ∅

def setDiff (db : Int) (keys : List Bytes) : StoreM F (Except Bytes (List Bytes)) :=
  (fun r => r.map (·.toList)) <$> diffAll db keys

/-- The entry the STORE forms leave in place of `old`, which may be expired. -/
def storeBody (a : BSet) (old : Option (Item F)) : Out (Item F) Int :=
  if a.isEmpty then { act := .erase, bump := true, reply := 0 }
  else
    { act := .put
        { type := .set, set := a, streamLastMs := (old.map fun o => o.streamLastMs).getD 0,
          streamLastSeq := (old.map fun o => o.streamLastSeq).getD 0 },
      touch := true, bump := true, reply := a.size }

/-- Writing the result: an empty one erases the destination, whatever it held. -/
def storeSet (db : Int) (dest : Bytes) (r : Except Bytes BSet) : StoreM F (Except Bytes Int) :=
  match r with
  | .error e => pure (.error e)
  | .ok a => .ok <$> StoreM.onSlot db dest (storeBody a)

def setInterStore (db : Int) (dest : Bytes) (keys : List Bytes) : StoreM F (Except Bytes Int) := do
  let r ← interLoop false db keys none
  storeSet db dest (r.map (·.getD ∅))

def setUnionStore (db : Int) (dest : Bytes) (keys : List Bytes) : StoreM F (Except Bytes Int) := do
  let r ← unionLoop false db keys ∅
  storeSet db dest r

def setDiffStore (db : Int) (dest : Bytes) (keys : List Bytes) : StoreM F (Except Bytes Int) :=
  if keys.isEmpty then pure (.ok 0)
  else do
    let r ← diffAll db keys
    storeSet db dest r

/-! ## Lemmas -/

variable {I : StoreConf → Prop} {lo hi db : Int} {key : Bytes} {keys : List Bytes} {touch : Bool}

theorem reads_setMembers : Reads (setMembers db key : StoreM F _) := reads_onField fun _ => rfl

theorem reads_setCard : Reads (setCard db key : StoreM F _) := reads_onField fun _ => rfl

theorem reads_setIsMember {member : Bytes} : Reads (setIsMember db key member : StoreM F _) :=
  reads_onField fun _ => rfl

theorem reads_sscan {cursor : Nat} {pattern : Bytes} {count : Int} :
    Reads (sscan db key cursor pattern count : StoreM F _) := reads_onField fun _ => rfl

theorem reads_source : Reads (source touch db key : StoreM F _) :=
  keeps_onFoundField fun _ _ => rfl

theorem reads_interLoop {acc : Option BSet} : Reads (interLoop touch db keys acc : StoreM F _) := by
  induction keys generalizing acc with
  | nil => exact .pure _
  | cons key keys ih =>
    refine .bind reads_source ?_
    rintro (e | _ | a)
    · exact .pure _
    · exact .pure _
    · exact ih

variable {acc : BSet}

theorem reads_unionLoop : Reads (unionLoop touch db keys acc : StoreM F _) := by
  induction keys generalizing acc with
  | nil => exact .pure _
  | cons key keys ih =>
    refine .bind reads_source ?_
    rintro (e | _ | a)
    · exact .pure _
    · exact ih
    · exact ih

theorem reads_diffLoop : Reads (diffLoop db keys acc : StoreM F _) := by
  induction keys generalizing acc with
  | nil => exact .pure _
  | cons key keys ih =>
    refine .bind reads_source ?_
    rintro (e | _ | a)
    · exact .pure _
    · exact ih
    · exact ih

theorem reads_diffAll : Reads (diffAll db keys : StoreM F _) := by
  cases keys with
  | nil => exact .pure _
  | cons key keys =>
    refine .bind reads_source ?_
    rintro (e | _ | a)
    · exact .pure _
    · exact .pure _
    · exact reads_diffLoop

variable {members : List Bytes}

theorem fails_setAdd :
    KeepsWhen I Failed (setAdd db key members : StoreM F _) :=
  .ite (fun _ => .pure _) fun _ => fails_onField fun _ hp => hp.elim

theorem fails_setRem :
    KeepsWhen I Failed (setRem db key members : StoreM F _) :=
  .ite (fun _ => .pure _) fun _ => fails_onField fun v hp => by cases v <;> exact hp.elim

variable {dest : Bytes}

theorem fails_storeSet {r : Except Bytes BSet} :
    KeepsWhen I Failed (storeSet db dest r : StoreM F _) := by
  cases r with
  | error e => exact .pure _
  | ok a => exact fun env s _ hp => hp.elim

theorem fails_setInterStore :
    KeepsWhen I Failed (setInterStore db dest keys : StoreM F _) :=
  .bind (.of_reads reads_interLoop) fun _ => fails_storeSet

theorem fails_setUnionStore :
    KeepsWhen I Failed (setUnionStore db dest keys : StoreM F _) :=
  .bind (.of_reads reads_unionLoop) fun _ => fails_storeSet

theorem fails_setDiffStore :
    KeepsWhen I Failed (setDiffStore db dest keys : StoreM F _) :=
  .ite (fun _ => .pure _) fun _ => .bind (.of_reads reads_diffAll) fun _ => fails_storeSet

theorem det_setAdd : Det lo hi (setAdd db key members : StoreM F _) :=
  .ite (fun _ => .pure _) fun _ => det_onField

theorem det_setRem : Det lo hi (setRem db key members : StoreM F _) :=
  .ite (fun _ => .pure _) fun _ => det_onField

theorem det_source : Det lo hi (source touch db key : StoreM F _) := det_onFoundField

theorem det_interLoop {acc : Option BSet} :
    Det lo hi (interLoop touch db keys acc : StoreM F _) := by
  induction keys generalizing acc with
  | nil => exact .pure _
  | cons key keys ih =>
    refine .bind det_source ?_
    rintro (e | _ | a)
    · exact .pure _
    · exact .pure _
    · exact ih

theorem det_unionLoop : Det lo hi (unionLoop touch db keys acc : StoreM F _) := by
  induction keys generalizing acc with
  | nil => exact .pure _
  | cons key keys ih =>
    refine .bind det_source ?_
    rintro (e | _ | a)
    · exact .pure _
    · exact ih
    · exact ih

theorem det_diffLoop : Det lo hi (diffLoop db keys acc : StoreM F _) := by
  induction keys generalizing acc with
  | nil => exact .pure _
  | cons key keys ih =>
    refine .bind det_source ?_
    rintro (e | _ | a)
    · exact .pure _
    · exact ih
    · exact ih

theorem det_diffAll : Det lo hi (diffAll db keys : StoreM F _) := by
  cases keys with
  | nil => exact .pure _
  | cons key keys =>
    refine .bind det_source ?_
    rintro (e | _ | a)
    · exact .pure _
    · exact .pure _
    · exact det_diffLoop

omit [Platform F] in
theorem storeBody_norm (a : BSet) (o o' : Option (Item F)) :
    (storeBody a o).map Item.norm = (storeBody a o').map Item.norm := by
  unfold storeBody
  split <;> rfl

omit [Platform F] in
theorem storeBody_act (a : BSet) (o : Option (Item F)) : (storeBody a o).act ≠ .keep := by
  unfold storeBody
  split
  · exact fun h => by cases h
  · exact fun h => by cases h

theorem det_storeSet {r : Except Bytes BSet} :
    Det lo hi (storeSet db dest r : StoreM F _) := by
  cases r with
  | error e => exact .pure _
  | ok a =>
    refine .map (.onSlot (storeBody_norm a) (storeBody_act a) fun o o' hp => ?_)
    unfold storeBody at hp
    split at hp
    · cases hp
    · cases hp
      exact .inl rfl

theorem det_setInterStore :
    Det lo hi (setInterStore db dest keys : StoreM F _) :=
  .bind det_interLoop fun _ => det_storeSet

theorem det_setUnionStore :
    Det lo hi (setUnionStore db dest keys : StoreM F _) :=
  .bind det_unionLoop fun _ => det_storeSet

theorem det_setDiffStore :
    Det lo hi (setDiffStore db dest keys : StoreM F _) :=
  .ite (fun _ => .pure _) fun _ => .bind det_diffAll fun _ => det_storeSet

end KvStore

end Kv
