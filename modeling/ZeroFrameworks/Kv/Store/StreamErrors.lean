import ZeroFrameworks.Kv.Store.Eviction
import ZeroFrameworks.Kv.Store.OrderlyTypes
import ZeroFrameworks.Kv.Store.StreamPending

/-!
# Stream calls that fail

What a failing XADD, XGROUP, XREADGROUP, XACK, XCLAIM or XTRIM leaves.  Two of them get to the store before
they find out: XADD evicts and makes the entry before it looks at the id, XREADGROUP has read the keys before
the one without the group.  The others look first.

    Failed (c.run env s).1 → ((c.run env s).2.view env.now = s.view env.now ↔ c.Clean env s)   (view_of_failed)

For XREADGROUP what a reader has pending is counted (`shares`): no read takes from it, so what one key adds
is still there at the end.
-/

namespace Kv

variable {F : Type} [Platform F]

/-! ## Calls -/

inductive StreamCall where
  | add (db : Int) (key id : Bytes) (fields : List (Bytes × Bytes))
  | groupCreate (db : Int) (key group id : Bytes) (mkstream : Bool)
  | groupDestroy (db : Int) (key group : Bytes)
  | readGroup (db : Int) (group consumer : Bytes) (keys ids : List Bytes) (count : Int)
  | ack (db : Int) (key group : Bytes) (ids : List Bytes)
  | claim (db : Int) (key group consumer : Bytes) (minIdleMs : Int) (ids : List Bytes) (force : Bool)
  | trim (db : Int) (key : Bytes) (maxlen : Int)

/-- The call without what it answers when it succeeds. -/
def StreamCall.run : StreamCall → StoreM F (Except Bytes Unit)
  | .add db key id fields => (·.map fun _ => ()) <$> KvStore.xadd db key id fields
  | .groupCreate db key group id mkstream => KvStore.xgroupCreate db key group id mkstream
  | .groupDestroy db key group => KvStore.xgroupDestroy db key group
  | .readGroup db group consumer keys ids count =>
    (·.map fun _ => ()) <$> KvStore.xreadGroup db group consumer keys ids count
  | .ack db key group ids => (·.map fun _ => ()) <$> KvStore.xack db key group ids
  | .claim db key group consumer minIdleMs ids force =>
    (·.map fun _ => ()) <$> KvStore.xclaim db key group consumer minIdleMs ids force
  | .trim db key maxlen => (·.map fun _ => ()) <$> KvStore.xtrim db key maxlen

/-! ## Specification -/

/-- The stream among the live contents. -/
def streamIn (view : Int → Bytes → Option (Item F)) (db : Int) (key : Bytes) : Option StreamObj :=
  (view db key).bind fun o => if o.type = .stream then some (Field.stream.get o.toObj) else none

/-- A read that finds nothing, by a consumer that is known already. -/
def StreamGroupState.Idle (gs : StreamGroupState) (consumer id : Bytes) (count : Int)
    (entries : List StreamEntry) : Prop :=
  (gs.consumers[consumer]?).isSome ∧ picksOf gs consumer id count entries = []

/-- The keys before the first one without the group are read idly. -/
def IdleReads (view : Int → Bytes → Option (Item F)) (db : Int) (group consumer : Bytes) (count : Int) :
    List (Bytes × Bytes) → Prop
  | [] => True
  | (key, id) :: rest => (streamIn view db key).elim (IdleReads view db group consumer count rest) fun st =>
      (st.groups[group]?).elim True fun gs =>
        gs.Idle consumer id count st.entries ∧ IdleReads view db group consumer count rest

/-- XADD has nothing to evict, and takes its id from the clock or finds an entry; or what it evicts is the
very entry it makes. -/
def CleanAdd (env : Env) (s : KvStore F) (db : Int) (key id : Bytes) : Prop :=
  s.AtRest env ∧ (id = lit "*" ∨ s.view env.now db key ≠ none) ∨
    id ≠ lit "*" ∧ s.TakesOnly env db key ∧ s.view env.now db key = some { type := .stream }

def StreamCall.Clean (env : Env) (s : KvStore F) : StreamCall → Prop
  | .add db key id fields => fields = [] ∨ CleanAdd env s db key id
  | .readGroup db group consumer keys ids count =>
    keys.length ≠ ids.length ∨ IdleReads (s.view env.now) db group consumer count (keys.zip ids)
  | _ => True

/-! ## Lemmas: XADD -/

namespace KvStore

variable {env : Env} {s : KvStore F} {db : Int} {key id : Bytes} {fields : List (Bytes × Bytes)}

/-- The second part of XADD with an id it refuses: nothing on a key that is there, an empty stream else. -/
theorem view_refused_add (env : Env) (db : Int) (key : Bytes) (fields : List (Bytes × Bytes)) (h : id ≠ lit "*")
    (s : KvStore F) (db' : Int) (key' : Bytes) :
    (StoreM.onField .stream db key (xaddBody env.now id fields) env s).2.view env.now db' key' =
      if db' = db ∧ key' = key then some ((s.view env.now db key).getD { type := .stream })
      else s.view env.now db' key' := by
  by_cases hl : s.live env.now db key = none
  · rw [view, live_map_norm]
    unfold StoreM.onField StoreM.onFieldOr StoreM.onObj StoreM.onEntry
    rw [item_onEntry, hl]
    split
    next hk =>
      unfold view
      rw [hl]
      unfold liftBody Field.body
      simp only [Option.map_none, xaddBody_of_ne h]
      rfl
    · exact (live_map_norm _ _ _ _).symm
  · have hsame : Same env.now s _ := same_onField (f := xaddBody env.now id fields) (L := .stream) hl
      fun v => by rw [xaddBody_of_ne h]; rfl
    rw [hsame.view]
    split
    next hk =>
      obtain ⟨rfl, rfl⟩ := hk
      obtain ⟨o, ho⟩ := Option.ne_none_iff_exists'.mp hl
      unfold view
      rw [ho]
      rfl
    · rfl

theorem view_auto_add {s : KvStore F}
    (h : Failed (StoreM.onField .stream db key (xaddBody env.now (lit "*") fields) env s).1) :
    (StoreM.onField .stream db key (xaddBody env.now (lit "*") fields) env s).2.view env.now = s.view env.now :=
  (fails_onField (I := fun _ => True) (fun v hf => absurd hf (xaddBody_auto v)) env s trivial h).view

theorem view_evict (env : Env) (s : KvStore F) (db : Int) (key : Bytes) :
    (evictIfNeededLocked env s).2.view env.now db key = s.view env.now db key ∨
      (evictIfNeededLocked env s).2.view env.now db key = none := by
  obtain ⟨n, hn⟩ := rounds_evict env s
  exact (entry_of_rounds hn db key).imp view_congr fun h => view_none h.1

theorem view_xadd_iff (hf : fields ≠ []) (h : Failed (xadd db key id fields env s).1) :
    (xadd db key id fields env s).2.view env.now = s.view env.now ↔ CleanAdd env s db key id := by
  have hxadd : xadd db key id fields env s = StoreM.onField .stream db key (xaddBody env.now id fields) env
      (evictIfNeededLocked env s).2 := by
    unfold xadd
    rw [if_neg (by simpa using hf)]
    rfl
  rw [hxadd] at h ⊢
  unfold CleanAdd
  by_cases hid : id = lit "*"
  · subst hid
    rw [view_auto_add h, view_evict_iff]
    simp
  · -- what is there after the eviction stays, and a key that is not becomes an empty stream
    have hview := view_refused_add env db key fields hid (evictIfNeededLocked env s).2
    simp only [hid, false_or, not_false_eq_true, true_and, ne_eq]
    by_cases hrest : s.AtRest env
    · have hnot : ¬s.TakesOnly env db key := fun ht => ht.1 hrest
      rw [evict_of_atRest hrest] at hview ⊢
      simp only [hrest, hnot, true_and, false_and, or_false]
      constructor
      · intro heq hnone
        have hkey := hview db key
        rw [heq, if_pos ⟨rfl, rfl⟩, hnone] at hkey
        cases hkey
      · intro hsome
        funext db' key'
        rw [hview]
        split
        next hk =>
          obtain ⟨rfl, rfl⟩ := hk
          obtain ⟨o, ho⟩ := Option.ne_none_iff_exists'.mp hsome
          rw [ho]
          rfl
        · rfl
    · simp only [hrest, false_and, false_or]
      constructor
      · intro heq
        have hkey := hview db key
        rw [heq, if_pos ⟨rfl, rfl⟩] at hkey
        have hothers : ∀ db' key', ¬(db' = db ∧ key' = key) →
            (evictIfNeededLocked env s).2.view env.now db' key' = s.view env.now db' key' := by
          intro db' key' hne
          have hone := hview db' key'
          rw [heq, if_neg hne] at hone
          exact hone.symm
        have hgone : (evictIfNeededLocked env s).2.view env.now db key = none := by
          refine (view_evict env s db key).resolve_left fun hstay => hrest (view_evict_iff.mp ?_)
          funext db' key'
          by_cases hk : db' = db ∧ key' = key
          · obtain ⟨rfl, rfl⟩ := hk
            exact hstay
          · exact hothers db' key' hk
        rw [hgone] at hkey
        exact ⟨(takesOnly_iff (by rw [hkey]; exact Option.some_ne_none _)).mpr ⟨hgone, hothers⟩, hkey⟩
      · rintro ⟨honly, hblank⟩
        obtain ⟨hgone, hothers⟩ := (takesOnly_iff (by rw [hblank]; exact Option.some_ne_none _)).mp honly
        funext db' key'
        rw [hview, hgone]
        split
        next hk =>
          obtain ⟨rfl, rfl⟩ := hk
          exact hblank.symm
        next hk => exact hothers db' key' hk

end KvStore

/-! ## Lemmas: XREADGROUP -/

variable {env : Env} {s : KvStore F} {db : Int} {key group consumer id : Bytes} {count : Int}

omit [Platform F] in
theorem streamIn_of_stream {view : Int → Bytes → Option (Item F)} {o : Item F} (h : view db key = some o.norm)
    (ht : o.type = .stream) : streamIn view db key = some (Field.stream.get o.toObj) := by
  unfold streamIn
  rw [h, Option.bind_some, Item.norm_toObj, Obj.norm_type, if_pos ht, Field.stream.get_norm _ ht]

omit [Platform F] in
theorem streamIn_of_ne {view : Int → Bytes → Option (Item F)} {o : Item F} (h : view db key = some o.norm)
    (ht : o.type ≠ .stream) : streamIn view db key = none := by
  unfold streamIn
  rw [h, Option.bind_some, Item.norm_toObj, Obj.norm_type, if_neg ht]

/-- What is left of a stream that was read for a group. -/
def StreamObj.readFor (now : Int) (group consumer id : Bytes) (count : Int) (gs : StreamGroupState)
    (st : StreamObj) : StreamObj :=
  let cs := (stateOf gs.consumers consumer).deliver now (picksOf gs consumer id count st.entries)
  { st with groups := st.groups.insert group { gs with consumers := gs.consumers.insert consumer cs } }

theorem readGroup_eq (now : Int) (group consumer id : Bytes) (count : Int) (st : StreamObj) :
    readGroup now group consumer id count st = (st.groups[group]?).map fun gs =>
      (st.readFor now group consumer id count gs, picksOf gs consumer id count st.entries) := rfl

theorem StreamGroupState.Idle.readFor {gs : StreamGroupState} {st : StreamObj}
    (h : gs.Idle consumer id count st.entries) (hgs : st.groups[group]? = some gs) (now : Int) :
    st.readFor now group consumer id count gs = st := by
  obtain ⟨hknown, hnone⟩ := h
  obtain ⟨cs, hcs⟩ := Option.isSome_iff_exists.mp hknown
  have hsame : ∀ {V : Type} (m : BMap V) (k : Bytes) (v : V), m[k]? = some v → m.insert k v = m := by
    intro V m k v hv
    refine Std.ExtTreeMap.ext_getElem? fun k' => ?_
    rw [Std.ExtTreeMap.getElem?_insert]
    split
    next hk => rw [← Std.LawfulEqCmp.eq_of_compare hk, hv]
    · rfl
  unfold StreamObj.readFor stateOf
  rw [hnone, hcs]
  show StreamObj.mk _ _ _ (st.groups.insert group { gs with consumers := gs.consumers.insert consumer cs }) = st
  rw [hsame gs.consumers consumer cs hcs, hsame st.groups group _ hgs]

theorem deliver_length (now : Int) (picked : List StreamEntry) (c : StreamConsumerState) :
    (c.deliver now picked).pending.length = c.pending.length + picked.length := by
  unfold StreamConsumerState.deliver
  induction picked generalizing c with
  | nil => rfl
  | cons e picked ih =>
    rw [List.foldl_cons, ih, List.length_cons]
    simp only [List.length_append, List.length_singleton]
    omega

/-- What a group has of a consumer, counted: nothing, or the consumer and what it has pending. -/
def StreamObj.share (group consumer : Bytes) (st : StreamObj) : Nat :=
  ((st.groups[group]?).bind fun gs => gs.consumers[consumer]?).elim 0 fun cs => cs.pending.length + 1

theorem share_readFor {gs : StreamGroupState} {st : StreamObj} (now : Int) : (st.readFor now group consumer id count gs).share
    group consumer = (stateOf gs.consumers consumer).pending.length +
      (picksOf gs consumer id count st.entries).length + 1 := by
  unfold StreamObj.share StreamObj.readFor
  simp only [Std.ExtTreeMap.getElem?_insert_self, Option.bind_some, Option.elim_some, deliver_length]

theorem share_eq {gs : StreamGroupState} {st : StreamObj} (hgs : st.groups[group]? = some gs) : st.share group consumer =
    (gs.consumers[consumer]?).elim 0 fun cs => cs.pending.length + 1 := by
  unfold StreamObj.share
  rw [hgs]
  rfl

theorem share_le_readFor {gs : StreamGroupState} {st : StreamObj} (hgs : st.groups[group]? = some gs) (now : Int) :
    st.share group consumer ≤ (st.readFor now group consumer id count gs).share group consumer := by
  rw [share_readFor, share_eq hgs]
  unfold stateOf
  cases gs.consumers[consumer]? with
  | none => exact Nat.zero_le _
  | some cs =>
    simp only [Option.elim_some, Option.getD_some]
    omega

theorem idle_of_share_readFor {gs : StreamGroupState} {st : StreamObj} (hgs : st.groups[group]? = some gs) {now : Int}
    (h : (st.readFor now group consumer id count gs).share group consumer ≤ st.share group consumer) :
    gs.Idle consumer id count st.entries := by
  rw [share_readFor, share_eq hgs] at h
  unfold stateOf at h
  unfold StreamGroupState.Idle
  cases hcs : gs.consumers[consumer]? with
  | none =>
    rw [hcs] at h
    exact absurd h (Nat.not_succ_le_zero _)
  | some cs =>
    rw [hcs] at h
    simp only [Option.elim_some, Option.getD_some] at h
    exact ⟨rfl, List.length_eq_zero_iff.mp (by omega)⟩

/-! ## Lemmas: the keys of one XREADGROUP -/

namespace KvStore

variable {α : Type} {now : Int} {absent : α} {body : Item F → Out (Item F) α}

theorem view_onFound_keep (h : ∀ o, s.live now db key = some o → (body o).act = .keep) :
    (s.onFound now db key absent body).2.view now = s.view now := by
  funext db' key'
  rw [view, live_map_norm, item_onFound]
  split
  next hk =>
    obtain ⟨rfl, rfl⟩ := hk
    unfold view
    cases hl : s.live now db' key' with
    | none => rfl
    | some o =>
      rw [Option.bind_some, h o hl]
      have hlive := (Option.filter_eq_some_iff.mp hl).2
      simp only [Act.apply, Option.map_some, Option.filter_some, Item.expired_norm, hlive, if_true]
  · exact (live_map_norm _ _ _ _).symm

theorem view_onFound_put {o o' : Item F} (hl : s.live now db key = some o) (h : (body o).act = .put o')
    (he : o'.expireAtMs = o.expireAtMs) (db' : Int) (key' : Bytes) :
    (s.onFound now db key absent body).2.view now db' key' =
      if db' = db ∧ key' = key then some o'.norm else s.view now db' key' := by
  rw [view, live_map_norm, item_onFound]
  split
  · rw [hl, Option.bind_some, h]
    have hsame : o'.expired now = o.expired now := by
      unfold Item.expired
      rw [he]
    have hlive := (Option.filter_eq_some_iff.mp hl).2
    simp only [Act.apply, Option.map_some, Option.filter_some, Item.expired_norm, hsame, hlive, if_true]
  · exact (live_map_norm _ _ _ _).symm

variable {st : StreamObj} {gs : StreamGroupState}

theorem readGroupOne_none (group consumer id : Bytes) (count : Int) (h : streamIn (s.view env.now) db key = none) :
    (xreadGroupOne db group consumer count key id env s).1 = .ok [] ∧
      (xreadGroupOne db group consumer count key id env s).2.view env.now = s.view env.now := by
  have hbody : ∀ o, s.live env.now db key = some o →
      readGroupBody env.now group consumer count id o = { reply := .ok [] } := by
    intro o hl
    by_cases ht : o.type = .stream
    · rw [streamIn_of_stream (o := o) (by unfold view; rw [hl]; rfl) ht] at h
      cases h
    · unfold readGroupBody
      rw [Field.body_of_ne ht]
      rfl
  rw [xreadGroupOne_eq]
  refine ⟨?_, view_onFound_keep fun o hl => by rw [hbody o hl]⟩
  rw [onFound_reply]
  cases hl : s.live env.now db key with
  | none => rfl
  | some o => exact congrArg Out.reply (hbody o hl)

theorem live_of_streamIn (h : streamIn (s.view now) db key = some st) :
    ∃ o, s.live now db key = some o ∧ o.type = .stream ∧ Field.stream.get o.toObj = st := by
  have hview : s.view now db key = (s.live now db key).map Item.norm := rfl
  cases hl : s.live now db key with
  | none =>
    rw [hl] at hview
    unfold streamIn at h
    rw [hview] at h
    cases h
  | some o =>
    rw [hl] at hview
    by_cases ht : o.type = .stream
    · rw [streamIn_of_stream hview ht] at h
      exact ⟨o, rfl, ht, Option.some.inj h⟩
    · rw [streamIn_of_ne hview ht] at h
      cases h

theorem readGroupOne_noGroup (consumer id : Bytes) (count : Int) (h : streamIn (s.view env.now) db key = some st)
    (hg : st.groups[group]? = none) :
    (xreadGroupOne db group consumer count key id env s).1 = .error noGroup ∧
      (xreadGroupOne db group consumer count key id env s).2.view env.now = s.view env.now := by
  obtain ⟨o, hl, ht, hget⟩ := live_of_streamIn h
  have hbody : readGroupBody env.now group consumer count id o = { reply := .error noGroup } := by
    unfold readGroupBody
    rw [Field.body_of_type ht]
    simp only [hget, Option.elim_some, readGroup_eq, hg, Option.map_none]
    rfl
  rw [xreadGroupOne_eq]
  refine ⟨?_, view_onFound_keep fun o' hl' => ?_⟩
  · rw [onFound_reply, hl]
    exact congrArg Out.reply hbody
  · rw [hl, Option.some.injEq] at hl'
    rw [← hl', hbody]

theorem readGroupOne_some (consumer id : Bytes) (count : Int) (h : streamIn (s.view env.now) db key = some st)
    (hg : st.groups[group]? = some gs) :
    let r := xreadGroupOne db group consumer count key id env s
    r.1 = .ok (picksOf gs consumer id count st.entries) ∧
      (gs.Idle consumer id count st.entries → r.2.view env.now = s.view env.now) ∧
      ∀ db' key', streamIn (r.2.view env.now) db' key' = if db' = db ∧ key' = key then
        some (st.readFor env.now group consumer id count gs) else streamIn (s.view env.now) db' key' := by
  intro r
  obtain ⟨o, hl, ht, hget⟩ := live_of_streamIn h
  let o' : Item F := { Field.stream.set (st.readFor env.now group consumer id count gs) o.toObj with
    expireAtMs := o.expireAtMs }
  have hbody : readGroupBody env.now group consumer count id o =
      { act := .put o', touch := true, reply := .ok (picksOf gs consumer id count st.entries) } := by
    unfold readGroupBody
    rw [Field.body_of_type ht]
    simp only [hget, Option.elim_some, readGroup_eq, hg, Option.map_some]
    rfl
  have hr : r = s.onFound env.now db key (.ok []) (readGroupBody env.now group consumer count id) := rfl
  have hput : (readGroupBody env.now group consumer count id o).act = .put o' := by rw [hbody]
  refine ⟨?_, fun hidle => ?_, fun db' key' => ?_⟩
  · rw [hr, onFound_reply, hl]
    exact congrArg Out.reply hbody
  · funext db' key'
    rw [hr, view_onFound_put hl hput rfl]
    split
    next hk =>
      obtain ⟨rfl, rfl⟩ := hk
      unfold view
      rw [hl, Option.map_some, Option.some.injEq, Item.norm_eq_iff]
      refine ⟨?_, rfl⟩
      show (Field.stream.set (st.readFor env.now group consumer id count gs) o.toObj).norm = _
      rw [hidle.readFor hg, ← hget]
      exact Field.stream.norm_set_get _ ht
    · rfl
  · have hview : r.2.view env.now db' key' = _ := view_onFound_put hl hput rfl db' key'
    split
    next hk =>
      rw [if_pos hk] at hview
      exact streamIn_of_stream hview ht
    next hk =>
      rw [if_neg hk] at hview
      unfold streamIn
      rw [hview]

end KvStore

/-! ## Lemmas: the whole of an XREADGROUP -/

/-- What the group has of the consumer at a key. -/
def shares (view : Int → Bytes → Option (Item F)) (db : Int) (group consumer key : Bytes) : Nat :=
  (streamIn view db key).elim 0 (StreamObj.share group consumer)

namespace KvStore

variable {pairs : List (Bytes × Bytes)}

theorem readGroupLoop_error {e : Bytes} (rest : List (Bytes × Bytes))
    (h : (xreadGroupOne db group consumer count key id env s).1 = .error e) :
    xreadGroupLoop db group consumer count ((key, id) :: rest) env s =
      (.error e, (xreadGroupOne db group consumer count key id env s).2) := by
  rw [xreadGroupLoop, StoreM.bind_apply, h]
  rfl

theorem readGroupLoop_ok {picked : List StreamEntry} (rest : List (Bytes × Bytes))
    (h : (xreadGroupOne db group consumer count key id env s).1 = .ok picked) :
    let loop := xreadGroupLoop db group consumer count ((key, id) :: rest) env s
    let tail := xreadGroupLoop db group consumer count rest env
      (xreadGroupOne db group consumer count key id env s).2
    loop.2 = tail.2 ∧ (Failed loop.1 ↔ Failed tail.1) := by
  rw [xreadGroupLoop, StoreM.bind_apply, h]
  simp only [StoreM.bind_apply]
  rcases xreadGroupLoop db group consumer count rest env
    (xreadGroupOne db group consumer count key id env s).2 with ⟨e | out, t⟩
  · exact ⟨rfl, Iff.rfl⟩
  · exact ⟨rfl, Iff.rfl⟩

theorem shares_readGroupOne (key id : Bytes) (count : Int) (env : Env) (s : KvStore F) (key' : Bytes) :
    shares (s.view env.now) db group consumer key' ≤
    shares ((xreadGroupOne db group consumer count key id env s).2.view env.now) db group consumer key' := by
  cases hst : streamIn (s.view env.now) db key with
  | none => rw [(readGroupOne_none group consumer id count hst).2]
  | some st =>
    cases hgs : st.groups[group]? with
    | none => rw [(readGroupOne_noGroup consumer id count hst hgs).2]
    | some gs =>
      obtain ⟨-, -, hstream⟩ := readGroupOne_some consumer id count hst hgs
      unfold shares
      rw [hstream]
      split
      next hk =>
        rw [hk.2, hst]
        exact share_le_readFor hgs env.now
      next hk => exact Nat.le.refl

theorem shares_readGroupLoop (db : Int) (group consumer : Bytes) (count : Int) (env : Env)
    (pairs : List (Bytes × Bytes)) (s : KvStore F) (key' : Bytes) : shares (s.view env.now) db group consumer key' ≤
      shares ((xreadGroupLoop db group consumer count pairs env s).2.view env.now) db group consumer key' := by
  induction pairs generalizing s with
  | nil => exact Nat.le.refl
  | cons p rest ih =>
    obtain ⟨key, id⟩ := p
    refine (shares_readGroupOne key id count env s key').trans ?_
    cases hr : (xreadGroupOne db group consumer count key id env s).1 with
    | error e => rw [readGroupLoop_error rest hr]
    | ok picked =>
      rw [(readGroupLoop_ok rest hr).1]
      exact ih _

theorem view_readGroupLoop_iff (s : KvStore F) (h : Failed (xreadGroupLoop db group consumer count pairs env s).1) :
    (xreadGroupLoop db group consumer count pairs env s).2.view env.now = s.view env.now ↔
      IdleReads (s.view env.now) db group consumer count pairs := by
  induction pairs generalizing s with
  | nil => exact h.elim
  | cons p rest ih =>
    obtain ⟨key, id⟩ := p
    unfold IdleReads
    cases hst : streamIn (s.view env.now) db key with
    | none =>
      obtain ⟨hr, hview⟩ := readGroupOne_none group consumer id count hst
      obtain ⟨hloop, hfailed⟩ := readGroupLoop_ok rest hr
      rw [hloop, Option.elim_none, ← hview]
      exact ih _ (hfailed.mp h)
    | some st =>
      cases hgs : st.groups[group]? with
      | none =>
        obtain ⟨hr, hview⟩ := readGroupOne_noGroup consumer id count hst hgs
        rw [readGroupLoop_error rest hr, Option.elim_some, hgs]
        exact iff_of_true hview trivial
      | some gs =>
        obtain ⟨hr, hidle, hstream⟩ := readGroupOne_some consumer id count hst hgs
        obtain ⟨hloop, hfailed⟩ := readGroupLoop_ok rest hr
        rw [hloop, Option.elim_some, hgs, Option.elim_some]
        constructor
        · intro heq
          -- the share of this key only grows after it
          have hgrown := shares_readGroupLoop db group consumer count env rest
            (xreadGroupOne db group consumer count key id env s).2 key
          rw [heq] at hgrown
          unfold shares at hgrown
          rw [hstream, if_pos ⟨rfl, rfl⟩, hst] at hgrown
          have hread := idle_of_share_readFor hgs hgrown
          refine ⟨hread, ?_⟩
          rw [← hidle hread]
          exact (ih _ (hfailed.mp h)).mp (by rw [heq, hidle hread])
        · rintro ⟨hread, hrest⟩
          rw [← hidle hread] at hrest ⊢
          exact (ih _ (hfailed.mp h)).mpr hrest

end KvStore

/-! ## Top theorem -/

omit [Platform F] in
theorem failed_map {α β : Type} {f : α → β} {r : Except Bytes α} : Failed (r.map f) ↔ Failed r := by
  cases r <;> exact Iff.rfl

/-- Which failing calls change nothing. -/
theorem view_of_failed (c : StreamCall) (env : Env) (s : KvStore F) (h : Failed (c.run env s).1) :
    (c.run env s).2.view env.now = s.view env.now ↔ c.Clean env s := by
  have hkeeps : KeepsWhen (fun _ => True) Failed (c.run : StoreM F _) →
      ((c.run env s).2.view env.now = s.view env.now ↔ True) :=
    fun hm => iff_true_intro (hm env s trivial h).view
  cases c with
  | add db key id fields =>
    by_cases hf : fields = []
    · subst hf
      exact iff_of_true rfl (.inl rfl)
    · rw [show StreamCall.Clean env s (.add db key id fields) ↔ CleanAdd env s db key id from or_iff_right hf]
      exact KvStore.view_xadd_iff hf (failed_map.mp h)
  | groupCreate db key group id mkstream => exact hkeeps KvStore.fails_xgroupCreate
  | groupDestroy db key group => exact hkeeps KvStore.fails_xgroupDestroy
  | readGroup db group consumer keys ids count =>
    have hf := failed_map.mp h
    by_cases hlen : keys.length ≠ ids.length ∨ keys.isEmpty
    · have hrun : KvStore.xreadGroup db group consumer keys ids count env s =
          (.error (lit "ERR syntax error"), s) := by
        unfold KvStore.xreadGroup
        rw [if_pos hlen]
        rfl
      refine iff_of_true (by show (KvStore.xreadGroup db group consumer keys ids count env s).2.view _ = _; rw [hrun]) ?_
      refine hlen.imp id fun hempty => ?_
      rw [List.isEmpty_iff.mp hempty]
      trivial
    · have hrun : KvStore.xreadGroup db group consumer keys ids count env s =
          KvStore.xreadGroupLoop db group consumer count (keys.zip ids) env s := by
        unfold KvStore.xreadGroup
        rw [if_neg hlen]
      rw [show StreamCall.Clean env s (.readGroup db group consumer keys ids count) ↔
        IdleReads (s.view env.now) db group consumer count (keys.zip ids) from
          or_iff_right fun hne => hlen (.inl hne)]
      show (KvStore.xreadGroup db group consumer keys ids count env s).2.view _ = _ ↔ _
      rw [hrun] at hf ⊢
      exact KvStore.view_readGroupLoop_iff s hf
  | ack db key group ids =>
    have hm : KeepsWhen (fun _ => True) Failed (KvStore.xack db key group ids : StoreM F _) :=
      KvStore.fails_onGroup fun _ _ hf => hf
    exact hkeeps (hm.map fun _ hf => failed_map.mp hf)
  | claim db key group consumer minIdleMs ids force =>
    have hm : KeepsWhen (fun _ => True) Failed
        (KvStore.xclaim db key group consumer minIdleMs ids force : StoreM F _) :=
      .withEnv fun _ => KvStore.fails_onGroup fun _ _ hf => hf
    exact hkeeps (hm.map fun _ hf => failed_map.mp hf)
  | trim db key maxlen =>
    have hm : KeepsWhen (fun _ => True) Failed (KvStore.xtrim db key maxlen : StoreM F _) := KvStore.fails_xtrim
    exact hkeeps (hm.map fun _ hf => failed_map.mp hf)

/-- XGROUP CREATE without MKSTREAM on a missing key. -/
theorem view_of_failed_groupCreate :
    let c := StreamCall.groupCreate 0 (lit "s") (lit "g") (lit "$") false
    (c.run { now := 0 } (KvStore.empty : KvStore Int)).2.view 0 = (KvStore.empty : KvStore Int).view 0 :=
  (view_of_failed (.groupCreate 0 (lit "s") (lit "g") (lit "$") false) { now := 0 } KvStore.empty trivial).mpr trivial

/-- XADD with an id of its own refuses it and leaves an empty stream. -/
theorem refused_add_makes_key :
    let c := StreamCall.add 0 (lit "s") (lit "1-1") [(lit "f", lit "v")]
    Failed (c.run { now := 0 } (KvStore.empty : KvStore Int)).1 ∧
      (KvStore.empty : KvStore Int).view 0 0 (lit "s") = none ∧
      (c.run { now := 0 } (KvStore.empty : KvStore Int)).2.view 0 0 (lit "s") = some { type := .stream } :=
  ⟨trivial, rfl, rfl⟩

end Kv
