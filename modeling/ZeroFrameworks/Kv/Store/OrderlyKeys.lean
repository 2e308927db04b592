import ZeroFrameworks.Kv.Store.Keys
import ZeroFrameworks.Kv.Store.Orderly

/-!
# Operations on strings, keys and databases are orderly

One lemma for each operation.  Those that WATCH may not be told of come with the keys they are
exempt on, and with a `noted_…` lemma for the calls that are told of after all:

    expire, pexpire, expireAt, pexpireAt   exempt on the key; told unless they make it go away
    persist                                exempt on the key; told
    ttl, pttl                              exempt on the key; told unless its deadline is below zero
    renameKey                              exempt on the new name when both are in one shard; told
        unless only the old name is live
-/

namespace Kv

variable {F : Type} [Platform F] {α : Type}

namespace KvStore

variable {X : Int → Bytes → Prop} {db : Int} {key value : Bytes} {keys : List Bytes}
  {pairs : List (Bytes × Bytes)}

/-! ## Strings -/

theorem orderly_get : Orderly Obj.Shaped X 1 (get db key : StoreM F _) :=
  .onField Field.keeps_string (.of_keep fun _ => rfl)

theorem orderly_strlen : Orderly Obj.Shaped X 1 (strlen db key : StoreM F _) :=
  .onField Field.keeps_string (.of_keep fun _ => rfl)

omit [Platform F] in
theorem shaped_setItem {expireAtMs : Int} {old : Option (Item F)}
    (h : ∀ p, old = some p → p.toObj.Shaped) : (setItem value expireAtMs old).toObj.Shaped := by
  unfold setItem
  split
  · constructor <;> simp
  next o =>
    have ho := h o rfl
    split
    next ht => exact ⟨fun hne => absurd ht hne, ho.hash, ho.list, ho.set, ho.zset, ho.stream⟩
    · constructor <;> simp

omit [Platform F] in
theorem tidy_setBody {nx xx : Bool} {expireAtMs : Int} {exempt : Prop} :
    TidyBody Obj.Shaped exempt (setBody value nx xx expireAtMs : Option (Item F) → _) where
  norm o := by
    rcases o with _ | ⟨⟨t, _⟩, _⟩
    · cases nx <;> cases xx <;> rfl
    · cases t <;> cases nx <;> cases xx <;> rfl
  shape o ho q hq := by
    unfold setBody at hq
    split at hq
    · cases hq
    · split at hq
      · cases hq
      · cases hq
        exact shaped_setItem ho
  told _ o := by
    unfold setBody
    split
    · exact .inr rfl
    · split
      · exact .inr rfl
      · exact .inl rfl

theorem orderly_setOpt {nx xx : Bool} {ex px : Int} :
    Orderly Obj.Shaped X 2 (setOpt db key value nx xx ex px : StoreM F _) :=
  .bind .evict fun _ => .withEnv fun _ => .onEntry tidy_setBody

theorem orderly_delOne : Orderly Obj.Shaped X 1 (delOne db key : StoreM F _) := by
  refine .onFound ⟨fun o => ?_, fun o _ q hq => ?_, fun _ o => ?_⟩
  · cases o <;> rfl
  · cases o <;> cases hq
  · cases o
    · exact .inr rfl
    · exact .inl rfl

theorem orderly_delMany : Orderly Obj.Shaped X keys.length (delMany db keys : StoreM F _) := by
  induction keys with
  | nil => exact .pure _
  | cons key keys ih =>
    have h : Orderly Obj.Shaped X (1 + (keys.length + 0)) (delMany db (key :: keys) : StoreM F _) :=
      .bind orderly_delOne fun n => .bind ih fun _ => .pure _
    refine h.mono ?_
    rw [List.length_cons]
    omega

theorem orderly_del : Orderly Obj.Shaped X 1 (del db key : StoreM F _) := by
  have h : Orderly Obj.Shaped X _ (delMany db [key] : StoreM F _) := orderly_delMany
  exact h.map

theorem orderly_getset : Orderly Obj.Shaped X 3 (getset db key value : StoreM F _) := by
  refine .bind (k := 2) orderly_get ?_
  rintro (e | old)
  · exact (Orderly.pure _).mono (by decide)
  · exact .bind orderly_setOpt fun _ => .pure _

theorem orderly_getdel : Orderly Obj.Shaped X 2 (getdel db key : StoreM F _) := by
  refine .bind (k := 1) orderly_get ?_
  rintro (e | _ | old)
  · exact (Orderly.pure _).mono (by decide)
  · exact (Orderly.pure _).mono (by decide)
  · exact .bind orderly_del fun _ => .pure _

theorem orderly_incrBy {delta : Int} : Orderly Obj.Shaped X 1 (incrBy db key delta : StoreM F _) := by
  refine .onField Field.keeps_string ⟨fun _ _ _ _ => trivial, fun _ v => ?_⟩
  cases v with
  | none => exact .inl rfl
  | some value =>
    simp only
    split
    · exact .inr rfl
    · exact .inl rfl

theorem orderly_append : Orderly Obj.Shaped X 2 (append db key value : StoreM F _) :=
  .bind .evict fun _ => .onField Field.keeps_string ⟨fun _ _ _ _ => trivial, fun _ _ => .inl rfl⟩

theorem orderly_incrByFloat {delta : F} :
    Orderly Obj.Shaped X 1 (incrByFloat db key delta : StoreM F _) := by
  refine .onField Field.keeps_string ⟨fun _ _ _ _ => trivial, fun _ v => ?_⟩
  cases v with
  | none => exact .inl rfl
  | some value =>
    simp only
    split
    · exact .inr rfl
    · exact .inl rfl

theorem orderly_getex {ex px : Int} {persist : Bool} :
    Orderly Obj.Shaped X 2 (getex db key ex px persist : StoreM F _) := by
  refine .bind .evict fun _ => .withEnv fun env =>
    .onEntry ⟨getexBody_norm env.now ex px persist, fun o ho q hq => ?_, fun _ o => ?_⟩
  · unfold getexBody at hq
    split at hq
    · cases hq
    next p =>
      split at hq
      · cases hq
        exact ho p rfl
      · cases hq
  · unfold getexBody
    split
    · exact .inr rfl
    · split
      · exact .inl rfl
      · exact .inr rfl

theorem orderly_found {absent present : α} : Orderly Obj.Shaped X 1
    (StoreM.onFound db key absent fun _ => { reply := present } : StoreM F α) := by
  refine .onFound ⟨fun o => ?_, fun o _ q hq => ?_, fun _ o => ?_⟩
  · cases o <;> rfl
  · cases o <;> cases hq
  · cases o <;> exact .inr rfl

theorem orderly_anyExists : Orderly Obj.Shaped X keys.length (anyExists db keys : StoreM F _) := by
  induction keys with
  | nil => exact .pure _
  | cons key keys ih =>
    refine (Orderly.bind (k := keys.length) orderly_found fun b => ?_).mono ?_
    · exact .ite (fun _ => (Orderly.pure _).mono (Nat.zero_le _)) fun _ => ih
    · rw [List.length_cons]
      omega

theorem orderly_msetAll : Orderly Obj.Shaped X pairs.length (msetAll db pairs : StoreM F _) := by
  induction pairs with
  | nil => exact .pure _
  | cons p pairs ih =>
    have hone : Orderly Obj.Shaped X 1 (StoreM.onEntry db p.1 (msetnxBody p.2) : StoreM F _) := by
      refine .onEntry ⟨fun o => ?_, fun o _ q hq => ?_, fun _ o => .inl rfl⟩
      · cases o <;> rfl
      · cases hq
        constructor <;> simp
    exact (Orderly.bind hone fun _ => ih).mono (by rw [List.length_cons]; omega)

theorem orderly_msetnx : Orderly Obj.Shaped X (2 * pairs.length) (msetnx db pairs : StoreM F _) := by
  have hpos : Orderly Obj.Shaped X pairs.length (anyExists db (pairs.map Prod.fst) : StoreM F _) := by
    have h : Orderly Obj.Shaped X _ (anyExists db (pairs.map Prod.fst) : StoreM F _) := orderly_anyExists
    rwa [List.length_map] at h
  refine (Orderly.bind (k := pairs.length) hpos fun b => .ite (fun _ => ?_) fun _ => ?_).mono (by omega)
  · exact (Orderly.pure _).mono (Nat.zero_le _)
  · exact .bind orderly_msetAll fun _ => .pure _

/-! ## Keys of any type -/

omit [Platform F] in
theorem tidy_of_keep {P : Obj F → Prop} {exempt : Prop} {f : Option (Obj F) → Out (Obj F) α}
    (hn : ∀ o, (f (o.map Obj.norm)).map Obj.norm = (f o).map Obj.norm) (hf : ∀ o, (f o).act = .keep) :
    TidyObj P exempt f where
  norm := hn
  shape o _ q hq := by rw [hf o] at hq; cases hq
  told _ o := .inr (by rw [hf o]; rfl)

theorem orderly_exist : Orderly Obj.Shaped X 1 (exist db key : StoreM F _) :=
  .onObj (tidy_of_keep (fun o => by cases o <;> rfl) fun _ => rfl)

theorem orderly_type : Orderly Obj.Shaped X 1 (type db key : StoreM F _) := by
  refine .onObj (tidy_of_keep (fun o => ?_) fun _ => rfl)
  rcases o with _ | ⟨t, _⟩
  · rfl
  · cases t <;> rfl

theorem orderly_existsMany : Orderly Obj.Shaped X keys.length (existsMany db keys : StoreM F _) := by
  induction keys with
  | nil => exact .pure _
  | cons key keys ih =>
    have h : Orderly Obj.Shaped X (1 + (keys.length + 0)) (existsMany db (key :: keys) : StoreM F _) :=
      .bind orderly_found fun n => .bind ih fun _ => .pure _
    refine h.mono ?_
    rw [List.length_cons]
    omega

/-! ## Deadlines -/

/-- Exempt on one key. -/
def At (db : Int) (key : Bytes) (db' : Int) (key' : Bytes) : Prop := db' = db ∧ key' = key

theorem orderly_persist : Orderly Obj.Shaped (At db key) 1 (persist db key : StoreM F _) := by
  refine .onEntry ⟨fun o => ?_, fun o ho q hq => ?_, fun hx => absurd ⟨rfl, rfl⟩ hx⟩
  · cases o
    · rfl
    · simp [Out.map, Act.map, Item.norm_eq_iff]
  · cases o with
    | none => cases hq
    | some p =>
      cases hq
      exact ho p rfl

theorem orderly_expireBody {arg deadline reply : Int} : Orderly Obj.Shaped (At db key) 1
    (StoreM.onEntry db key (expireBody arg deadline reply) : StoreM F Int) := by
  refine .onEntry ⟨fun o => ?_, fun o ho q hq => ?_, fun hx => absurd ⟨rfl, rfl⟩ hx⟩
  · cases o with
    | none => rfl
    | some o =>
      unfold expireBody
      simp only [Option.map_some]
      split
      · rfl
      · simp [Out.map, Act.map, Item.norm_eq_iff]
  · cases o with
    | none => cases hq
    | some p =>
      unfold expireBody at hq
      simp only at hq
      split at hq <;> cases hq
      exact ho p rfl

theorem orderly_expire {seconds : Int} :
    Orderly Obj.Shaped (At db key) 1 (expire db key seconds : StoreM F _) :=
  .withEnv fun _ => orderly_expireBody

theorem orderly_pexpire {milliseconds : Int} :
    Orderly Obj.Shaped (At db key) 1 (pexpire db key milliseconds : StoreM F _) :=
  .withEnv fun _ => orderly_expireBody

theorem orderly_expireAt {unixSec : Int} :
    Orderly Obj.Shaped (At db key) 1 (expireAt db key unixSec : StoreM F _) :=
  .withEnv fun _ => orderly_expireBody

theorem orderly_pexpireAt {unixMs : Int} :
    Orderly Obj.Shaped (At db key) 1 (pexpireAt db key unixMs : StoreM F _) :=
  .withEnv fun _ => orderly_expireBody

theorem orderly_ttlWith {unit : Int → Int} :
    Orderly Obj.Shaped (At db key) 1 (ttlWith unit db key : StoreM F _) := by
  refine .withEnv fun env => .onFound ⟨fun o => ?_, fun o _ q hq => ?_, fun hx => absurd ⟨rfl, rfl⟩ hx⟩
  · cases o <;> rfl
  · cases o with
    | none => cases hq
    | some o =>
      simp only [Option.elim_some] at hq
      split at hq
      · cases hq
      · split at hq <;> cases hq

variable {env : Env} {s : KvStore F} {db' : Int} {key' : Bytes}

theorem content_of_deadline {o : Item F} {d : Int} {s' : KvStore F} (hl : s.live env.now db key = some o)
    (hi : s'.item db key = some { o with expireAtMs := d }) (hd : ¬(0 < d ∧ d ≤ env.now)) :
    s'.content env.now db key = s.content env.now db key := by
  have hl' : s'.live env.now db key = some { o with expireAtMs := d } := by
    unfold live
    rw [hi]
    refine Option.filter_eq_some_iff.mpr ⟨rfl, ?_⟩
    simp only [Item.expired, Bool.not_eq_true', Bool.and_eq_false_iff, decide_eq_false_iff_not]
    omega
  unfold content
  rw [hl, hl']
  rfl

theorem noted_persist (hw : s.Watching key') (hb : s.version db' key' + s.epoch db' key' + 1 < 2 ^ 32) :
    Noted db' key' env.now 1 s (persist db key env s).2 := by
  refine .onEntry hw hb ?_
  rintro ⟨rfl, rfl⟩
  right
  cases hl : s.live env.now db' key' with
  | none =>
    apply content_of_live
    rw [item_onEntry, if_pos ⟨rfl, rfl⟩, hl]
    rfl
  | some o =>
    refine content_of_deadline hl (d := 0) ?_ (by omega)
    rw [item_onEntry, if_pos ⟨rfl, rfl⟩, hl]
    rfl

/-- An expiry operation is not told of when it makes a live key go away. -/
theorem noted_expireBody {arg deadline reply : Int} (hw : s.Watching key')
    (hb : s.version db' key' + s.epoch db' key' + 1 < 2 ^ 32)
    (h : At db key db' key' → s.live env.now db key ≠ none →
      0 < arg ∧ ¬(0 < deadline ∧ deadline ≤ env.now)) :
    Noted db' key' env.now 1 s
      (StoreM.onEntry db key (expireBody arg deadline reply) env s : Int × KvStore F).2 := by
  refine .onEntry hw hb ?_
  rintro ⟨rfl, rfl⟩
  right
  cases hl : s.live env.now db' key' with
  | none =>
    apply content_of_live
    rw [item_onEntry, if_pos ⟨rfl, rfl⟩, hl]
    rfl
  | some o =>
    obtain ⟨harg, hd⟩ := h ⟨rfl, rfl⟩ (by rw [hl]; exact fun hn => by cases hn)
    refine content_of_deadline hl ?_ hd
    rw [item_onEntry, if_pos ⟨rfl, rfl⟩, hl]
    unfold expireBody
    simp only
    rw [if_neg (by omega)]
    rfl

/-- Looking at the time to live is not told of when it erases a key, whose deadline is below zero. -/
theorem noted_ttlWith {unit : Int → Int} (hw : s.Watching key')
    (hb : s.version db' key' + s.epoch db' key' + 1 < 2 ^ 32)
    (h : At db key db' key' → ∀ o, s.live env.now db key = some o → o.expireAtMs < 0 →
      0 < remaining o.expireAtMs env.now) :
    Noted db' key' env.now 1 s (ttlWith unit db key env s).2 := by
  have hc : (ttlWith unit db key env s).2.counters = bumpIf F s.counters db key false := by
    refine (counters_onFound ..).trans ?_
    congr 1
    cases s.live env.now db key with
    | none => rfl
    | some o =>
      simp only [Option.elim_some]
      split
      · rfl
      · split <;> rfl
  refine .of_bumpIf hw hb hc fun _ => ?_
  unfold ttlWith StoreM.withEnv StoreM.onFound
  by_cases hk : db' = db ∧ key' = key
  · obtain ⟨rfl, rfl⟩ := hk
    apply content_of_live
    rw [item_onFound, if_pos ⟨rfl, rfl⟩]
    cases hl : s.live env.now db' key' with
    | none => rfl
    | some o =>
      have hlive := (Option.filter_eq_some_iff.mp hl).2
      simp only [Item.expired, Bool.not_eq_true', Bool.and_eq_false_iff, decide_eq_false_iff_not] at hlive
      have hneg := h ⟨rfl, rfl⟩ o hl
      rw [Option.bind_some]
      split
      · rfl
      next h0 =>
        have hahead : 0 < o.expireAtMs → 0 < remaining o.expireAtMs env.now := by
          intro hpos
          rw [remaining, if_neg (by omega)]
          omega
        rw [if_neg (by omega)]
        rfl
  · apply content_of_item
    rw [item_onFound, if_neg hk]

/-! ## Renaming -/

theorem find_store (env : Env) (s : KvStore F) : (find db key env s).2 =
    (StoreM.onFound db key () (fun _ => { reply := () }) env s : Unit × KvStore F).2 := by
  unfold find StoreM.onFound onFound
  split
  · rfl
  · unfold onEntry
    cases (s.entry db key).filter fun e => !e.expired env.now <;> rfl

/-- The end of `renameKey`: `moved` goes to the new name. -/
def move (db : Int) (src dst : Bytes) (moved : Item F) : StoreM F Unit := do
  let _ ← delOne db dst
  let _ ← delOne db src
  .onEntry db dst fun _ =>
    { act := .put moved, touch := true, bump := shardIdx F src != shardIdx F dst, reply := () }

theorem renameKey_eq (db : Int) (src dst : Bytes) (nx : Bool) : renameKey db src dst nx =
    (if src = dst then pure (.ok true)
    else do
      match ← find db src with
      | none => pure (.error (lit "ERR no such key"))
      | some moved => do
        let found ← .onFound db dst false fun _ => { reply := true }
        if found && nx then pure (.ok false)
        else do
          move db src dst moved
          pure (.ok true) : StoreM F _) := rfl

/-- The new name when both are in one shard, which then is not bumped for what it gets. -/
def RenameTo (F : Type) [Platform F] (db : Int) (src dst : Bytes) (db' : Int) (key' : Bytes) : Prop :=
  At db dst db' key' ∧ shardIdx F src = shardIdx F dst

variable {src dst : Bytes} {moved moved' : Item F} {nx : Bool}

theorem alike_move {t : KvStore F} (h : SameView env.now s t) (hm : moved.norm = moved'.norm) :
    SameView env.now (move db src dst moved env s).2 (move db src dst moved' env t).2 := by
  have hdel : ∀ key, Orderly Obj.Shaped (fun _ _ => True) 1 (delOne db key : StoreM F _) :=
    fun _ => orderly_delOne
  have h1 := ((hdel dst).alike env s t h).2
  have h2 := ((hdel src).alike env _ _ h1).2
  refine (h2.onEntry fun _ _ _ => ?_).2
  simp [Out.map, Act.map, hm]

theorem all_move (h : s.All Obj.Shaped) (hm : moved.toObj.Shaped) :
    (move db src dst moved env s).2.All Obj.Shaped := by
  have hdel : ∀ key, Orderly Obj.Shaped (fun _ _ => True) 1 (delOne db key : StoreM F _) :=
    fun _ => orderly_delOne
  have h1 := (hdel dst).keeps env s h
  have h2 := (hdel src).keeps env _ h1
  refine h2.onEntry fun q hq => ?_
  cases hq
  exact hm

theorem noted_move (hdb : IsDb db') (hx : ¬RenameTo F db src dst db' key') (hw : s.Watching key')
    (hb : s.version db' key' + s.epoch db' key' + 3 < 2 ^ 32) :
    Noted db' key' env.now 3 s (move db src dst moved env s).2 := by
  have hdel : ∀ key, Orderly Obj.Shaped (fun _ _ => False) 1 (delOne db key : StoreM F _) :=
    fun _ => orderly_delOne
  have h1 := (hdel dst).noted env s db' key' hdb id hw (by omega)
  have hb1 := h1.bound
  have h2 := (hdel src).noted env _ db' key' hdb id h1.watching (by omega)
  have hb2 := h2.bound
  refine (h1.trans h2).trans (.onEntry h2.watching (by omega) ?_)
  intro hk
  left
  simp only [bne_iff_ne, ne_eq]
  exact fun hshard => hx ⟨hk, hshard⟩

theorem orderly_renameKey :
    Orderly Obj.Shaped (RenameTo F db src dst) 5 (renameKey db src dst nx : StoreM F _) := by
  have hfind : Orderly Obj.Shaped (RenameTo F db src dst) 1
      (StoreM.onFound db src () (fun _ => { reply := () }) : StoreM F _) := orderly_found
  have hfound : Orderly Obj.Shaped (RenameTo F db src dst) 1
      (StoreM.onFound db dst false (fun _ => { reply := true }) : StoreM F _) := orderly_found
  rw [renameKey_eq]
  split
  · exact (Orderly.pure _).mono (by decide)
  constructor
  · intro env s t h
    have h1 := (hfind.alike env s t h).2
    have hl := h.live db src
    simp only [StoreM.bind_apply, find_reply, find_store]
    cases hs : s.live env.now db src with
    | none =>
      rw [hs] at hl
      rw [Option.map_eq_none_iff.mp hl.symm]
      exact ⟨rfl, h1⟩
    | some moved =>
      obtain ⟨moved', ht, hm⟩ : ∃ moved', t.live env.now db src = some moved' ∧ moved'.norm = moved.norm := by
        rw [hs] at hl
        exact Option.map_eq_some_iff.mp hl.symm
      obtain ⟨hr, h2⟩ := hfound.alike env _ _ h1
      rw [ht]
      simp only [StoreM.bind_apply, hr]
      split
      · exact ⟨rfl, h2⟩
      · exact ⟨rfl, alike_move h2 hm.symm⟩
  · intro env s h
    have h1 := hfind.keeps env s h
    simp only [StoreM.bind_apply, find_reply, find_store]
    cases hs : s.live env.now db src with
    | none => exact h1
    | some moved =>
      have h2 := hfound.keeps env _ h1
      simp only [StoreM.bind_apply]
      split
      · exact h2
      · exact all_move h2 (h db src moved (item_of_live hs))
  · intro env s db' key' hdb hx hw hb
    have h1 := hfind.noted env s db' key' hdb hx hw (by omega)
    have hb1 := h1.bound
    simp only [StoreM.bind_apply, find_reply, find_store]
    cases hs : s.live env.now db src with
    | none => exact h1.mono (by decide)
    | some moved =>
      have h2 := hfound.noted env _ db' key' hdb hx h1.watching (by omega)
      have hb2 := h2.bound
      simp only [StoreM.bind_apply]
      split
      · exact (h1.trans h2).mono (by decide)
      · exact (h1.trans h2).trans (noted_move hdb hx h2.watching (by omega))

theorem version_delOne (hl : s.live env.now db key ≠ none) (hw : s.Watching key)
    (hb : s.version db key + 1 < 2 ^ 32) :
    (delOne db key env s).2.version db key = s.version db key + 1 := by
  obtain ⟨o, ho⟩ := Option.ne_none_iff_exists'.mp hl
  have hc : (delOne db key env s).2.counters = bumpIf F s.counters db key true := by
    refine (counters_onFound ..).trans ?_
    rw [ho]
    rfl
  rw [version_bumpIf hc hw, if_pos ⟨rfl, rfl, rfl⟩, Nat.mod_eq_of_lt (by omega)]

/-- Renaming is not told of under a new name in the same shard that was free. -/
theorem noted_renameKey (hdb : IsDb db') (hw : s.Watching key')
    (hb : s.version db' key' + s.epoch db' key' + 5 < 2 ^ 32)
    (h : RenameTo F db src dst db' key' → src ≠ dst → s.live env.now db src ≠ none →
      s.live env.now db dst ≠ none) :
    Noted db' key' env.now 5 s (renameKey db src dst nx env s).2 := by
  by_cases hx : RenameTo F db src dst db' key'
  · have hto := h hx
    obtain ⟨⟨rfl, rfl⟩, hshard⟩ := hx
    have hfind : Orderly Obj.Shaped (fun _ _ => False) 1
        (StoreM.onFound db' src () (fun _ => { reply := () }) : StoreM F _) := orderly_found
    have hfound : Orderly Obj.Shaped (fun _ _ => False) 1
        (StoreM.onFound db' key' false (fun _ => { reply := true }) : StoreM F _) := orderly_found
    have h1 := hfind.noted env s db' key' hdb id hw (by omega)
    have hb1 := h1.bound
    rw [renameKey_eq]
    split
    · exact (Noted.refl hw).mono (by decide)
    next hne =>
      simp only [StoreM.bind_apply, find_reply, find_store]
      cases hs : s.live env.now db' src with
      | none => exact h1.mono (by decide)
      | some moved =>
        have h2 := hfound.noted env _ db' key' hdb id h1.watching (by omega)
        have hb2 := h2.bound
        have h12 := h1.trans h2
        simp only [StoreM.bind_apply]
        split
        · exact h12.mono (by decide)
        · -- the new name is live, so erasing it is told of
          have hlive : s.live env.now db' key' ≠ none := hto hne (by rw [hs]; exact fun hn => by cases hn)
          have hsame : Same env.now s (StoreM.onFound db' key' false (fun _ => { reply := true }) env
              (StoreM.onFound db' src () (fun _ => { reply := () }) env s).2).2 := by
            have hr1 : Reads (StoreM.onFound db' src () (fun _ => { reply := () }) : StoreM F _) :=
              .onFound fun _ _ => rfl
            have hr2 : Reads (StoreM.onFound db' key' false (fun _ => { reply := true }) : StoreM F _) :=
              .onFound fun _ _ => rfl
            exact (hr1 env s trivial trivial).trans (hr2 env _ trivial trivial)
          generalize (StoreM.onFound db' key' false (fun _ => { reply := true }) env
              (StoreM.onFound db' src () (fun _ => { reply := () }) env s).2).2 = u at h2 hb2 h12 hsame ⊢
          have hu : u.live env.now db' key' ≠ none := by
            intro hn
            have hl := hsame.live db' key'
            rw [hn] at hl
            exact hlive (Option.map_eq_none_iff.mp hl.symm)
          have hdel : ∀ key, Orderly Obj.Shaped (fun _ _ => False) 1 (delOne db' key : StoreM F _) :=
            fun _ => orderly_delOne
          have hv := version_delOne hu h2.watching (by omega)
          have h3 := (hdel key').noted env u db' key' hdb id h2.watching (by omega)
          have hb3 := h3.bound
          have h4 := (hdel src).noted env _ db' key' hdb id h3.watching (by omega)
          have hv2 := h12.version
          have hv4 := h4.version
          have hc : (move db' src key' moved env u).2.counters = _ := counters_onEntry ..
          rw [hshard, bne_self_eq_false] at hc
          exact (((h12.trans h3).trans h4).of_told (by omega) hc).mono (by decide)
  · exact orderly_renameKey.noted env s db' key' hdb hx hw hb

end KvStore

end Kv
