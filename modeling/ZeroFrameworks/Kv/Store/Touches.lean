import ZeroFrameworks.Kv.Store.Accesses
import ZeroFrameworks.Kv.Store.StreamErrors
import ZeroFrameworks.Kv.Store.WatchRuns

/-!
# Operations that touch what they access

What each operation does to the access times, under its condition of `KvOp.Fresh`, and `refreshed_runOp` over all
of them.
-/

namespace Kv

namespace KvStore

variable {F : Type} {α : Type} [Platform F]
variable {env : Env} {s : KvStore F} {now db : Int} {key : Bytes} {takes : ObjType → Bool}

/-! ## Lemmas: operations that read and write no value -/

omit [Platform F] in
theorem still_look {a : α} (o : Option (Item F)) : Still ({ reply := a } : Out (Item F) α) o :=
  fun _ h => ⟨rfl, _, h, rfl⟩

omit [Platform F] in
theorem still_erase {a : α} (o : Option (Item F)) :
    Still ({ act := .erase, bump := true, reply := a } : Out (Item F) α) o :=
  fun _ h => (by cases h)

omit [Platform F] in
theorem still_lookObj {f : Option (Obj F) → α} (o : Option (Item F)) :
    Still (liftBody (fun o => { reply := f o }) o) o := by
  cases o with
  | none => exact fun _ h => (by cases h)
  | some o => exact fun o' h => ⟨rfl, o, rfl, congrArg (·.type) (Option.some.inj h)⟩

theorem refreshed_existsMany (keys : List Bytes) (s : KvStore F) :
    Refreshed env.now [] takes s (existsMany db keys env s).2 := by
  induction keys generalizing s with
  | nil => exact .refl _ _ s
  | cons key keys ih => exact (still_onFound fun o _ => still_look _).trans (ih _)

theorem refreshed_delOne (db : Int) (key : Bytes) (s : KvStore F) :
    Refreshed env.now [] takes s (delOne db key env s).2 ∧
      Refreshed env.now [(db, key)] takes s (delOne db key env s).2 := by
  have hempty : Refreshed env.now [] takes s (delOne db key env s).2 := still_onFound fun o _ => still_erase _
  refine ⟨hempty, (refreshed_onEntry (f := fun o => o.elim { reply := (0 : Int) }
    fun _ => { act := .erase, bump := true, reply := 1 }) fun o' ho' => ?_).congr fun db' key' => entry_onFound ..⟩
  cases hl : s.live env.now db key with
  | none => rw [hl] at ho'; cases ho'
  | some o => rw [hl] at ho'; cases ho'

theorem refreshed_delMany (keys : List Bytes) (s : KvStore F) :
    Refreshed env.now [] takes s (delMany db keys env s).2 := by
  induction keys generalizing s with
  | nil => exact .refl _ _ s
  | cons key keys ih => exact (refreshed_delOne db key s).1.trans (ih _)

omit [Platform F] in
theorem still_expireBody {arg deadline reply : Int} (o : Option (Item F)) :
    Still (expireBody arg deadline reply o) o := by
  cases o with
  | none => exact still_look _
  | some o =>
    unfold expireBody
    simp only
    split
    · exact fun _ h => (by cases h)
    · intro o' h
      cases h
      exact ⟨rfl, o, rfl, rfl⟩

theorem refreshed_ttlWith {unit : Int → Int} : Refreshed env.now [] takes s (ttlWith unit db key env s).2 := by
  refine still_onFound fun o _ => ?_
  split
  · exact still_look _
  · split
    · exact fun _ h => (by cases h)
    · exact still_look _

theorem refreshed_filterDb (p : Entry F → Bool) : Refreshed now [] takes s (s.filterDb db p) := by
  refine .of_entry fun db' key' => ?_
  rw [entry_filterDb]
  split
  · cases he : s.entry db' key' with
    | none => exact .inr rfl
    | some e =>
      by_cases hp : p e = true
      · exact .inl (by rw [Option.filter_some, if_pos hp])
      · exact .inr (by rw [Option.filter_some, if_neg hp])
  · exact .inl rfl

theorem entry_flushdb (db' : Int) (key : Bytes) :
    (flushdb db env s).2.entry db' key = if db' = db then none else s.entry db' key := by
  unfold entry dbMap flushdb
  by_cases hdb : db' = db
  · subst hdb
    simp [AList.lookup_insert]
  · simp only
    rw [AList.lookup_insert_ne hdb, if_neg hdb]

theorem refreshed_flushdb (db : Int) (env : Env) : Refreshed now [] takes s (flushdb db env s).2 := by
  refine .of_entry fun db' key' => ?_
  rw [entry_flushdb]
  split
  · exact .inr rfl
  · exact .inl rfl

theorem refreshed_erased (dead : List (Int × Bytes)) (s : KvStore F) :
    Refreshed now [] takes s (dead.foldl (fun s d => s.putEntry d.1 d.2 none) s) := by
  induction dead generalizing s with
  | nil => exact .refl _ _ s
  | cons d dead ih =>
    refine Refreshed.trans (.of_entry fun db' key' => ?_) (ih _)
    rw [entry_putEntry]
    split
    · exact .inr rfl
    · exact .inl rfl

theorem refreshed_purgeExpiredActive {maxScan : Int} :
    Refreshed env.now [] takes s (purgeExpiredActive maxScan env s).2 := by
  unfold purgeExpiredActive
  split
  · exact .refl _ _ s
  · exact refreshed_erased _ s

theorem entry_watchToken (env : Env) (s : KvStore F) (db : Int) (key : Bytes) (db' : Int) (key' : Bytes) :
    (watchToken db key env s).2.entry db' key' = s.entry db' key' := by
  unfold entry dbMap watchToken setShard
  simp only
  by_cases hi : shardIdx F key' = shardIdx F key
  · rw [hi, Function.update_self]
  · rw [Function.update_of_ne hi]

/-- A call with nothing to do is answered at once. -/
theorem refreshed_ifEmpty {β γ : Type} {l : List γ} {a : β} {m : StoreM F β}
    (h : l ≠ [] → Refreshed env.now [(db, key)] takes s (m env s).2) :
    Refreshed env.now (if l.isEmpty then [] else [(db, key)]) takes s
      ((if l.isEmpty then pure a else m : StoreM F β) env s).2 := by
  cases l with
  | nil => exact .refl _ _ s
  | cons x l => exact h (List.cons_ne_nil x l)

/-! ## Lemmas: strings -/

variable {s' : KvStore F}

theorem isSome_congr (h : Same now s s') (db : Int) (key : Bytes) :
    (s'.live now db key).isSome = (s.live now db key).isSome := by
  have hl := congrArg Option.isSome (h.live db key)
  rwa [Option.isSome_map, Option.isSome_map] at hl

theorem typeAt_congr (h : Same now s s') (db : Int) (key : Bytes) :
    s'.typeAt now db key = s.typeAt now db key := by
  have hl := congrArg (Option.map fun o : Item F => o.type) (h.live db key)
  have htype : ∀ o : Item F, o.norm.type = o.type := fun o => by rw [Item.norm_toObj, Obj.norm_type]
  simp only [Option.map_map, Function.comp_def, htype] at hl
  exact hl

theorem refreshed_getdel : Refreshed env.now [(db, key)] (fun t => decide (t = .string)) s (getdel db key env s).2 := by
  unfold getdel
  rw [StoreM.bind_apply]
  have hlook : Refreshed env.now [] (fun t => decide (t = .string)) s (get db key env s).2 :=
    still_onFieldOr fun v => ⟨rfl, rfl⟩
  cases hat : Field.string.at env.now s db key with
  | some value =>
    have hr : (get db key env s).1 = .ok (some value) := reply_of_at hat
    rw [hr]
    exact hlook.trans (refreshed_delOne db key _).2
  | none =>
    have hread : Refreshed env.now [(db, key)] (fun t => decide (t = .string)) s (get db key env s).2 :=
      refreshed_onField (L := .string) (fun v hv => by rw [hat] at hv; cases hv) fun v' hv' => by cases hv'
    have hr : (get db key env s).1 = .error wrongType ∨ (get db key env s).1 = .ok none := reply_of_at_none hat
    rcases hr with hr | hr
    · rw [hr]
      exact hread
    · rw [hr]
      exact hread

variable {value : Bytes}

theorem refreshed_setOpt {nx xx : Bool} {ex px : Int}
    (h : (KvOp.setOpt db key value nx xx ex px).Fresh env s) :
    Refreshed env.now [(db, key)] (fun t => decide (t = .string)) s (setOpt db key value nx xx ex px env s).2 := by
  refine refreshed_evict_bind (refreshed_onEntry fun o' ho' => ?_)
  unfold setBody at ho' ⊢
  rcases h with ⟨hxx, hnone⟩ | ⟨hnx, hother⟩
  · rw [hnone, hxx] at ho'
    cases nx <;> cases ho'
  · obtain ⟨o, hl, hne⟩ := live_of_other hother
    rw [hl, hnx] at ho' ⊢
    cases ho'
    rw [if_neg (by simpa using hne)]
    exact ⟨rfl, _, rfl, rfl⟩

theorem refreshed_getset (h : s.Other env.now db key .string) :
    Refreshed env.now [(db, key)] (fun t => decide (t = .string)) s (getset db key value env s).2 := by
  obtain ⟨o, hl, hne⟩ := live_of_other h
  have hr : (get db key env s).1 = .error wrongType := onField_refused (L := .string) (fun ht => hne (ht o hl)) _
  unfold getset
  rw [StoreM.bind_apply, hr]
  exact refreshed_other (L := .string) h

theorem refreshed_getex {ex px : Int} {persist : Bool} :
    Refreshed env.now [(db, key)] (fun t => decide (t = .string)) s (getex db key ex px persist env s).2 := by
  refine refreshed_evict_bind (refreshed_onEntry fun o' ho' => ?_)
  cases hl : (evictIfNeededLocked env s).2.live env.now db key with
  | none =>
    rw [hl] at ho'
    cases ho'
  | some o =>
    rw [hl] at ho'
    by_cases ht : o.type = .string
    · have hbody : getexBody env.now ex px persist (some o) = _ := if_pos ht
      rw [hbody] at ho' ⊢
      cases ho'
      rw [if_pos (decide_eq_true ht)]
    · have hbody : getexBody env.now ex px persist (some o) = _ := if_neg ht
      rw [hbody] at ho' ⊢
      cases ho'
      rw [if_neg (by simpa using ht)]
      exact ⟨rfl, _, rfl, rfl⟩

theorem refreshed_incrByFloat {delta : F} (h : (KvOp.incrByFloat db key delta).Fresh env s) :
    Refreshed env.now [(db, key)] (fun t => decide (t = .string)) s (incrByFloat db key delta env s).2 := by
  obtain ⟨hl, hfloat⟩ := h
  refine refreshed_onFieldOr (L := .string) fun ht => ?_
  obtain ⟨o, ho⟩ := Option.ne_none_iff_exists'.mp hl
  have hat : Field.string.at env.now s db key = some o.value := at_of_live ho (ht o ho)
  rw [hat] at hfloat ⊢
  intro v' _
  have hsome := hfloat _ rfl
  simp only
  split
  next h0 => rw [h0] at hsome; exact absurd rfl hsome
  · rfl

theorem found_reply (key : Bytes) (s : KvStore F) :
    (StoreM.onFound db key false (fun _ => { reply := true }) env s).1 = (s.live env.now db key).isSome := by
  unfold StoreM.onFound
  rw [onFound_reply]
  cases s.live env.now db key <;> rfl

theorem refreshed_found (key : Bytes) (s : KvStore F) :
    Refreshed env.now [] takes s (StoreM.onFound db key false (fun _ => { reply := true }) env s).2 :=
  still_onFound fun _ _ => still_look _

theorem anyExists_reply (keys : List Bytes) (s : KvStore F) :
    (anyExists db keys env s).1 = keys.any fun k => (s.live env.now db k).isSome := by
  induction keys generalizing s with
  | nil => rfl
  | cons key keys ih =>
    unfold anyExists
    have hreads : Reads (.onFound db key false (fun _ => { reply := true }) : StoreM F Bool) := .onFound fun _ _ => rfl
    have hsame := hreads env s trivial trivial
    rw [StoreM.bind_apply, List.any_cons]
    rw [found_reply]
    cases hl : (s.live env.now db key).isSome with
    | true => rfl
    | false =>
      rw [Bool.false_or, if_neg Bool.false_ne_true, ih]
      congr 1
      funext k
      exact isSome_congr hsame db k

theorem refreshed_anyExists (keys : List Bytes) (s : KvStore F) :
    Refreshed env.now [] takes s (anyExists db keys env s).2 := by
  induction keys generalizing s with
  | nil => exact .refl _ _ s
  | cons key keys ih =>
    unfold anyExists
    rw [StoreM.bind_apply]
    split
    · exact refreshed_found key s
    · exact (refreshed_found key s).trans (ih _)

theorem refreshed_msetAll (pairs : List (Bytes × Bytes)) (s : KvStore F) :
    Refreshed env.now (pairs.map fun p => (db, p.1)) (fun t => decide (t = .string)) s (msetAll db pairs env s).2 := by
  induction pairs generalizing s with
  | nil => exact .refl _ _ s
  | cons p pairs ih =>
    obtain ⟨key, value⟩ := p
    have hone : Refreshed env.now [(db, key)] (fun t => decide (t = .string)) s
        (s.onEntry env.now db key (msetnxBody value)).2 := refreshed_onEntry fun o' ho' => by
      cases ho'
      rfl
    exact hone.trans (ih _)

theorem refreshed_msetnx {pairs : List (Bytes × Bytes)} :
    Refreshed env.now (if pairs.any fun p => (s.live env.now db p.1).isSome then [] else pairs.map fun p => (db, p.1))
      (fun t => decide (t = .string)) s (msetnx db pairs env s).2 := by
  unfold msetnx
  rw [StoreM.bind_apply, anyExists_reply, List.any_map]
  have hlook : Refreshed env.now [] (fun t => decide (t = .string)) s (anyExists db (pairs.map Prod.fst) env s).2 :=
    refreshed_anyExists _ s
  simp only [Function.comp_def]
  split
  · exact hlook
  · exact hlook.trans (refreshed_msetAll pairs _)

/-! ## Lemmas: keys -/

theorem refreshed_renameKey {src dst : Bytes} {nx : Bool} :
    Refreshed env.now
      (if src = dst ∨ s.live env.now db src = none ∨ (nx ∧ s.live env.now db dst ≠ none) then [] else [(db, dst)])
      (fun _ => true) s (renameKey db src dst nx env s).2 := by
  unfold renameKey
  by_cases hsame : src = dst
  · rw [if_pos hsame, if_pos (Or.inl hsame)]
    exact .refl _ _ s
  have hfind : Refreshed env.now [] (fun _ => true) s (find db src env s).2 := still_onFound fun o _ => still_look _
  rw [if_neg hsame, StoreM.bind_apply, find_reply]
  cases hsrc : s.live env.now db src with
  | none =>
    rw [if_pos (Or.inr (Or.inl rfl))]
    exact hfind
  | some moved =>
    have hreads : Same env.now s (find db src env s).2 := reads_find env s trivial trivial
    have hdst := isSome_congr hreads db dst
    simp only [StoreM.bind_apply, found_reply, hdst]
    have hfound : Refreshed env.now [] (fun _ => true) s
        (StoreM.onFound db dst false (fun _ => { reply := true }) env (find db src env s).2).2 :=
      hfind.trans (refreshed_found dst _)
    by_cases hnx : ((s.live env.now db dst).isSome && nx) = true
    · rw [if_pos hnx, if_pos (Or.inr (Or.inr ?_))]
      · exact hfound
      · rw [Bool.and_eq_true] at hnx
        exact ⟨hnx.2, Option.isSome_iff_ne_none.mp hnx.1⟩
    · rw [if_neg hnx, if_neg ?_]
      · have hgone := (hfound.trans (refreshed_delOne db dst _).1).trans (refreshed_delOne db src _).1
        exact hgone.trans (refreshed_onEntry (f := fun _ =>
          { act := .put moved, touch := true, bump := shardIdx F src != shardIdx F dst, reply := () }) fun _ _ => rfl)
      · rintro (h | h | ⟨h, h'⟩)
        · exact hsame h
        · cases h
        · exact hnx (Bool.and_eq_true_iff.mpr ⟨Option.isSome_iff_ne_none.mpr h', h⟩)

theorem refreshed_restoreKey {ttl : Int} {payload : Bytes} {replace : Bool} :
    Refreshed env.now
      (if (parseDump (F := F) payload).toOption.isNone ∨ (s.live env.now db key ≠ none ∧ ¬replace) then []
        else [(db, key)])
      (fun _ => true) s (restoreKey db key ttl payload replace env s).2 := by
  unfold restoreKey
  cases parseDump (F := F) payload with
  | error e => exact .refl _ _ s
  | ok o =>
    by_cases hbusy : ((s.live env.now db key).isSome && !replace) = true
    · have hbody : ∀ d, restoreBody o d replace (s.live env.now db key) = _ := fun d => if_pos hbusy
      rw [Bool.and_eq_true] at hbusy
      rw [if_pos (Or.inr ⟨Option.isSome_iff_ne_none.mp hbusy.1, by simpa using hbusy.2⟩)]
      refine still_onEntry ?_
      rw [hbody]
      exact still_look _
    · have hbody : ∀ d, restoreBody o d replace (s.live env.now db key) = _ := fun d => if_neg hbusy
      rw [if_neg ?_]
      · refine refreshed_onEntry fun o' _ => ?_
        rw [hbody]
        exact rfl
      · rintro (h | ⟨h, h'⟩)
        · cases h
        · exact hbusy (Bool.and_eq_true_iff.mpr ⟨Option.isSome_iff_ne_none.mpr h, by simpa using h'⟩)

/-! ## Lemmas: hashes, lists and sorted sets -/

theorem refreshed_hmget {fields : List Bytes} (h : fields = [] ∨ s.typeAt env.now db key ≠ some .hash) :
    Refreshed env.now (if fields.isEmpty then [] else [(db, key)]) (fun t => decide (t = .hash)) s
      (hmget db key fields env s).2 := by
  induction fields generalizing s with
  | nil => exact .refl _ _ s
  | cons field fields ih =>
    have hne : s.typeAt env.now db key ≠ some .hash := h.resolve_left (List.cons_ne_nil _ _)
    have hone : Refreshed env.now [(db, key)] (fun t => decide (t = .hash)) s (hget db key field env s).2 :=
      refreshed_read (L := .hash) hne rfl
    have hreads : Same env.now s (hget db key field env s).2 := reads_hget env s trivial trivial
    have hrest := ih (s := (hget db key field env s).2) (.inr (by rw [typeAt_congr hreads]; exact hne))
    unfold hmget
    rw [StoreM.bind_apply]
    cases (hget db key field env s).1 with
    | error e => exact hone
    | ok v =>
      have hboth : Refreshed env.now [(db, key)] (fun t => decide (t = .hash)) s
          (hmget db key fields env (hget db key field env s).2).2 :=
        (hone.trans hrest).of_mem fun x => by cases fields <;> simp
      simp only [StoreM.bind_apply]
      cases (hmget db key fields env (hget db key field env s).2).1 <;> exact hboth

theorem refreshed_hincrby {field : Bytes} {delta : Int}
    (h : ∀ m ∈ Field.hash.at env.now (evictIfNeededLocked env s).2 db key, (m[field]?).elim (some 0) parseIntegerValue ≠ none) :
    Refreshed env.now [(db, key)] (fun t => decide (t = .hash)) s (hincrby db key field delta env s).2 := by
  refine refreshed_evict_bind (refreshed_onField (L := .hash) (fun m hm _ _ => ?_) fun _ _ => rfl)
  have hsome := h m hm
  simp only
  split
  next hnone => exact absurd hnone hsome
  · rfl

theorem refreshed_hdel {field : Bytes} (h : ∀ m ∈ Field.hash.at env.now s db key, (m.erase field).isEmpty) :
    Refreshed env.now [(db, key)] (fun t => decide (t = .hash)) s (hdel db key field env s).2 := by
  refine refreshed_onField (L := .hash) (fun m hm v' hv' => ?_) fun v' hv' => (by cases hv')
  simp only [h m hm, if_true] at hv'
  cases hv'

theorem refreshed_listPop {left : Bool} (h : ∀ l ∈ Field.list.at env.now s db key, l.length = 1) :
    Refreshed env.now [(db, key)] (fun t => decide (t = .list)) s (listPop db key left env s).2 := by
  refine refreshed_onField (L := .list) (fun l hl v' hv' => ?_) fun v' hv' => (by cases hv')
  obtain ⟨x, rfl⟩ := List.length_eq_one_iff.mp (h l hl)
  cases left <;> cases hv'

theorem refreshed_listRPopLPush {src dst : Bytes}
    (h : ∀ l ∈ Field.list.at env.now s db src, l.length = 1 ∧ s.Other env.now db dst .list) :
    Refreshed env.now
      ((Field.list.at env.now s db src).elim [] fun l => (db, src) :: if l.isEmpty then [] else [(db, dst)])
      (fun t => decide (t = .list)) s (listRPopLPush db src dst env s).2 := by
  unfold listRPopLPush
  rw [StoreM.bind_apply]
  cases hat : Field.list.at env.now s db src with
  | none =>
    -- nothing to pop
    have hpop : Refreshed env.now [] (fun t => decide (t = .list)) s (listPop db src false env s).2 :=
      still_of_at hat rfl
    have hreply : (listPop db src false env s).1 = .error wrongType ∨ (listPop db src false env s).1 = .ok none :=
      reply_of_at_none hat
    rcases hreply with hr | hr
    · rw [hr]
      exact hpop
    · rw [hr]
      exact hpop
  | some l =>
    obtain ⟨hlen, hother⟩ := h l hat
    obtain ⟨x, rfl⟩ := List.length_eq_one_iff.mp hlen
    have hr : (listPop db src false env s).1 = .ok (some x) := reply_of_at hat
    have hpop : Refreshed env.now [(db, src)] (fun t => decide (t = .list)) s (listPop db src false env s).2 :=
      refreshed_listPop fun l hl => by rw [hat] at hl; cases hl; rfl
    rw [hr]
    -- the destination is another key, which the pop leaves
    have hne : ¬(db = db ∧ dst = src) := by
      rintro ⟨-, rfl⟩
      rw [at_of_other (L := Field.list) hother] at hat
      cases hat
    have hdst : (listPop db src false env s).2.Other env.now db dst .list := by
      have hitem : (listPop db src false env s).2.item db dst = s.item db dst := (item_onEntry ..).trans (if_neg hne)
      unfold Other typeAt live
      rw [hitem]
      exact hother
    have hpush : Refreshed env.now [(db, dst)] (fun t => decide (t = .list)) (listPop db src false env s).2
        (listPush db dst [x] true env (listPop db src false env s).2).2 := refreshed_other (L := .list) hdst
    simp only [StoreM.bind_apply]
    cases (listPush db dst [x] true env (listPop db src false env s).2).1 <;> exact hpop.trans hpush

theorem refreshed_hmset {fields : List (Bytes × Bytes)} (h : fields = [] ∨ s.Other env.now db key .hash) :
    Refreshed env.now (if fields.isEmpty then [] else [(db, key)]) (fun t => decide (t = .hash)) s
      (hmset db key fields env s).2 := by
  cases fields with
  | nil => exact .refl _ _ s
  | cons p fields =>
    obtain ⟨field, value⟩ := p
    have hother := h.resolve_left (List.cons_ne_nil _ _)
    obtain ⟨o, hl, hne⟩ := live_of_other hother
    have hr : (hset db key field value env s).1 = .error wrongType :=
      onField_refused (L := .hash) (fun ht => hne (ht o hl)) _
    unfold hmset
    rw [StoreM.bind_apply, hr]
    exact refreshed_other (L := .hash) hother

theorem refreshed_hsetnx {field value : Bytes} (h : s.Other env.now db key .hash) :
    Refreshed env.now [(db, key)] (fun t => decide (t = .hash)) s (hsetnx db key field value env s).2 := by
  obtain ⟨o, hl, hne⟩ := live_of_other h
  unfold hsetnx
  rw [StoreM.bind_apply]
  have hnot : (StoreM.peek db key (fun o => o.any fun o => decide (o.type = .hash) && o.hash.contains field) env s).1 =
      false := by
    show (s.live env.now db key).any _ = false
    rw [hl, Option.any_some, decide_eq_false hne, Bool.false_and]
  rw [hnot]
  exact refreshed_other (L := .hash) h

theorem refreshed_listTrim {start stop : Int} :
    Refreshed env.now [(db, key)] (fun t => decide (t = .list)) s (listTrim db key start stop env s).2 := by
  refine refreshed_onField (L := .list) (fun l _ v' hv' => ?_) fun v' hv' => (by cases hv')
  simp only at hv' ⊢
  split at hv'
  · cases hv'
  · split at hv'
    · cases hv'
    next hkept => rw [if_neg hkept]

variable {count : Int}

theorem refreshed_listRem :
    Refreshed env.now [(db, key)] (fun t => decide (t = .list)) s (listRem db key count value env s).2 := by
  refine refreshed_onField (L := .list) (fun l _ v' hv' => ?_) fun v' hv' => (by cases hv')
  simp only at hv' ⊢
  split at hv'
  · cases hv'
  next hkept => rw [if_neg hkept]

theorem refreshed_listSet {index : Int}
    (h : ∀ l ∈ Field.list.at env.now s db key, listPos l index ≠ none) :
    Refreshed env.now [(db, key)] (fun t => decide (t = .list)) s (listSet db key index value env s).2 := by
  refine refreshed_onField (L := .list) (fun l hl v' _ => ?_) fun v' hv' => (by cases hv')
  obtain ⟨i, hi⟩ := Option.ne_none_iff_exists'.mp (h l hl)
  simp only [hi]

theorem refreshed_listInsert {before : Bool} {pivot value : Bytes}
    (h : ∀ l ∈ Field.list.at env.now s db key, insertAt before pivot value l ≠ none) :
    Refreshed env.now [(db, key)] (fun t => decide (t = .list)) s (listInsert db key before pivot value env s).2 := by
  refine refreshed_onField (L := .list) (fun l hl v' _ => ?_) fun v' hv' => (by cases hv')
  obtain ⟨i, hi⟩ := Option.ne_none_iff_exists'.mp (h l hl)
  simp only [Option.bind_some, hi]

theorem refreshed_spop (h : ∀ a ∈ Field.sets.at env.now (evictIfNeededLocked env s).2 db key, a.isEmpty = false) :
    Refreshed env.now [(db, key)] (fun t => decide (t = .set)) s (spop db key env s).2 := by
  refine refreshed_evict_bind (refreshed_onField (L := .sets) (fun a ha v' hv' => ?_) fun v' hv' => (by cases hv'))
  have hne : (env.order a.toList).head? ≠ none := by
    intro hnone
    have hnil := (env.order_perm a.toList).symm
    rw [List.head?_eq_none_iff.mp hnone] at hnil
    have hempty := h a ha
    rw [← Std.ExtTreeSet.isEmpty_toList, List.perm_nil.mp hnil] at hempty
    cases hempty
  obtain ⟨m, hm⟩ := Option.ne_none_iff_exists'.mp hne
  simp only [Option.bind_some, hm, Option.map_some] at hv' ⊢
  split at hv'
  · cases hv'
  next hrest => rw [if_neg hrest]

theorem refreshed_zpopBest {better : F × Bytes → F × Bytes → Bool}
    (h : ∀ z ∈ Field.zset.at env.now (evictIfNeededLocked env s).2 db key, z.isEmpty = false) :
    Refreshed env.now [(db, key)] (fun t => decide (t = .zset)) s (zpopBest better db key env s).2 := by
  refine refreshed_evict_bind (refreshed_onField (L := .zset) (fun z hz v' hv' => ?_) fun v' hv' => (by cases hv'))
  have hbest : ∃ b, bestMember better z = some b := by
    unfold bestMember
    split
    next hnil =>
      have hempty := h z hz
      rw [← Std.ExtTreeMap.isEmpty_toList, List.map_eq_nil_iff.mp hnil] at hempty
      cases hempty
    · exact ⟨_, rfl⟩
  obtain ⟨b, hb⟩ := hbest
  simp only [Option.bind_some, hb, Option.map_some] at hv' ⊢
  split at hv'
  · cases hv'
  next hrest => rw [if_neg hrest]

theorem refreshed_setRem {members : List Bytes}
    (h : members = [] ∨ ∀ a ∈ Field.sets.at env.now s db key, (eraseMembers members a).2.isEmpty) :
    Refreshed env.now (if members.isEmpty then [] else [(db, key)]) (fun t => decide (t = .set)) s
      (setRem db key members env s).2 := by
  refine refreshed_ifEmpty fun hne => refreshed_onField (L := .sets) (fun a ha v' hv' => ?_) fun v' hv' => (by cases hv')
  simp only [h.resolve_left hne a ha, if_true] at hv'
  cases hv'

omit [Platform F] in
theorem zrem_snd (members : List Bytes) (a : Int × BMap F) :
    (members.foldl (fun (a : Int × BMap F) m => (if a.2.contains m then a.1 + 1 else a.1, a.2.erase m)) a).2 =
      members.foldl (·.erase ·) a.2 := by
  induction members generalizing a with
  | nil => rfl
  | cons m members ih => exact ih _

theorem refreshed_zrem {members : List Bytes}
    (h : members = [] ∨ ∀ z ∈ Field.zset.at env.now s db key, (members.foldl (·.erase ·) z).isEmpty) :
    Refreshed env.now (if members.isEmpty then [] else [(db, key)]) (fun t => decide (t = .zset)) s
      (zrem db key members env s).2 := by
  refine refreshed_ifEmpty fun hne => refreshed_onField (L := .zset) (fun z hz v' hv' => ?_) fun v' hv' => (by cases hv')
  simp only [zrem_snd, h.resolve_left hne z hz, if_true] at hv'
  cases hv'

theorem refreshed_zaddOpt {opt : ZaddOptions} {members : List (F × Bytes)} :
    Refreshed env.now (if members.isEmpty || (opt.nx && opt.xx) || (opt.gt && opt.lt) then [] else [(db, key)])
      (fun t => decide (t = .zset)) s (zaddOpt db key opt members env s).2 := by
  unfold zaddOpt
  by_cases hempty : members.isEmpty = true
  · rw [if_pos hempty, hempty]
    exact .refl _ _ s
  by_cases hnx : (opt.nx && opt.xx) = true
  · rw [if_neg hempty, if_pos hnx, hnx, Bool.or_true, Bool.true_or]
    exact .refl _ _ s
  by_cases hgt : (opt.gt && opt.lt) = true
  · rw [if_neg hempty, if_neg hnx, if_pos hgt, hgt, Bool.or_true]
    exact .refl _ _ s
  rw [if_neg hempty, if_neg hnx, if_neg hgt, if_neg (by simp [hempty, hnx, hgt])]
  have htouch : ∀ v, Touched (V := BMap F) (α := Except Bytes Int)
      (if opt.xx && v.isNone then { reply := .ok 0 }
      else
        let r := members.foldl (zaddStep opt) (0, 0, v.getD ∅)
        let reply := .ok (if opt.ch then r.1 + r.2.1 else r.1)
        if r.2.2.isEmpty then { act := .erase, bump := true, reply := reply }
        else { act := .put r.2.2, touch := true, bump := true, reply := reply }) v := by
    intro v v' hv'
    split at hv'
    next hxx =>
      rw [Bool.and_eq_true, Option.isNone_iff_eq_none] at hxx
      rw [hxx.2] at hv'
      cases hv'
    next hxx =>
      rw [if_neg hxx]
      simp only at hv' ⊢
      split at hv'
      · cases hv'
      next hrest => rw [if_neg hrest]
  exact refreshed_onField (L := .zset) (fun v _ => htouch (some v)) (htouch none)

/-! ## Lemmas: set algebra -/

theorem fetch_cases (env : Env) (s : KvStore F) (db : Int) (key : Bytes) :
    (fetch (s.view env.now) db key = .error wrongType ∧ s.Other env.now db key .set) ∨
      (fetch (s.view env.now) db key = .ok none ∧ s.typeAt env.now db key = none) ∨
      ∃ a, fetch (s.view env.now) db key = .ok (some a) ∧ s.typeAt env.now db key = some .set := by
  unfold fetch Other typeAt
  rw [held_view]
  cases s.live env.now db key with
  | none => exact .inr (.inl ⟨rfl, rfl⟩)
  | some o =>
    rw [Option.map_some]
    by_cases ht : o.type = .set
    · rw [Field.held_of_type (L := Field.sets) ht]
      exact .inr (.inr ⟨_, rfl, congrArg some ht⟩)
    · rw [Field.held_of_ne (L := Field.sets) ht]
      exact .inl ⟨rfl, _, rfl, ht⟩

theorem sources_congr (h : Same now s s') (db : Int) (keys : List Bytes) (op : SetOp) :
    s'.sources now db keys op = s.sources now db keys op := by
  have htype : s'.typeAt now db = s.typeAt now db := funext (typeAt_congr h db)
  unfold sources
  rw [htype]

theorem stopped_congr (h : Same now s s') (db : Int) (keys : List Bytes) (op : SetOp) :
    s'.stopped now db keys op = s.stopped now db keys op := by
  have htype : s'.typeAt now db = s.typeAt now db := funext (typeAt_congr h db)
  unfold stopped
  rw [sources_congr h, htype]

theorem refreshed_source (key : Bytes) (s : KvStore F) :
    Refreshed env.now [(db, key)] (fun t => decide (t = .set)) s (source true db key env s).2 :=
  refreshed_onFoundField (L := .sets) fun _ _ _ _ => rfl

theorem still_source {touch : Bool} (key : Bytes) (s : KvStore F)
    (h : touch = false ∨ s.typeAt env.now db key ≠ some .set) :
    Refreshed env.now [] takes s (source touch db key env s).2 := by
  rcases h with rfl | h
  · exact still_onFoundField (L := .sets) fun _ => ⟨rfl, rfl⟩
  · exact still_found_of_at (L := .sets) (at_of_typeAt h)

theorem sources_inter_cons (key : Bytes) (keys : List Bytes) : s.sources now db (key :: keys) .inter =
    if s.typeAt now db key = some .set then key :: s.sources now db keys .inter else [] := by
  unfold sources
  rw [List.takeWhile_cons]
  simp only [decide_eq_true_eq]

theorem sources_union_cons (key : Bytes) (keys : List Bytes) : s.sources now db (key :: keys) .union =
    if (s.typeAt now db key).all (· = .set) then key :: s.sources now db keys .union else [] := by
  unfold sources
  exact List.takeWhile_cons

theorem stopped_cons {op : SetOp} {key : Bytes} {keys rest : List Bytes}
    (h : s.sources now db (key :: keys) op = key :: rest) :
    s.stopped now db (key :: keys) op =
      (keys.drop rest.length).head?.any fun k => (s.typeAt now db k).any (· ≠ .set) := by
  unfold stopped
  rw [h]
  rfl

theorem stopped_first {op : SetOp} {key : Bytes} {keys : List Bytes} (h : s.sources now db (key :: keys) op = []) :
    s.stopped now db (key :: keys) op = (s.typeAt now db key).any (· ≠ .set) := by
  unfold stopped
  rw [h]
  rfl

theorem refreshed_interLoop (touch : Bool) (keys : List Bytes) (acc : Option BSet) (s : KvStore F) :
    Refreshed env.now (if touch then (s.sources env.now db keys .inter).map fun k => (db, k) else [])
        (fun t => decide (t = .set)) s (interLoop touch db keys acc env s).2 ∧
      (Failed (interLoop touch db keys acc env s).1 ↔ s.stopped env.now db keys .inter = true) := by
  induction keys generalizing acc s with
  | nil =>
    refine ⟨?_, by simp [interLoop, Failed, stopped]⟩
    cases touch <;> exact .refl _ _ s
  | cons key keys ih =>
    have hreads : Same env.now s (source touch db key env s).2 := reads_source env s trivial trivial
    unfold interLoop
    rw [StoreM.bind_apply, source_reply]
    have hstop : s.typeAt env.now db key ≠ some .set →
        Refreshed env.now (if touch then (s.sources env.now db (key :: keys) .inter).map fun k => (db, k) else [])
          (fun t => decide (t = .set)) s (source touch db key env s).2 := fun hne => by
      rw [sources_inter_cons, if_neg hne, List.map_nil, ite_self]
      exact still_source key s (.inr hne)
    rcases fetch_cases env s db key with ⟨hf, t, ht, hne⟩ | ⟨hf, ht⟩ | ⟨a, hf, ht⟩
    · have hset : s.typeAt env.now db key ≠ some .set := fun h => hne (Option.some.inj (ht.symm.trans h))
      rw [hf, stopped_first (by rw [sources_inter_cons, if_neg hset]), ht]
      exact ⟨hstop hset, by simp [Failed, hne]⟩
    · have hset : s.typeAt env.now db key ≠ some .set := fun h => (by rw [ht] at h; cases h)
      rw [hf, stopped_first (by rw [sources_inter_cons, if_neg hset]), ht]
      exact ⟨hstop hset, by simp [Failed]⟩
    · obtain ⟨hrefreshed, hfailed⟩ :=
        ih (some (acc.elim a fun prev => prev.filter a.contains)) (source touch db key env s).2
      rw [hf, sources_inter_cons, if_pos ht, stopped_cons (by rw [sources_inter_cons, if_pos ht])]
      rw [sources_congr hreads] at hrefreshed
      rw [stopped_congr hreads] at hfailed
      refine ⟨?_, hfailed⟩
      cases touch with
      | false => exact (still_source key s (.inl rfl)).trans hrefreshed
      | true => exact (refreshed_source key s).trans hrefreshed

theorem sources_union_of_other {keys : List Bytes} (h : s.Other now db key .set) :
    s.sources now db (key :: keys) .union = [] := by
  obtain ⟨t, ht, hne⟩ := h
  rw [sources_union_cons, ht, if_neg (by simpa using hne)]

theorem failed_foldOf (step : BSet → BSet → BSet) (keys : List Bytes) (acc : BSet) :
    Failed (foldOf (fetch (s.view env.now) db) step keys acc) ↔ s.stopped env.now db keys .union = true := by
  induction keys generalizing acc with
  | nil => simp [foldOf, Failed, stopped]
  | cons key keys ih =>
    unfold foldOf
    rcases fetch_cases env s db key with ⟨hf, hother⟩ | ⟨hf, ht⟩ | ⟨a, hf, ht⟩
    · rw [hf, stopped_first (sources_union_of_other hother)]
      obtain ⟨t, ht, hne⟩ := hother
      rw [ht]
      exact iff_of_true trivial (by simpa using hne)
    · rw [hf, stopped_cons (by rw [sources_union_cons, ht]; rfl)]
      exact ih _
    · rw [hf, stopped_cons (by rw [sources_union_cons, ht]; rfl)]
      exact ih _

theorem refreshed_unionLoop (keys : List Bytes) (acc : BSet) (s : KvStore F) :
    Refreshed env.now ((s.sources env.now db keys .union).map fun k => (db, k)) (fun t => decide (t = .set)) s
      (unionLoop true db keys acc env s).2 := by
  induction keys generalizing acc s with
  | nil => exact .refl _ _ s
  | cons key keys ih =>
    have hreads : Same env.now s (source true db key env s).2 := reads_source env s trivial trivial
    unfold unionLoop
    rw [StoreM.bind_apply, source_reply]
    have hrest := fun acc => ih acc (source true db key env s).2
    simp only [sources_congr hreads] at hrest
    rcases fetch_cases env s db key with ⟨hf, hother⟩ | ⟨hf, ht⟩ | ⟨a, hf, ht⟩
    · rw [hf, sources_union_of_other hother]
      refine still_source key s (.inr fun h => ?_)
      obtain ⟨t, ht, hne⟩ := hother
      exact hne (Option.some.inj (ht.symm.trans h))
    · rw [hf, sources_union_cons, ht]
      exact (refreshed_source key s).trans (hrest _)
    · rw [hf, sources_union_cons, ht]
      exact (refreshed_source key s).trans (hrest _)

theorem still_unionLoop (keys : List Bytes) (acc : BSet) (s : KvStore F) :
    Refreshed env.now [] takes s (unionLoop false db keys acc env s).2 := by
  induction keys generalizing acc s with
  | nil => exact .refl _ _ s
  | cons key keys ih =>
    have hone : Refreshed env.now [] takes s (source false db key env s).2 := still_source key s (.inl rfl)
    unfold unionLoop
    rw [StoreM.bind_apply]
    cases (source false db key env s).1 with
    | error e => exact hone
    | ok r => cases r <;> exact hone.trans (ih _ _)

theorem still_diffLoop (keys : List Bytes) (acc : BSet) (s : KvStore F) :
    Refreshed env.now [] takes s (diffLoop db keys acc env s).2 := by
  induction keys generalizing acc s with
  | nil => exact .refl _ _ s
  | cons key keys ih =>
    have hone : Refreshed env.now [] takes s (source false db key env s).2 := still_source key s (.inl rfl)
    unfold diffLoop
    rw [StoreM.bind_apply]
    cases (source false db key env s).1 with
    | error e => exact hone
    | ok r => cases r <;> exact hone.trans (ih _ _)

theorem still_diffAll (keys : List Bytes) (s : KvStore F) :
    Refreshed env.now [] takes s (diffAll db keys env s).2 := by
  cases keys with
  | nil => exact .refl _ _ s
  | cons key keys =>
    have hone : Refreshed env.now [] takes s (source false db key env s).2 := still_source key s (.inl rfl)
    unfold diffAll
    simp only [StoreM.bind_apply]
    cases (source false db key env s).1 with
    | error e => exact hone
    | ok r =>
      cases r with
      | none => exact hone
      | some a => exact hone.trans (still_diffLoop _ _ _)

theorem failed_diffAllOf (keys : List Bytes) :
    Failed (diffAllOf (fetch (s.view env.now) db) keys) ↔ s.stopped env.now db keys .diff = true := by
  cases keys with
  | nil => simp [diffAllOf, Failed, stopped]
  | cons key keys =>
    unfold diffAllOf
    simp only
    rcases fetch_cases env s db key with ⟨hf, t, ht, hne⟩ | ⟨hf, ht⟩ | ⟨a, hf, ht⟩
    · rw [hf, stopped_first (by unfold sources; simp [ht, hne]), ht]
      exact iff_of_true trivial (by simpa using hne)
    · rw [hf, stopped_first (by unfold sources; simp [ht]), ht]
      exact iff_of_false id (by simp)
    · have hsources : s.sources env.now db (key :: keys) .diff = key :: s.sources env.now db keys .union := by
        unfold sources
        simp [ht]
      rw [hf, stopped_cons hsources]
      exact failed_foldOf _ _ _

theorem refreshed_storeSet (dest : Bytes) (a : BSet) (s : KvStore F) :
    Refreshed env.now [(db, dest)] (fun t => decide (t = .set)) s (storeSet db dest (.ok a) env s).2 := by
  intro db' key' e' he
  have hentry : (storeSet db dest (.ok a) env s).2.entry db' key' = if db' = db ∧ key' = dest then
      (storeBody a (s.item db dest)).entry env.now (s.entry db dest) else s.entry db' key' := by
    show (s.onSlot env.now db dest (storeBody a)).2.entry db' key' = _
    unfold onSlot
    simp only [apply_ite (fun t : KvStore F => t.entry db' key'), entry_bumpWatchKey, entry_putEntry, ite_self]
    rfl
  rw [hentry] at he
  by_cases hk : db' = db ∧ key' = dest
  · obtain ⟨rfl, rfl⟩ := hk
    rw [if_pos ⟨rfl, rfl⟩] at he
    unfold storeBody at he
    split at he
    · cases he
    · cases he
      rw [if_pos ⟨List.mem_singleton_self _, rfl⟩]
      rfl
  · rw [if_neg hk] at he
    rw [if_neg fun hb => hk (by simpa using hb.1)]
    exact ⟨e', he, rfl, rfl⟩

theorem refreshed_stored {op : SetOp} {keys : List Bytes} {dest : Bytes} {r : Except Bytes BSet}
    (h : KvOp.StoreFresh env.now s db dest keys op) (hr : Failed r ↔ s.stopped env.now db keys op = true)
    (hloop : Refreshed env.now [] (fun t => decide (t = .set)) s s') :
    Refreshed env.now (KvOp.storeAccessed env.now s db dest keys op) (fun t => decide (t = .set)) s
      (storeSet db dest r env s').2 := by
  unfold KvOp.StoreFresh at h
  unfold KvOp.storeAccessed
  cases r with
  | error e =>
    have hstop := hr.mp trivial
    rw [if_pos hstop] at h ⊢
    rw [h]
    exact hloop
  | ok a =>
    have hstop : ¬s.stopped env.now db keys op = true := fun hstop => hr.mpr hstop
    rw [if_neg hstop] at h ⊢
    refine (hloop.trans (refreshed_storeSet dest a s')).of_mem fun x => ?_
    simp only [List.nil_append, List.mem_singleton, List.mem_append, List.mem_map]
    constructor
    · exact .inr
    · rintro (⟨k, hk, rfl⟩ | rfl)
      · rw [h k hk]
      · rfl

/-! ## Lemmas: streams -/

theorem refreshed_xadd {id : Bytes} {fields : List (Bytes × Bytes)}
    (h : fields = [] ∨ id = lit "*" ∨ (evictIfNeededLocked env s).2.Other env.now db key .stream) :
    Refreshed env.now (if fields.isEmpty then [] else [(db, key)]) (fun t => decide (t = .stream)) s
      (xadd db key id fields env s).2 := by
  refine refreshed_ifEmpty fun hne => refreshed_evict_bind ?_
  rcases h.resolve_left hne with rfl | hother
  · have hauto : ∀ v, Touched (xaddBody env.now (lit "*") fields v) v := fun v v' _ => by
      unfold xaddBody
      rw [parseStreamIdToken_eq, if_pos rfl]
      rfl
    exact refreshed_onField (L := .stream) (fun v _ => hauto (some v)) (hauto none)
  · exact refreshed_other (L := .stream) hother

theorem refreshed_xdel {ids : List Bytes} :
    Refreshed env.now [(db, key)] (fun t => decide (t = .stream)) s (xdel db key ids env s).2 := by
  refine refreshed_onField (L := .stream) (fun st _ v' hv' => ?_) fun v' hv' => (by cases hv')
  simp only at hv' ⊢
  split at hv'
  · cases hv'
  next hrest => rw [if_neg hrest]

theorem refreshed_xtrim {maxlen : Int}
    (h : maxlen < 0 ∨ ∀ st ∈ Field.stream.at env.now s db key, maxlen < st.entries.length) :
    Refreshed env.now (if maxlen < 0 then [] else [(db, key)]) (fun t => decide (t = .stream)) s
      (xtrim db key maxlen env s).2 := by
  unfold xtrim
  split
  · exact .refl _ _ s
  next hpos =>
    have hlong := h.resolve_left hpos
    refine refreshed_onField (L := .stream) (fun st hst v' _ => ?_) fun v' hv' => (by cases hv')
    simp only [if_neg (Int.not_le.mpr (hlong st hst))]

theorem refreshed_xgroupCreate {group id : Bytes} {mkstream : Bool}
    (h : ∀ st ∈ Field.stream.at env.now s db key, st.groups[group]? = none) :
    Refreshed env.now [(db, key)] (fun t => decide (t = .stream)) s (xgroupCreate db key group id mkstream env s).2 := by
  refine refreshed_onField (L := .stream) (fun st hst v' _ => ?_) fun v' hv' => ?_
  · have hnew : st.groups.contains group = false := by
      rw [Std.ExtTreeMap.contains_eq_isSome_getElem?, h st hst]
      rfl
    simp only [Option.isNone_some, Bool.false_and, Bool.false_eq_true, if_false, Option.getD_some, hnew]
  · cases mkstream with
    | false => cases hv'
    | true => rfl

variable {group : Bytes}

theorem refreshed_xgroupDestroy
    (h : ∀ st ∈ Field.stream.at env.now s db key, st.groups[group]? ≠ none) :
    Refreshed env.now [(db, key)] (fun t => decide (t = .stream)) s (xgroupDestroy db key group env s).2 := by
  refine refreshed_onFieldOr (L := .stream) fun _ => ?_
  cases hst : Field.stream.at env.now s db key with
  | none => exact fun _ hv' => (by cases hv')
  | some st =>
    have hgroup : st.groups.contains group = true := by
      rw [Std.ExtTreeMap.contains_eq_isSome_getElem?, Option.isSome_iff_ne_none]
      exact h st hst
    intro v' _
    simp only [hgroup, if_true]

theorem refreshed_onGroup {f : StreamObj → StreamGroupState → Out StreamObj (Except Bytes α)}
    (h : ∀ st ∈ Field.stream.at env.now s db key, st.groups[group]? ≠ none) (hf : ∀ st gs, (f st gs).touch = true) :
    Refreshed env.now [(db, key)] (fun t => decide (t = .stream)) s (onGroup db key group f env s).2 := by
  refine refreshed_onFieldOr (L := .stream) fun _ => ?_
  cases hst : Field.stream.at env.now s db key with
  | none => exact fun _ hv' => (by cases hv')
  | some st =>
    obtain ⟨gs, hgs⟩ := Option.ne_none_iff_exists'.mp (h st hst)
    intro v' _
    simp only [hgs, Option.elim_some, hf]

theorem refreshed_onGroup_of_typeAt
    {f : StreamObj → StreamGroupState → Out StreamObj (Except Bytes α)}
    (h : s.typeAt env.now db key ≠ some .stream) :
    Refreshed env.now [(db, key)] (fun t => decide (t = .stream)) s (onGroup db key group f env s).2 := by
  refine refreshed_onFieldOr (L := .stream) fun _ => ?_
  rw [at_of_typeAt (L := Field.stream) h]
  exact fun _ hv' => (by cases hv')

theorem refreshed_xreadLoop (pairs : List (Bytes × Bytes)) (s : KvStore F) :
    Refreshed env.now (pairs.map fun p => (db, p.1)) (fun t => decide (t = .stream)) s
      (xreadLoop db count pairs env s).2 := by
  induction pairs generalizing s with
  | nil => exact .refl _ _ s
  | cons p pairs ih =>
    obtain ⟨key, id⟩ := p
    unfold xreadLoop
    simp only [StoreM.bind_apply]
    exact Refreshed.trans (refreshed_onFoundField (L := .stream) fun _ _ _ _ => rfl) (ih _)

variable {keys ids : List Bytes}

/-- The two calls on several streams check their arguments alike. -/
theorem refreshed_keysAndIds {β : Type} {e : β} {m : StoreM F β}
    (h : keys.length = ids.length → Refreshed env.now ((keys.zip ids).map fun p => (db, p.1)) takes s (m env s).2) :
    Refreshed env.now (if keys.length = ids.length then keys.map fun k => (db, k) else []) takes s
      ((if keys.length ≠ ids.length ∨ keys.isEmpty then pure e else m : StoreM F β) env s).2 := by
  by_cases hlen : keys.length = ids.length
  · rw [if_pos hlen]
    by_cases hempty : keys.isEmpty = true
    · rw [if_pos (Or.inr hempty), List.isEmpty_iff.mp hempty]
      exact .refl _ _ s
    · rw [if_neg (not_or.mpr ⟨not_not.mpr hlen, hempty⟩)]
      have hnames : (keys.zip ids).map (fun p => (db, p.1)) = keys.map fun k => (db, k) := by
        rw [← congrArg (List.map fun k => (db, k)) (List.map_fst_zip hlen.le), List.map_map]
        rfl
      rw [← hnames]
      exact h hlen
  · rw [if_neg hlen, if_pos (Or.inl hlen)]
    exact .refl _ _ s

theorem refreshed_xread :
    Refreshed env.now (if keys.length = ids.length then keys.map fun k => (db, k) else [])
      (fun t => decide (t = .stream)) s (xread db keys ids count env s).2 :=
  refreshed_keysAndIds fun _ => refreshed_xreadLoop (keys.zip ids) s

theorem at_eq_streamIn (now : Int) (s : KvStore F) (db : Int) (key : Bytes) :
    Field.stream.at now s db key = streamIn (s.view now) db key := by
  have hview : s.view now db key = (s.live now db key).map Item.norm := rfl
  cases hl : s.live now db key with
  | none =>
    rw [at_of_none hl]
    unfold streamIn
    rw [hview, hl]
    rfl
  | some o =>
    rw [hl, Option.map_some] at hview
    by_cases ht : o.type = .stream
    · rw [streamIn_of_stream hview ht, at_of_live (L := Field.stream) hl ht]
    · rw [streamIn_of_ne hview ht]
      unfold Field.at
      rw [hl]
      exact if_neg ht

/-- The group is there wherever there is a stream. -/
def GroupThere (now : Int) (s : KvStore F) (db : Int) (group key : Bytes) : Prop :=
  ∀ st ∈ streamIn (s.view now) db key, st.groups[group]? ≠ none

theorem refreshed_xreadGroupOne (consumer id : Bytes) (count : Int)
    (h : GroupThere env.now s db group key) :
    Refreshed env.now [(db, key)] (fun t => decide (t = .stream)) s
        (xreadGroupOne db group consumer count key id env s).2 ∧
      ¬Failed (xreadGroupOne db group consumer count key id env s).1 ∧
      ∀ key', GroupThere env.now s db group key' →
        GroupThere env.now (xreadGroupOne db group consumer count key id env s).2 db group key' := by
  refine ⟨refreshed_onFoundField (L := .stream) fun st hst v' _ => ?_, ?_⟩
  · obtain ⟨gs, hgs⟩ := Option.ne_none_iff_exists'.mp (h st (at_eq_streamIn env.now s db key ▸ hst))
    simp only [readGroup_eq, hgs, Option.map_some]
  · cases hst : streamIn (s.view env.now) db key with
    | none =>
      obtain ⟨hr, hview⟩ := readGroupOne_none group consumer id count hst
      refine ⟨by rw [hr]; exact not_false, fun key' h' => ?_⟩
      unfold GroupThere
      rw [hview]
      exact h'
    | some st =>
      obtain ⟨gs, hgs⟩ := Option.ne_none_iff_exists'.mp (h st hst)
      obtain ⟨hr, -, hstream⟩ := readGroupOne_some consumer id count hst hgs
      refine ⟨by rw [hr]; exact not_false, fun key' h' st' hst' => ?_⟩
      rw [hstream] at hst'
      split at hst'
      · cases hst'
        simp [StreamObj.readFor]
      · exact h' st' hst'

theorem refreshed_xreadGroupLoop {group consumer : Bytes} (pairs : List (Bytes × Bytes)) (s : KvStore F)
    (h : ∀ p ∈ pairs, GroupThere env.now s db group p.1) :
    Refreshed env.now (pairs.map fun p => (db, p.1)) (fun t => decide (t = .stream)) s
      (xreadGroupLoop db group consumer count pairs env s).2 := by
  induction pairs generalizing s with
  | nil => exact .refl _ _ s
  | cons p pairs ih =>
    obtain ⟨key, id⟩ := p
    obtain ⟨hone, hok, hkeep⟩ := refreshed_xreadGroupOne consumer id count (h (key, id) List.mem_cons_self)
    cases hr : (xreadGroupOne db group consumer count key id env s).1 with
    | error e =>
      rw [hr] at hok
      exact absurd trivial hok
    | ok picked =>
      rw [(readGroupLoop_ok pairs hr).1]
      exact hone.trans (ih _ fun p hp => hkeep p.1 (h p (List.mem_cons_of_mem _ hp)))

theorem refreshed_xreadGroup {group consumer : Bytes}
    (h : keys.length ≠ ids.length ∨
      ∀ key ∈ keys, ∀ st ∈ Field.stream.at env.now s db key, st.groups[group]? ≠ none) :
    Refreshed env.now (if keys.length = ids.length then keys.map fun k => (db, k) else [])
      (fun t => decide (t = .stream)) s (xreadGroup db group consumer keys ids count env s).2 := by
  refine refreshed_keysAndIds fun hlen => refreshed_xreadGroupLoop (keys.zip ids) s fun p hp st hst => ?_
  rw [← at_eq_streamIn] at hst
  exact h.resolve_left (not_not.mpr hlen) p.1 (List.of_mem_zip hp).1 st hst

/-! ## Lemmas: ranges by score -/

theorem refreshed_zrangeByScore {min max : Bytes} {reverse : Bool} {offset count : Int}
    (h : (parseScoreBound (F := F) min).isNone ∨ (parseScoreBound (F := F) max).isNone ∨
      s.typeAt env.now db key ≠ some .zset) :
    Refreshed env.now
      (if (parseScoreBound (F := F) min).isNone || (parseScoreBound (F := F) max).isNone then [] else [(db, key)])
      (fun t => decide (t = .zset)) s (zrangeByScore db key min max reverse offset count env s).2 := by
  unfold zrangeByScore
  cases hmin : parseScoreBound (F := F) min with
  | none => exact .refl _ _ s
  | some bmin =>
    cases hmax : parseScoreBound (F := F) max with
    | none => exact .refl _ _ s
    | some bmax =>
      rw [hmin, hmax] at h
      exact refreshed_read (L := .zset) ((h.resolve_left (by simp)).resolve_left (by simp)) rfl

theorem refreshed_zcount {min max : Bytes}
    (h : (parseScoreBound (F := F) min).isNone ∨ (parseScoreBound (F := F) max).isNone ∨
      s.typeAt env.now db key ≠ some .zset) :
    Refreshed env.now
      (if (parseScoreBound (F := F) min).isNone || (parseScoreBound (F := F) max).isNone then [] else [(db, key)])
      (fun t => decide (t = .zset)) s (zcount db key min max env s).2 := by
  unfold zcount
  cases hmin : parseScoreBound (F := F) min with
  | none => exact .refl _ _ s
  | some bmin =>
    cases hmax : parseScoreBound (F := F) max with
    | none => exact .refl _ _ s
    | some bmax =>
      rw [hmin, hmax] at h
      exact refreshed_read (L := .zset) ((h.resolve_left (by simp)).resolve_left (by simp)) rfl

/-! ## Top theorem -/

/-- A fresh operation leaves what it accesses touched, and everything else as it was. -/
theorem refreshed_runOp (op : KvOp F α) (env : Env) (s : KvStore F) (h : op.Fresh env s) :
    Refreshed env.now (op.accessed env.now s) op.takes s (runOp op env s).2 := by
  cases op with
  -- strings
  | get db key => exact refreshed_read (L := .string) h rfl
  | set | setex => exact h.elim
  | setOpt => exact refreshed_setOpt h
  | getset => exact refreshed_getset h
  | getdel => exact refreshed_getdel
  | getex => exact refreshed_getex
  | incrBy => exact refreshed_other (L := .string) h
  | incrByFloat => exact refreshed_incrByFloat h
  | msetnx => exact refreshed_msetnx
  | append => exact refreshed_evict_bind (refreshed_onField (L := .string) (fun _ _ _ _ => rfl) fun _ _ => rfl)
  | strlen => exact refreshed_onField (L := .string) (fun _ _ _ _ => rfl) fun _ hv' => (by cases hv')
  -- keys
  | exist | type => exact still_onEntry (still_lookObj _)
  | existsMany db keys => exact refreshed_existsMany keys s
  | del db key => exact refreshed_delMany [key] s
  | delMany db keys => exact refreshed_delMany keys s
  | renameKey => exact refreshed_renameKey
  | persist db key =>
    refine still_onEntry ?_
    cases s.live env.now db key with
    | none => exact still_look _
    | some o => exact fun o' ho' => by cases ho'; exact ⟨rfl, o, rfl, rfl⟩
  | expire | pexpire | expireAt | pexpireAt => exact still_onEntry (still_expireBody _)
  | ttl | pttl => exact refreshed_ttlWith
  | dumpKey => exact .refl _ _ s
  | restoreKey => exact refreshed_restoreKey
  | watchToken => exact (Refreshed.refl _ _ s).congr (entry_watchToken env s _ _)
  -- databases
  | dbsize | expireCount | keys | scan => exact refreshed_filterDb _
  | flushdb db => exact refreshed_flushdb db env
  | flushall => exact .of_entry fun _ _ => .inr rfl
  | purgeExpiredActive => exact refreshed_purgeExpiredActive
  -- hashes
  | hset => exact refreshed_other (L := .hash) h
  | hsetnx => exact refreshed_hsetnx h
  | hsetFields =>
    exact refreshed_ifEmpty fun _ => refreshed_onField (L := .hash) (fun _ _ _ _ => rfl) fun _ _ => rfl
  | hmset => exact refreshed_hmset h
  | hget | hexists | hlen | hgetall | hscan => exact refreshed_read (L := .hash) h rfl
  | hkeys | hvals => exact refreshed_read (L := .hash) h rfl
  | hmget => exact refreshed_hmget h
  | hdel => exact refreshed_hdel h
  | hincrby => exact refreshed_hincrby h
  -- lists
  | listPush => exact refreshed_ifEmpty fun hne => refreshed_other (L := .list) (h.resolve_left hne)
  | listPop => exact refreshed_listPop h
  | listLen | listRange => exact refreshed_read (L := .list) h rfl
  | listIndex => exact refreshed_onField (L := .list) (fun _ _ _ _ => rfl) fun _ hv' => (by cases hv')
  | listTrim => exact refreshed_listTrim
  | listSet => exact refreshed_listSet h
  | listRem => exact refreshed_listRem
  | listInsert => exact refreshed_listInsert h
  | listRPopLPush => exact refreshed_listRPopLPush h
  -- sets
  | setAdd => exact refreshed_ifEmpty fun hne => refreshed_other (L := .sets) (h.resolve_left hne)
  | setRem => exact refreshed_setRem h
  | setMembers | setCard | setIsMember | sscan => exact refreshed_read (L := .sets) h rfl
  | spop => exact refreshed_spop h
  | setInter db keys => exact (refreshed_interLoop true keys none s).1
  | setUnion db keys => exact refreshed_unionLoop keys ∅ s
  | setDiff db keys =>
    have hnames : (KvOp.setDiff db keys : KvOp F _).accessed env.now s = [] := List.map_eq_nil_iff.mpr h
    rw [hnames]
    exact still_diffAll keys s
  | setInterStore db dest keys =>
    obtain ⟨hloop, hfailed⟩ : _ ∧ (Failed (interLoop false db keys none env s).1 ↔ _) :=
      refreshed_interLoop false keys none s
    exact refreshed_stored h (failed_map.trans hfailed) hloop
  | setUnionStore db dest keys =>
    exact refreshed_stored h (by rw [unionLoop_eq]; exact failed_foldOf _ _ _) (still_unionLoop keys ∅ s)
  | setDiffStore db dest keys =>
    cases keys with
    | nil => exact .refl _ _ s
    | cons key keys =>
      exact refreshed_stored (h.resolve_left (List.cons_ne_nil _ _)) (by rw [diffAll_eq]; exact failed_diffAllOf _)
        (still_diffAll (key :: keys) s)
  -- sorted sets
  | zadd => exact refreshed_ifEmpty fun hne => refreshed_other (L := .zset) (h.resolve_left hne)
  | zaddOpt => exact refreshed_zaddOpt
  | zrem => exact refreshed_zrem h
  | zscore | zcard | zrange | zrank | zscan => exact refreshed_read (L := .zset) h rfl
  | zrangeByScore => exact refreshed_zrangeByScore h
  | zcount => exact refreshed_zcount h
  | zincrby => exact refreshed_other (L := .zset) h
  | zpopmin | zpopmax => exact refreshed_zpopBest h
  -- streams
  | xadd => exact refreshed_xadd h
  | xlen | xrange => exact refreshed_onField (L := .stream) (fun _ _ _ _ => rfl) fun _ hv' => (by cases hv')
  | xdel => exact refreshed_xdel
  | xtrim => exact refreshed_xtrim h
  | xread => exact refreshed_xread
  | xgroupCreate => exact refreshed_xgroupCreate h
  | xgroupDestroy => exact refreshed_xgroupDestroy h
  | xreadGroup => exact refreshed_xreadGroup h
  | xack | xclaim => exact refreshed_onGroup h fun _ _ => rfl
  | xpendingSummary | xpendingRange => exact refreshed_onGroup_of_typeAt h
  -- settings
  | setMaxMemory | maxMemory | setMaxMemoryPolicy | maxMemoryPolicy | usedMemoryApprox | setRdbPath | getRdbPath
  | lastSaveUnixSec => exact .refl _ _ s
  | saveRdb written => cases written <;> exact .refl _ _ s
  | loadFromString data =>
    have hsame : (loadFromString data env s).2 = s := loadFromString_refused fun hok => (by
      have hfailed : Failed (loadFromString data env s).1 := h
      rw [hok] at hfailed
      exact hfailed)
    show Refreshed _ _ _ s (loadFromString data env s).2
    rw [hsame]
    exact .refl _ _ s

end KvStore

end Kv
