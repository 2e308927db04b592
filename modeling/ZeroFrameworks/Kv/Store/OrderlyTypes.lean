import ZeroFrameworks.Kv.Store.Hashes
import ZeroFrameworks.Kv.Store.OrderlyKeys
import ZeroFrameworks.Kv.Store.Sets
import ZeroFrameworks.Kv.Store.Streams
import ZeroFrameworks.Kv.Store.ZSets

/-!
# Operations on hashes, lists, sets, sorted sets and streams are orderly

For a container the point is that an operation which may leave nothing erases the entry instead.
Two operations on streams are exempt on keys: `xadd`, which makes the entry before it looks at the
id, and `xreadGroup`, which advances a group without telling WATCH.
-/

namespace Kv

variable {F V : Type} [Platform F] {α : Type}

omit [Platform F] in
/-- An operation that tells WATCH whenever it stores or erases. -/
theorem TidyField.of_bump {full : V → Prop} {exempt : Prop} {f : Option V → Out V α}
    (hs : ∀ v, (∀ x, v = some x → full x) → ∀ w, (f v).act = .put w → full w)
    (hb : ∀ v, (f v).bump = true ∨ (f v).act = .keep) : TidyField full exempt f where
  shape := hs
  told _ v := (hb v).imp_right fun hk => by rw [hk]; rfl

theorem isEmpty_insert (m : BMap V) (key : Bytes) (v : V) : (m.insert key v).isEmpty = false :=
  Std.ExtTreeMap.isEmpty_eq_false_iff.mpr Std.ExtTreeMap.insert_ne_empty

namespace KvStore

variable {X : Int → Bytes → Prop} {db : Int} {key : Bytes} {keys : List Bytes}

/-! ## Hashes -/

variable {pattern : Bytes} {cursor : Nat}

section Hashes

variable {field value : Bytes} {fields : List (Bytes × Bytes)}

theorem orderly_hset : Orderly Obj.Shaped X 1 (hset db key field value : StoreM F _) := by
  refine .onField Field.keeps_hash (.of_bump (fun v _ w hw => ?_) fun _ => .inl rfl)
  cases hw
  exact isEmpty_insert ..

theorem orderly_hget : Orderly Obj.Shaped X 1 (hget db key field : StoreM F _) :=
  .onField Field.keeps_hash (.of_keep fun _ => rfl)

theorem orderly_hdel : Orderly Obj.Shaped X 1 (hdel db key field : StoreM F _) := by
  refine .onField Field.keeps_hash (.of_bump (fun v _ w hw => ?_) fun v => ?_)
  · cases v with
    | none => cases hw
    | some h =>
      simp only at hw
      split at hw
      · cases hw
      next he =>
        cases hw
        simpa using he
  · cases v
    · exact .inr rfl
    · exact .inl rfl

theorem orderly_hexists : Orderly Obj.Shaped X 1 (hexists db key field : StoreM F _) :=
  .onField Field.keeps_hash (.of_keep fun _ => rfl)

theorem orderly_hlen : Orderly Obj.Shaped X 1 (hlen db key : StoreM F _) :=
  .onField Field.keeps_hash (.of_keep fun _ => rfl)

theorem orderly_hgetall : Orderly Obj.Shaped X 1 (hgetall db key : StoreM F _) :=
  .onField Field.keeps_hash (.of_keep fun _ => rfl)

theorem orderly_hmset : Orderly Obj.Shaped X fields.length (hmset db key fields : StoreM F _) := by
  induction fields with
  | nil => exact .pure _
  | cons f fields ih =>
    have h : Orderly Obj.Shaped X (1 + fields.length) (hmset db key (f :: fields) : StoreM F _) := by
      refine .bind orderly_hset ?_
      rintro (e | n)
      · exact (Orderly.pure _).mono (Nat.zero_le _)
      · exact ih
    refine h.mono ?_
    rw [List.length_cons]
    omega

theorem orderly_hmget {names : List Bytes} :
    Orderly Obj.Shaped X names.length (hmget db key names : StoreM F _) := by
  induction names with
  | nil => exact .pure _
  | cons f names ih =>
    have h : Orderly Obj.Shaped X (1 + (names.length + 0)) (hmget db key (f :: names) : StoreM F _) := by
      refine .bind orderly_hget ?_
      rintro (e | v)
      · exact (Orderly.pure _).mono (Nat.zero_le _)
      · refine .bind ih ?_
        rintro (e | vs) <;> exact .pure _
    refine h.mono ?_
    rw [List.length_cons]
    omega

theorem orderly_hkeys : Orderly Obj.Shaped X 1 (hkeys db key : StoreM F _) := orderly_hgetall.map

theorem orderly_hvals : Orderly Obj.Shaped X 1 (hvals db key : StoreM F _) := orderly_hgetall.map

theorem orderly_hincrby {delta : Int} :
    Orderly Obj.Shaped X 2 (hincrby db key field delta : StoreM F _) := by
  refine .bind .evict fun _ => .onField Field.keeps_hash (.of_bump (fun v _ w hw => ?_) fun v => ?_)
  · cases v with
    | none =>
      cases hw
      exact isEmpty_insert ..
    | some h =>
      simp only at hw
      split at hw
      · cases hw
      · cases hw
        exact isEmpty_insert ..
  · cases v with
    | none => exact .inl rfl
    | some h =>
      simp only
      split
      · exact .inr rfl
      · exact .inl rfl

theorem orderly_hsetnx : Orderly Obj.Shaped X 1 (hsetnx db key field value : StoreM F _) := by
  have hpeek : Orderly Obj.Shaped X 0 (.peek db key fun o =>
      o.any fun o => decide (o.type = .hash) && o.hash.contains field : StoreM F Bool) := by
    refine .peek fun o => ?_
    rcases o with _ | ⟨⟨t, _⟩, _⟩
    · rfl
    · cases t <;> rfl
  have h : Orderly Obj.Shaped X (0 + 1) (hsetnx db key field value : StoreM F _) :=
    .bind hpeek fun found => .ite (fun _ => (Orderly.pure _).mono (by decide)) fun _ => orderly_hset.map
  exact h

omit [Platform F] in
theorem isEmpty_insertFields (h : BMap Bytes) (hne : fields ≠ []) :
    (insertFields fields h).2.isEmpty = false := by
  have hfold : ∀ (l : List (Bytes × Bytes)) (a : Int × BMap Bytes), (a.2.isEmpty = false ∨ l ≠ []) →
      (l.foldl (fun a f => (if a.2.contains f.1 then a.1 else a.1 + 1, a.2.insert f.1 f.2)) a).2.isEmpty =
        false := by
    intro l
    induction l with
    | nil => exact fun a ha => ha.resolve_right fun h => h rfl
    | cons f l ih => exact fun a _ => ih _ (.inl (isEmpty_insert ..))
  exact hfold fields (0, h) (.inr hne)

theorem orderly_hsetFields : Orderly Obj.Shaped X 1 (hsetFields db key fields : StoreM F _) := by
  refine .ite (fun _ => (Orderly.pure _).mono (by decide)) fun hne => ?_
  refine .onField Field.keeps_hash (.of_bump (fun v _ w hw => ?_) fun _ => .inl rfl)
  cases hw
  exact isEmpty_insertFields _ fun h => hne (by rw [h]; rfl)

theorem orderly_hscan {count : Int} :
    Orderly Obj.Shaped X 1 (hscan db key cursor pattern count : StoreM F _) :=
  .onField Field.keeps_hash (.of_keep fun v => by cases v <;> rfl)

end Hashes

/-! ## Lists -/

variable {start stop : Int}

section Lists

variable {value : Bytes}

theorem orderly_listPush {values : List Bytes} {left : Bool} :
    Orderly Obj.Shaped X 1 (listPush db key values left : StoreM F _) := by
  refine .ite (fun _ => (Orderly.pure _).mono (by decide)) fun hne => ?_
  refine .onField Field.keeps_list (.of_bump (fun v _ w hw => ?_) fun _ => .inl rfl)
  cases hw
  unfold pushed
  split <;> simp_all

theorem orderly_listPop {left : Bool} :
    Orderly Obj.Shaped X 1 (listPop db key left : StoreM F _) := by
  refine .onField Field.keeps_list (.of_bump (fun v _ w hw => ?_) fun v => ?_)
  · unfold popBody at hw
    split at hw
    · cases hw
    · simp only at hw
      split at hw
      · cases hw
      next he =>
        cases hw
        simpa using he
  · unfold popBody
    split
    · exact .inr rfl
    · exact .inl rfl

theorem orderly_listLen : Orderly Obj.Shaped X 1 (listLen db key : StoreM F _) :=
  .onField Field.keeps_list (.of_keep fun _ => rfl)

theorem orderly_listRange :
    Orderly Obj.Shaped X 1 (listRange db key start stop : StoreM F _) :=
  .onField Field.keeps_list (.of_keep fun _ => rfl)

theorem orderly_listIndex {index : Int} :
    Orderly Obj.Shaped X 1 (listIndex db key index : StoreM F _) :=
  .onField Field.keeps_list (.of_keep fun _ => rfl)

theorem orderly_listTrim :
    Orderly Obj.Shaped X 1 (listTrim db key start stop : StoreM F _) := by
  refine .onField Field.keeps_list (.of_bump (fun v _ w hw => ?_) fun v => ?_)
  · cases v with
    | none => cases hw
    | some l =>
      simp only at hw
      split at hw
      · cases hw
      · split at hw
        · cases hw
        next he =>
          cases hw
          simpa using he
  · cases v with
    | none => exact .inr rfl
    | some l =>
      simp only
      split
      · exact .inl rfl
      · split <;> exact .inl rfl

theorem orderly_listSet {index : Int} :
    Orderly Obj.Shaped X 1 (listSet db key index value : StoreM F _) := by
  refine .onField Field.keeps_list (.of_bump (fun v hv w hw => ?_) fun v => ?_)
  · cases v with
    | none => cases hw
    | some l =>
      simp only at hw
      split at hw
      · cases hw
      · cases hw
        have hl := hv l rfl
        simpa using hl
  · cases v with
    | none => exact .inr rfl
    | some l =>
      simp only
      split
      · exact .inr rfl
      · exact .inl rfl

theorem orderly_listRem {count : Int} :
    Orderly Obj.Shaped X 1 (listRem db key count value : StoreM F _) := by
  refine .onField Field.keeps_list (.of_bump (fun v _ w hw => ?_) fun v => ?_)
  · cases v with
    | none => cases hw
    | some l =>
      simp only at hw
      split at hw
      · cases hw
      next he =>
        cases hw
        simpa using he
  · cases v with
    | none => exact .inr rfl
    | some l =>
      simp only
      split <;> exact .inl rfl

omit [Platform F] in
theorem isEmpty_insertAt {before : Bool} {pivot : Bytes} {l l' : List Bytes}
    (h : insertAt before pivot value l = some l') : l'.isEmpty = false := by
  cases l with
  | nil => cases h
  | cons x xs =>
    unfold insertAt at h
    split at h
    · cases h
      split <;> rfl
    · obtain ⟨ys, -, rfl⟩ := Option.map_eq_some_iff.mp h
      rfl

theorem orderly_listInsert {before : Bool} {pivot : Bytes} :
    Orderly Obj.Shaped X 1 (listInsert db key before pivot value : StoreM F _) := by
  refine .onField Field.keeps_list (.of_bump (fun v _ w hw => ?_) fun v => ?_)
  · split at hw
    · cases hw
    next l hl =>
      cases hw
      obtain ⟨l0, -, hl⟩ := Option.bind_eq_some_iff.mp hl
      exact isEmpty_insertAt hl
  · split
    · exact .inr rfl
    · exact .inl rfl

theorem orderly_listRPopLPush {src dst : Bytes} :
    Orderly Obj.Shaped X 2 (listRPopLPush db src dst : StoreM F _) := by
  refine .bind (k := 1) orderly_listPop ?_
  rintro (e | _ | value)
  · exact (Orderly.pure _).mono (by decide)
  · exact (Orderly.pure _).mono (by decide)
  · refine .bind (k := 0) orderly_listPush ?_
    rintro (e | n) <;> exact .pure _

end Lists

/-! ## Sets -/

variable {member : Bytes}

section Sets

variable {members : List Bytes} {touch : Bool}

omit [Platform F] in
theorem isEmpty_insertMembers (a : BSet) (hne : members ≠ []) :
    (insertMembers members a).2.isEmpty = false := by
  have hfold : ∀ (l : List Bytes) (r : Int × BSet), (r.2.isEmpty = false ∨ l ≠ []) →
      (l.foldl (fun r m => (if r.2.contains m then r.1 else r.1 + 1, r.2.insert m)) r).2.isEmpty =
        false := by
    intro l
    induction l with
    | nil => exact fun r hr => hr.resolve_right fun h => h rfl
    | cons m l ih =>
      exact fun r _ => ih _ (.inl (Std.ExtTreeSet.isEmpty_eq_false_iff.mpr Std.ExtTreeSet.insert_ne_empty))
  exact hfold members (0, a) (.inr hne)

theorem orderly_setAdd : Orderly Obj.Shaped X 1 (setAdd db key members : StoreM F _) := by
  refine .ite (fun _ => (Orderly.pure _).mono (by decide)) fun hne => ?_
  refine .onField Field.keeps_sets (.of_bump (fun v _ w hw => ?_) fun _ => .inl rfl)
  cases hw
  exact isEmpty_insertMembers _ fun h => hne (by rw [h]; rfl)

theorem orderly_setRem : Orderly Obj.Shaped X 1 (setRem db key members : StoreM F _) := by
  refine .ite (fun _ => (Orderly.pure _).mono (by decide)) fun _ => ?_
  refine .onField Field.keeps_sets (.of_bump (fun v _ w hw => ?_) fun v => ?_)
  · cases v with
    | none => cases hw
    | some a =>
      simp only at hw
      split at hw
      · cases hw
      next he =>
        cases hw
        simpa using he
  · cases v
    · exact .inr rfl
    · exact .inl rfl

theorem orderly_setMembers : Orderly Obj.Shaped X 1 (setMembers db key : StoreM F _) :=
  .onField Field.keeps_sets (.of_keep fun _ => rfl)

theorem orderly_setCard : Orderly Obj.Shaped X 1 (setCard db key : StoreM F _) :=
  .onField Field.keeps_sets (.of_keep fun _ => rfl)

theorem orderly_setIsMember :
    Orderly Obj.Shaped X 1 (setIsMember db key member : StoreM F _) :=
  .onField Field.keeps_sets (.of_keep fun _ => rfl)

theorem orderly_sscan {count : Int} :
    Orderly Obj.Shaped X 1 (sscan db key cursor pattern count : StoreM F _) :=
  .onField Field.keeps_sets (.of_keep fun _ => rfl)

theorem orderly_spop : Orderly Obj.Shaped X 2 (spop db key : StoreM F _) := by
  refine .bind .evict fun _ => .withEnv fun env =>
    .onField Field.keeps_sets (.of_bump (fun v _ w hw => ?_) fun v => ?_)
  · split at hw
    · cases hw
    · split at hw
      · cases hw
      next he =>
        cases hw
        simpa using he
  · split
    · exact .inr rfl
    · split <;> exact .inl rfl

theorem orderly_source : Orderly Obj.Shaped X 1 (source touch db key : StoreM F _) := by
  refine .onFoundField Field.keeps_sets (.of_keep fun v => ?_)
  cases v <;> rfl

theorem orderly_interLoop {acc : Option BSet} :
    Orderly Obj.Shaped X keys.length (interLoop touch db keys acc : StoreM F _) := by
  induction keys generalizing acc with
  | nil => exact .pure _
  | cons key keys ih =>
    have h : Orderly Obj.Shaped X (1 + keys.length) (interLoop touch db (key :: keys) acc : StoreM F _) := by
      refine .bind orderly_source ?_
      rintro (e | _ | a)
      · exact (Orderly.pure _).mono (Nat.zero_le _)
      · exact (Orderly.pure _).mono (Nat.zero_le _)
      · exact ih
    refine h.mono ?_
    rw [List.length_cons]
    omega

theorem orderly_unionLoop {acc : BSet} :
    Orderly Obj.Shaped X keys.length (unionLoop touch db keys acc : StoreM F _) := by
  induction keys generalizing acc with
  | nil => exact .pure _
  | cons key keys ih =>
    have h : Orderly Obj.Shaped X (1 + keys.length) (unionLoop touch db (key :: keys) acc : StoreM F _) := by
      refine .bind orderly_source ?_
      rintro (e | _ | a)
      · exact (Orderly.pure _).mono (Nat.zero_le _)
      · exact ih
      · exact ih
    refine h.mono ?_
    rw [List.length_cons]
    omega

theorem orderly_diffLoop {acc : BSet} :
    Orderly Obj.Shaped X keys.length (diffLoop db keys acc : StoreM F _) := by
  induction keys generalizing acc with
  | nil => exact .pure _
  | cons key keys ih =>
    have h : Orderly Obj.Shaped X (1 + keys.length) (diffLoop db (key :: keys) acc : StoreM F _) := by
      refine .bind orderly_source ?_
      rintro (e | _ | a)
      · exact (Orderly.pure _).mono (Nat.zero_le _)
      · exact ih
      · exact ih
    refine h.mono ?_
    rw [List.length_cons]
    omega

theorem orderly_diffAll : Orderly Obj.Shaped X keys.length (diffAll db keys : StoreM F _) := by
  cases keys with
  | nil => exact .pure _
  | cons key keys =>
    have h : Orderly Obj.Shaped X (1 + keys.length) (diffAll db (key :: keys) : StoreM F _) := by
      refine .bind orderly_source ?_
      rintro (e | _ | a)
      · exact (Orderly.pure _).mono (Nat.zero_le _)
      · exact (Orderly.pure _).mono (Nat.zero_le _)
      · exact orderly_diffLoop
    refine h.mono ?_
    rw [List.length_cons]
    omega

theorem orderly_setInter : Orderly Obj.Shaped X keys.length (setInter db keys : StoreM F _) :=
  orderly_interLoop.map

theorem orderly_setUnion : Orderly Obj.Shaped X keys.length (setUnion db keys : StoreM F _) :=
  orderly_unionLoop.map

theorem orderly_setDiff : Orderly Obj.Shaped X keys.length (setDiff db keys : StoreM F _) :=
  orderly_diffAll.map

variable {dest : Bytes}

theorem orderly_storeSet {r : Except Bytes BSet} :
    Orderly Obj.Shaped X 1 (storeSet db dest r : StoreM F _) := by
  cases r with
  | error e => exact (Orderly.pure _).mono (by decide)
  | ok a =>
    refine .map (.onSlot (storeBody_norm a) (storeBody_act a) (fun o q hq => ?_) fun o => ?_)
    · unfold storeBody at hq
      split at hq
      · cases hq
      next ha =>
        cases hq
        constructor <;> simp_all
    · unfold storeBody
      split <;> rfl

theorem orderly_setInterStore :
    Orderly Obj.Shaped X (keys.length + 1) (setInterStore db dest keys : StoreM F _) :=
  .bind orderly_interLoop fun _ => orderly_storeSet

theorem orderly_setUnionStore :
    Orderly Obj.Shaped X (keys.length + 1) (setUnionStore db dest keys : StoreM F _) :=
  .bind orderly_unionLoop fun _ => orderly_storeSet

theorem orderly_setDiffStore :
    Orderly Obj.Shaped X (keys.length + 1) (setDiffStore db dest keys : StoreM F _) :=
  .ite (fun _ => (Orderly.pure _).mono (Nat.zero_le _)) fun _ =>
    .bind orderly_diffAll fun _ => orderly_storeSet

end Sets

/-! ## Sorted sets -/

variable {reverse : Bool}

section ZSets

variable {members : List (F × Bytes)}

theorem orderly_zaddOpt {opt : ZaddOptions} :
    Orderly Obj.Shaped X 1 (zaddOpt db key opt members : StoreM F _) := by
  refine .ite (fun _ => (Orderly.pure _).mono (by decide)) fun _ =>
    .ite (fun _ => (Orderly.pure _).mono (by decide)) fun _ =>
    .ite (fun _ => (Orderly.pure _).mono (by decide)) fun _ => ?_
  refine .onField Field.keeps_zset (.of_bump (fun v _ w hw => ?_) fun v => ?_)
  · split at hw
    · cases hw
    · simp only at hw
      split at hw
      · cases hw
      next he =>
        cases hw
        simpa using he
  · split
    · exact .inr rfl
    · simp only
      split <;> exact .inl rfl

omit [Platform F] in
theorem isEmpty_zadd (z : BMap F) (hne : members ≠ []) :
    (members.foldl (fun (a : Int × BMap F) pair =>
      (if a.2.contains pair.2 then a.1 else a.1 + 1, a.2.insert pair.2 pair.1)) (0, z)).2.isEmpty =
      false := by
  have hfold : ∀ (l : List (F × Bytes)) (a : Int × BMap F), (a.2.isEmpty = false ∨ l ≠ []) →
      (l.foldl (fun (a : Int × BMap F) pair =>
        (if a.2.contains pair.2 then a.1 else a.1 + 1, a.2.insert pair.2 pair.1)) a).2.isEmpty = false := by
    intro l
    induction l with
    | nil => exact fun a ha => ha.resolve_right fun h => h rfl
    | cons f l ih => exact fun a _ => ih _ (.inl (isEmpty_insert ..))
  exact hfold members (0, z) (.inr hne)

theorem orderly_zadd : Orderly Obj.Shaped X 1 (zadd db key members : StoreM F _) := by
  refine .ite (fun _ => (Orderly.pure _).mono (by decide)) fun hne => ?_
  refine .onField Field.keeps_zset (.of_bump (fun v _ w hw => ?_) fun _ => .inl rfl)
  cases hw
  exact isEmpty_zadd _ fun h => hne (by rw [h]; rfl)

theorem orderly_zrem {names : List Bytes} :
    Orderly Obj.Shaped X 1 (zrem db key names : StoreM F _) := by
  refine .ite (fun _ => (Orderly.pure _).mono (by decide)) fun _ => ?_
  refine .onField Field.keeps_zset (.of_bump (fun v _ w hw => ?_) fun v => ?_)
  · cases v with
    | none => cases hw
    | some z =>
      simp only at hw
      split at hw
      · cases hw
      next he =>
        cases hw
        simpa using he
  · cases v
    · exact .inr rfl
    · exact .inl rfl

theorem orderly_zscore : Orderly Obj.Shaped X 1 (zscore db key member : StoreM F _) :=
  .onField Field.keeps_zset (.of_keep fun _ => rfl)

theorem orderly_zcard : Orderly Obj.Shaped X 1 (zcard db key : StoreM F _) :=
  .onField Field.keeps_zset (.of_keep fun _ => rfl)

theorem orderly_zrange :
    Orderly Obj.Shaped X 1 (zrange db key start stop reverse : StoreM F _) :=
  .onField Field.keeps_zset (.of_keep fun _ => rfl)

theorem orderly_zincrby {increment : F} :
    Orderly Obj.Shaped X 1 (zincrby db key member increment : StoreM F _) := by
  refine .onField Field.keeps_zset (.of_bump (fun v _ w hw => ?_) fun v => ?_)
  · cases v <;> cases hw <;> exact isEmpty_insert ..
  · cases v <;> exact .inl rfl

theorem orderly_zrank :
    Orderly Obj.Shaped X 1 (zrank db key member reverse : StoreM F _) :=
  .onField Field.keeps_zset (.of_keep fun _ => rfl)

theorem orderly_zpopBest {better : F × Bytes → F × Bytes → Bool} :
    Orderly Obj.Shaped X 2 (zpopBest better db key : StoreM F _) := by
  refine .bind .evict fun _ => .onField Field.keeps_zset (.of_bump (fun v _ w hw => ?_) fun v => ?_)
  · split at hw
    · cases hw
    · split at hw
      · cases hw
      next he =>
        cases hw
        simpa using he
  · split
    · exact .inr rfl
    · split <;> exact .inl rfl

theorem orderly_zrangeByScore {min max : Bytes} {offset count : Int} :
    Orderly Obj.Shaped X 1 (zrangeByScore db key min max reverse offset count : StoreM F _) := by
  unfold zrangeByScore
  split
  · exact .onField Field.keeps_zset (.of_keep fun _ => rfl)
  · exact (Orderly.pure _).mono (by decide)

theorem orderly_zcount {min max : Bytes} :
    Orderly Obj.Shaped X 1 (zcount db key min max : StoreM F _) := by
  unfold zcount
  split
  · exact .onField Field.keeps_zset (.of_keep fun _ => rfl)
  · exact (Orderly.pure _).mono (by decide)

theorem orderly_zscan {count : Int} :
    Orderly Obj.Shaped X 1 (zscan db key cursor pattern count : StoreM F _) :=
  .onField Field.keeps_zset (.of_keep fun _ => rfl)

end ZSets

/-! ## Streams -/

section Streams

variable {id group consumer : Bytes} {ids : List Bytes} {fields : List (Bytes × Bytes)} {count : Int}
  {env : Env} {s : KvStore F} {db' : Int} {key' : Bytes}

omit [Platform F] in
theorem xaddBody_bump {now : Int} (v : Option StreamObj) :
    (xaddBody now (lit "*") fields v).bump = true := by
  unfold xaddBody
  rw [parseStreamIdToken_eq, if_pos rfl]
  rfl

/-- The key of an `xadd` whose id is refused. -/
def XaddRefused (db : Int) (key id : Bytes) (db' : Int) (key' : Bytes) : Prop :=
  At db key db' key' ∧ id ≠ lit "*"

theorem orderly_xadd : Orderly Obj.Shaped (XaddRefused db key id) 2
    (xadd db key id fields : StoreM F _) := by
  refine .ite (fun _ => (Orderly.pure _).mono (by decide)) fun _ => .bind .evict fun _ =>
    .withEnv fun env => .onField Field.keeps_stream ⟨fun _ _ _ _ => trivial, fun hx v => ?_⟩
  obtain rfl : id = lit "*" := by
    by_contra hid
    exact hx ⟨⟨rfl, rfl⟩, hid⟩
  exact .inl (xaddBody_bump v)

/-- An `xadd` whose id is refused is not told of when it makes the entry. -/
theorem noted_xadd (hdb : IsDb db') (hw : s.Watching key')
    (hb : s.version db' key' + s.epoch db' key' + 2 < 2 ^ 32)
    (h : XaddRefused db key id db' key' → fields ≠ [] → s.live env.now db key ≠ none) :
    Noted db' key' env.now 2 s (xadd db key id fields env s).2 := by
  by_cases hx : XaddRefused db key id db' key'
  · have hlive := h hx
    obtain ⟨⟨rfl, rfl⟩, hid⟩ := hx
    unfold xadd
    split
    · exact (Noted.refl hw).mono (by decide)
    next hne =>
      have hevict : Orderly Obj.Shaped (fun _ _ => False) 1 (evictIfNeededLocked : StoreM F Unit) := .evict
      have h1 := hevict.noted env s db' key' hdb (fun hf => hf) hw (by omega)
      simp only [StoreM.bind_apply, StoreM.withEnv]
      generalize (evictIfNeededLocked env s).2 = u at h1
      have hc : (StoreM.onField .stream db' key' (xaddBody env.now id fields) env u).2.counters =
          u.counters := by
        refine (counters_onEntry ..).trans ?_
        have hbump : (liftBody (Field.stream.body (.error wrongType) (xaddBody env.now id fields))
            (u.live env.now db' key')).bump = false := by
          cases u.live env.now db' key' with
          | none =>
            unfold liftBody Field.body
            simp only [Option.map_none, xaddBody_of_ne hid]
            rfl
          | some o =>
            unfold liftBody Field.body
            simp only [Option.map_some, xaddBody_of_ne hid]
            split <;> rfl
        rw [hbump]
        rfl
      cases hu : u.live env.now db' key' with
      | some o =>
        have hsame := same_onField (L := Field.stream) (f := xaddBody env.now id fields)
          (by rw [hu]; exact fun hn => by cases hn) fun v => by rw [xaddBody_of_ne hid]; rfl
        exact (h1.trans (.of_same h1.watching hsame hc)).mono (by decide)
      | none =>
        -- the key was evicted, which was told of
        refine (h1.of_told (fun hv he => ?_) hc).mono (by decide)
        have hcontent := h1.content hv he
        unfold content at hcontent
        rw [hu] at hcontent
        exact hlive (fun hnil => hne (by rw [hnil]; rfl)) (Option.map_eq_none_iff.mp hcontent.symm)
  · exact orderly_xadd.noted env s db' key' hdb hx hw hb

theorem orderly_xlen : Orderly Obj.Shaped X 1 (xlen db key : StoreM F _) :=
  .onField Field.keeps_stream (.of_keep fun _ => rfl)

theorem orderly_xrange {start stop : Bytes} :
    Orderly Obj.Shaped X 1 (xrange db key start stop count reverse : StoreM F _) :=
  .onField Field.keeps_stream (.of_keep fun _ => rfl)

theorem orderly_xdel : Orderly Obj.Shaped X 1 (xdel db key ids : StoreM F _) := by
  refine .onField Field.keeps_stream (.of_bump (fun _ _ _ _ => trivial) fun v => ?_)
  cases v with
  | none => exact .inr rfl
  | some st =>
    simp only
    split <;> exact .inl rfl

variable {reads : List (Bytes × Bytes)}

theorem orderly_xreadLoop :
    Orderly Obj.Shaped X reads.length (xreadLoop db count reads : StoreM F _) := by
  induction reads with
  | nil => exact .pure _
  | cons r reads ih =>
    have h : Orderly Obj.Shaped X (1 + (reads.length + 0))
        (xreadLoop db count (r :: reads) : StoreM F _) := by
      refine .bind (.onFoundField Field.keeps_stream (.of_keep fun v => ?_)) fun _ =>
        .bind ih fun _ => .pure _
      cases v <;> rfl
    refine h.mono ?_
    rw [List.length_cons]
    omega

omit [Platform F] in
theorem length_zip_le : (keys.zip ids).length ≤ keys.length := by
  rw [List.length_zip]
  exact Nat.min_le_left ..

theorem orderly_xread : Orderly Obj.Shaped X keys.length (xread db keys ids count : StoreM F _) :=
  .ite (fun _ => (Orderly.pure _).mono (Nat.zero_le _)) fun _ =>
    (orderly_xreadLoop.mono length_zip_le).map

theorem orderly_xgroupCreate {mkstream : Bool} :
    Orderly Obj.Shaped X 1 (xgroupCreate db key group id mkstream : StoreM F _) := by
  refine .onField Field.keeps_stream (.of_bump (fun _ _ _ _ => trivial) fun v => ?_)
  split
  · exact .inr rfl
  · simp only
    split
    · exact .inr rfl
    · exact .inl rfl

theorem orderly_xgroupDestroy :
    Orderly Obj.Shaped X 1 (xgroupDestroy db key group : StoreM F _) := by
  refine .onFieldOr Field.keeps_stream (.of_bump (fun _ _ _ _ => trivial) fun v => ?_)
  cases v with
  | none => exact .inr rfl
  | some st =>
    simp only
    split
    · exact .inl rfl
    · exact .inr rfl

theorem orderly_onGroup {f : StreamObj → StreamGroupState → Out StreamObj (Except Bytes α)}
    (hf : ∀ st gs, (f st gs).bump = true ∨ (f st gs).act = .keep) :
    Orderly Obj.Shaped X 1 (onGroup db key group f : StoreM F _) := by
  refine .onFieldOr Field.keeps_stream (.of_bump (fun _ _ _ _ => trivial) fun v => ?_)
  cases v with
  | none => exact .inr rfl
  | some st =>
    simp only
    cases st.groups[group]? with
    | none => exact .inr rfl
    | some gs => exact hf st gs

theorem orderly_xack : Orderly Obj.Shaped X 1 (xack db key group ids : StoreM F _) :=
  orderly_onGroup fun _ _ => .inl rfl

theorem orderly_xtrim {maxlen : Int} : Orderly Obj.Shaped X 1 (xtrim db key maxlen : StoreM F _) := by
  refine .ite (fun _ => (Orderly.pure _).mono (by decide)) fun _ => ?_
  refine .onField Field.keeps_stream (.of_bump (fun _ _ _ _ => trivial) fun v => ?_)
  cases v with
  | none => exact .inr rfl
  | some st =>
    simp only
    split
    · exact .inr rfl
    · exact .inl rfl

theorem orderly_xpendingSummary :
    Orderly Obj.Shaped X 1 (xpendingSummary db key group : StoreM F _) :=
  orderly_onGroup fun _ _ => .inr rfl

theorem orderly_xpendingRange {start stop only : Bytes} :
    Orderly Obj.Shaped X 1 (xpendingRange db key group start stop count only : StoreM F _) :=
  .withEnv fun _ => orderly_onGroup fun _ _ => .inr rfl

theorem orderly_xclaim {minIdleMs : Int} {force : Bool} :
    Orderly Obj.Shaped X 1 (xclaim db key group consumer minIdleMs ids force : StoreM F _) :=
  .withEnv fun _ => orderly_onGroup fun _ _ => .inl rfl

/-! ### Reading as a consumer of a group -/

/-- Some of the keys. -/
def AtAny (db : Int) (keys : List Bytes) (db' : Int) (key' : Bytes) : Prop := db' = db ∧ key' ∈ keys

/-- The key holds a stream with this group. -/
def HasGroup (now db : Int) (key group : Bytes) (s : KvStore F) : Prop :=
  ∃ o, s.content now db key = some o ∧ o.type = .stream ∧ o.streamGroups.contains group = true

theorem orderly_xreadGroupOne (hx : X db key) :
    Orderly Obj.Shaped X 1 (xreadGroupOne db group consumer count key id : StoreM F _) :=
  .withEnv fun _ => .onFoundField Field.keeps_stream ⟨fun _ _ _ _ => trivial, fun h => absurd hx h⟩

theorem orderly_xreadGroupLoop (hx : ∀ r ∈ reads, X db r.1) :
    Orderly Obj.Shaped X reads.length
      (xreadGroupLoop db group consumer count reads : StoreM F _) := by
  induction reads with
  | nil => exact .pure _
  | cons r reads ih =>
    have h : Orderly Obj.Shaped X (1 + (reads.length + 0))
        (xreadGroupLoop db group consumer count (r :: reads) : StoreM F _) := by
      refine .bind (orderly_xreadGroupOne (hx r List.mem_cons_self)) ?_
      rintro (e | picked)
      · exact (Orderly.pure _).mono (Nat.zero_le _)
      · refine .bind (ih fun r hr => hx r (List.mem_cons_of_mem _ hr)) ?_
        rintro (e | out) <;> exact .pure _
    refine h.mono ?_
    rw [List.length_cons]
    omega

theorem orderly_xreadGroup : Orderly Obj.Shaped (AtAny db keys) keys.length
    (xreadGroup db group consumer keys ids count : StoreM F _) := by
  refine .ite (fun _ => (Orderly.pure _).mono (Nat.zero_le _)) fun _ => ?_
  refine (orderly_xreadGroupLoop fun r hr => ?_).mono length_zip_le
  exact ⟨rfl, (List.of_mem_zip hr).1⟩

/-- What `xreadGroup` does to the entry of one key. -/
def readGroupBody (now : Int) (group consumer : Bytes) (count : Int) (id : Bytes) (o : Item F) :
    Out (Item F) (Except Bytes (List StreamEntry)) :=
  (Field.stream.body (.ok []) (fun v => v.elim { reply := .ok [] } fun st =>
    match readGroup now group consumer id count st with
    | none => { reply := .error noGroup }
    | some (st', picked) => { act := .put st', touch := true, reply := .ok picked }) (some o.toObj)).map
      fun v => { v with expireAtMs := o.expireAtMs }

theorem xreadGroupOne_eq (env : Env) (s : KvStore F) :
    xreadGroupOne db group consumer count key id env s =
      s.onFound env.now db key (.ok []) (readGroupBody env.now group consumer count id) := rfl

omit [Platform F] in
theorem readGroupBody_bump {now : Int} (o : Item F) :
    (readGroupBody now group consumer count id o).bump = false := by
  unfold readGroupBody Field.body
  simp only
  split
  · simp only [Option.elim_some]
    split <;> rfl
  · rfl

omit [Platform F] in
theorem readGroupBody_keep {now : Int} {o : Item F}
    (h : o.type = .stream → o.streamGroups.contains group = false) :
    (readGroupBody now group consumer count id o).act = .keep := by
  unfold readGroupBody Field.body
  simp only
  split
  next ht =>
    have hg : (Field.stream.get o.toObj).groups[group]? = none := by
      refine Std.ExtTreeMap.getElem?_eq_none fun hm => ?_
      have hc : o.streamGroups.contains group = true := Std.ExtTreeMap.contains_iff_mem.mpr hm
      rw [h ht] at hc
      cases hc
    simp only [Option.elim_some, readGroup, hg, Option.map_none]
    rfl
  · rfl

theorem xreadGroupOne_quiet (env : Env) (s : KvStore F)
    (h : At db key db' key' → ¬HasGroup env.now db key group s) :
    (xreadGroupOne db group consumer count key id env s).2.counters = s.counters ∧
      (xreadGroupOne db group consumer count key id env s).2.content env.now db' key' =
        s.content env.now db' key' := by
  rw [xreadGroupOne_eq]
  constructor
  · rw [counters_onFound]
    cases s.live env.now db key with
    | none => rfl
    | some o =>
      rw [Option.elim_some, readGroupBody_bump]
      rfl
  · by_cases hk : db' = db ∧ key' = key
    · have hno := h hk
      obtain ⟨rfl, rfl⟩ := hk
      apply content_of_live
      rw [item_onFound, if_pos ⟨rfl, rfl⟩]
      cases hl : s.live env.now db' key' with
      | none => rfl
      | some o =>
        rw [Option.bind_some, readGroupBody_keep fun ht => ?_]
        · rfl
        · by_contra hc
          have hcon : s.content env.now db' key' = some o.toObj.norm := by
            unfold content
            rw [hl]
            rfl
          refine hno ⟨_, hcon, o.toObj.norm_type.trans ht, ?_⟩
          have hg : o.toObj.norm.streamGroups = o.streamGroups := by
            unfold Obj.norm
            rw [ht]
          rw [hg]
          exact (Bool.not_eq_false _).mp hc
    · apply content_of_item
      rw [item_onFound, if_neg hk]

theorem xreadGroupLoop_quiet (env : Env) (s : KvStore F)
    (h : db' = db → key' ∈ reads.map Prod.fst → ¬HasGroup env.now db' key' group s) :
    (xreadGroupLoop db group consumer count reads env s).2.counters = s.counters ∧
      (xreadGroupLoop db group consumer count reads env s).2.content env.now db' key' =
        s.content env.now db' key' := by
  induction reads generalizing s with
  | nil => exact ⟨rfl, rfl⟩
  | cons r reads ih =>
    obtain ⟨hc, hcont⟩ : (xreadGroupOne db group consumer count r.1 r.2 env s).2.counters = s.counters ∧
        (xreadGroupOne db group consumer count r.1 r.2 env s).2.content env.now db' key' =
          s.content env.now db' key' := by
      refine xreadGroupOne_quiet env s ?_
      rintro ⟨rfl, rfl⟩
      exact h rfl List.mem_cons_self
    have hrest := ih (xreadGroupOne db group consumer count r.1 r.2 env s).2 (by
      intro hd hm hg
      obtain ⟨o, ho, hgroup⟩ := hg
      exact h hd (List.mem_cons_of_mem _ hm) ⟨o, hcont ▸ ho, hgroup⟩)
    unfold xreadGroupLoop
    simp only [StoreM.bind_apply]
    cases (xreadGroupOne db group consumer count r.1 r.2 env s).1 with
    | error e => exact ⟨hc, hcont⟩
    | ok picked =>
      have hstep := And.intro (hrest.1.trans hc) (hrest.2.trans hcont)
      simp only [StoreM.bind_apply]
      cases (xreadGroupLoop db group consumer count reads env
        (xreadGroupOne db group consumer count r.1 r.2 env s).2).1 <;> exact hstep

theorem noted_xreadGroup (hw : s.Watching key')
    (h : AtAny db keys db' key' → ¬HasGroup env.now db' key' group s) :
    Noted db' key' env.now 0 s (xreadGroup db group consumer keys ids count env s).2 := by
  unfold xreadGroup
  split
  · exact .refl hw
  · have hquiet : db' = db → key' ∈ (keys.zip ids).map Prod.fst → ¬HasGroup env.now db' key' group s := by
      intro hd hm
      obtain ⟨r, hr, rfl⟩ := List.mem_map.mp hm
      exact h ⟨hd, (List.of_mem_zip hr).1⟩
    obtain ⟨hc, hcont⟩ : (xreadGroupLoop db group consumer count (keys.zip ids) env s).2.counters =
        s.counters ∧ _ := xreadGroupLoop_quiet env s hquiet
    obtain ⟨hv, he, hwatch⟩ := counted_congr hc db' key'
    exact ⟨hwatch.mpr hw, by omega, by omega, by omega, fun _ _ => hcont⟩

end Streams

end KvStore

end Kv
