import ZeroFrameworks.Kv.Store.Field
import ZeroFrameworks.Kv.Store.Watch

/-!
# What every operation of the store keeps to

`Orderly P X n m` gathers what the results about runs of operations need of a computation `m`:

    alike    on stores that differ in expired entries only, two runs reply alike and leave stores that
             differ in expired entries only
    keeps    if all entries satisfy P then so they do afterwards
    noted    WATCH is told of a changed key, unless X exempts the key, in at most n steps

The rules below give it for a computation from its parts; for an operation on one key, from its
body.  `P` is about values, expired or not; `Obj.Shaped` is the one the operations keep.
-/

namespace Kv

variable {F : Type} {α β V : Type}

/-! ## Shapes -/

/-- Only the component of the entry's own type is non-empty, and a container is never empty. -/
structure Obj.Shaped (o : Obj F) : Prop where
  value : o.type ≠ .string → o.value = []
  hash : o.hash.isEmpty = true ↔ o.type ≠ .hash
  list : o.list.isEmpty = true ↔ o.type ≠ .list
  set : o.set.isEmpty = true ↔ o.type ≠ .set
  zset : o.zset.isEmpty = true ↔ o.type ≠ .zset
  stream : o.type ≠ .stream → o.stream = []

/-- Values of a type that `P` allows: `full` ones, stored in an entry of the type or in a new one. -/
structure Field.Keeps (L : Field F V) (P : Obj F → Prop) (full : V → Prop) : Prop where
  get : ∀ o, P o → o.type = L.type → full (L.get o)
  set : ∀ v o, P o → o.type = L.type → full v → P (L.set v o)
  fresh : ∀ v, full v → P (L.set v { type := L.type })

namespace Field

theorem keeps_string : (string : Field F _).Keeps Obj.Shaped fun _ => True where
  get _ _ _ := trivial
  set v o ho ht _ :=
    ⟨fun h => absurd ht h, ho.hash, ho.list, ho.set, ho.zset, ho.stream⟩
  fresh v _ := by
    constructor <;> simp [string]

theorem keeps_hash : (hash : Field F _).Keeps Obj.Shaped fun h => h.isEmpty = false where
  get o ho ht := by
    exact Bool.eq_false_iff.mpr (mt ho.hash.mp (not_not_intro ht))
  set v o ho ht hv :=
    ⟨ho.value, by simp_all [hash], ho.list, ho.set, ho.zset, ho.stream⟩
  fresh v hv := by
    constructor <;> simp_all [hash]

theorem keeps_list : (list : Field F _).Keeps Obj.Shaped fun l => l.isEmpty = false where
  get o ho ht := by
    exact Bool.eq_false_iff.mpr (mt ho.list.mp (not_not_intro ht))
  set v o ho ht hv :=
    ⟨ho.value, ho.hash, by simp_all [list], ho.set, ho.zset, ho.stream⟩
  fresh v hv := by
    constructor <;> simp_all [list]

theorem keeps_sets : (sets : Field F _).Keeps Obj.Shaped fun a => a.isEmpty = false where
  get o ho ht := by
    exact Bool.eq_false_iff.mpr (mt ho.set.mp (not_not_intro ht))
  set v o ho ht hv :=
    ⟨ho.value, ho.hash, ho.list, by simp_all [sets], ho.zset, ho.stream⟩
  fresh v hv := by
    constructor <;> simp_all [sets]

theorem keeps_zset : (zset : Field F _).Keeps Obj.Shaped fun z => z.isEmpty = false where
  get o ho ht := by
    exact Bool.eq_false_iff.mpr (mt ho.zset.mp (not_not_intro ht))
  set v o ho ht hv :=
    ⟨ho.value, ho.hash, ho.list, ho.set, by simp_all [zset], ho.stream⟩
  fresh v hv := by
    constructor <;> simp_all [zset]

theorem keeps_stream : (stream : Field F _).Keeps Obj.Shaped fun _ => True where
  get _ _ _ := trivial
  set v o ho ht _ :=
    ⟨ho.value, ho.hash, ho.list, ho.set, ho.zset, fun h => absurd ht h⟩
  fresh v _ := by
    constructor <;> simp [stream]

end Field

/-! ## Orderly computations -/

variable [Platform F]

/-- Every entry of the store, expired or not, satisfies `P`. -/
def KvStore.All (P : Obj F → Prop) (s : KvStore F) : Prop :=
  ∀ db key o, s.item db key = some o → P o.toObj

/-- The stores differ in expired entries only, and there is no memory limit. -/
structure SameView (now : Int) (s t : KvStore F) : Prop where
  conf : s.conf = t.conf
  unlimited : s.conf.maxmemory ≤ 0
  counters : s.counters = t.counters
  view : s.view now = t.view now

namespace SameView

variable {now : Int} {s t u : KvStore F}

theorem refl (h : s.conf.maxmemory ≤ 0) : SameView now s s := ⟨rfl, h, rfl, rfl⟩

theorem symm (h : SameView now s t) : SameView now t s :=
  ⟨h.conf.symm, h.conf ▸ h.unlimited, h.counters.symm, h.view.symm⟩

theorem trans (h : SameView now s t) (h' : SameView now t u) : SameView now s u :=
  ⟨h.conf.trans h'.conf, h.unlimited, h.counters.trans h'.counters, h.view.trans h'.view⟩

theorem live (h : SameView now s t) (db : Int) (key : Bytes) :
    (s.live now db key).map Item.norm = (t.live now db key).map Item.norm :=
  congrFun (congrFun h.view db) key

theorem of_same (hu : s.conf.maxmemory ≤ 0) (h : Same now s t) (hc : t.counters = s.counters) :
    SameView now s t :=
  ⟨h.conf.symm, hu, hc.symm, h.view.symm⟩

end SameView

/-- What the results about runs need of a computation on the store. -/
structure Orderly (P : Obj F → Prop) (X : Int → Bytes → Prop) (n : Nat) (m : StoreM F α) : Prop where
  alike : ∀ env s t, SameView env.now s t →
    (m env s).1 = (m env t).1 ∧ SameView env.now (m env s).2 (m env t).2
  keeps : ∀ env s, s.All P → (m env s).2.All P
  noted : ∀ env s db key, IsDb db → ¬X db key → s.Watching key →
    s.version db key + s.epoch db key + n < 2 ^ 32 → Noted db key env.now n s (m env s).2

namespace Orderly

variable {P : Obj F → Prop} {X : Int → Bytes → Prop} {n k : Nat}

theorem pure (a : α) : Orderly P X 0 (Pure.pure a : StoreM F α) where
  alike _ _ _ h := ⟨rfl, h⟩
  keeps _ _ h := h
  noted _ _ _ _ _ _ hw _ := .refl hw

variable {m : StoreM F α}

theorem mono (h : Orderly P X n m) (hn : n ≤ k) : Orderly P X k m where
  alike := h.alike
  keeps := h.keeps
  noted env s db key hdb hx hw hb := (h.noted env s db key hdb hx hw (by omega)).mono hn

theorem bind {f : α → StoreM F β} (hm : Orderly P X n m)
    (hf : ∀ a, Orderly P X k (f a)) : Orderly P X (n + k) (m >>= f) where
  alike env s t h := by
    obtain ⟨hr, hs⟩ := hm.alike env s t h
    simp only [StoreM.bind_apply, hr]
    exact (hf _).alike env _ _ hs
  keeps env s h := (hf _).keeps env _ (hm.keeps env s h)
  noted env s db key hdb hx hw hb := by
    have h1 := hm.noted env s db key hdb hx hw (by omega)
    have hbound := h1.bound
    exact h1.trans ((hf _).noted env _ db key hdb hx h1.watching (by omega))

theorem map {f : α → β} (hm : Orderly P X n m) : Orderly P X n (f <$> m) where
  alike env s t h := by
    obtain ⟨hr, hs⟩ := hm.alike env s t h
    exact ⟨by simp only [StoreM.map_apply, hr], hs⟩
  keeps := hm.keeps
  noted := hm.noted

theorem ite {c : Prop} [Decidable c] {m m' : StoreM F α} (h : c → Orderly P X n m)
    (h' : ¬c → Orderly P X n m') : Orderly P X n (if c then m else m') := by
  split
  next hc => exact h hc
  next hc => exact h' hc

theorem withEnv {f : Env → StoreM F α} (h : ∀ env, Orderly P X n (f env)) :
    Orderly P X n (StoreM.withEnv f) where
  alike env s t hst := (h env).alike env s t hst
  keeps env s hs := (h env).keeps env s hs
  noted env s := (h env).noted env s

theorem peek {db : Int} {key : Bytes} {f : Option (Item F) → α} (hf : ∀ o, f (o.map Item.norm) = f o) :
    Orderly P X 0 (StoreM.peek db key f) where
  alike env s t h := by
    refine ⟨?_, h⟩
    unfold StoreM.peek
    rw [← hf, h.live db key, hf]
  keeps _ _ h := h
  noted _ _ _ _ _ _ hw _ := .refl hw

end Orderly

/-! ## Operations on one key -/

namespace KvStore

variable {now : Int} {s s' : KvStore F} {db : Int} {key : Bytes}

theorem content_of_item (h : s'.item db key = s.item db key) :
    s'.content now db key = s.content now db key := by
  unfold content live
  rw [h]

theorem content_of_live (h : (s'.item db key).map Item.norm = (s.live now db key).map Item.norm) :
    s'.content now db key = s.content now db key := by
  have hl : (s'.live now db key).map Item.norm = (s.live now db key).map Item.norm := by
    rw [live_map_norm, h]
    cases hs : s.live now db key with
    | none => rfl
    | some o =>
      have hex := (Option.filter_eq_some_iff.mp hs).2
      exact Option.filter_eq_some_iff.mpr ⟨rfl, hex⟩
  rw [content_eq, content_eq]
  exact congrArg (Option.map fun o => o.toObj) hl

end KvStore

theorem Noted.of_bumpIf {db db' : Int} {key key' : Bytes} {now : Int} {b : Bool} {s s' : KvStore F}
    (hw : s.Watching key) (hb : s.version db key + s.epoch db key + 1 < 2 ^ 32)
    (hc : s'.counters = bumpIf F s.counters db' key' b)
    (hsame : ¬(b = true ∧ db = db' ∧ key = key') → s'.content now db key = s.content now db key) :
    Noted db key now 1 s s' := by
  have hv : s'.version db key = _ := KvStore.version_bumpIf hc hw
  have he : s'.epoch db key = s.epoch db key := KvStore.epoch_bumpIf hc
  by_cases hk : b = true ∧ db = db' ∧ key = key'
  · rw [if_pos hk, Nat.mod_eq_of_lt (by omega)] at hv
    refine ⟨KvStore.watching_bumpIf hc hw, by omega, by omega, by omega, fun h => ?_⟩
    omega
  · rw [if_neg hk] at hv
    exact ⟨KvStore.watching_bumpIf hc hw, by omega, by omega, by omega, fun _ _ => hsame hk⟩

theorem Noted.of_same {db : Int} {key : Bytes} {now : Int} {s s' : KvStore F} (hw : s.Watching key)
    (h : Same now s s') (hc : s'.counters = s.counters) : Noted db key now 0 s s' := by
  obtain ⟨hv, he, hwatch⟩ := KvStore.counted_congr hc db key
  refine ⟨hwatch.mpr hw, by omega, by omega, by omega, fun _ _ => ?_⟩
  have hl := h.live db key
  rw [KvStore.content_eq, KvStore.content_eq]
  exact congrArg (Option.map fun o => o.toObj) hl

/-- Once WATCH has been told, what becomes of the contents does not matter. -/
theorem Noted.of_told {db : Int} {key : Bytes} {now : Int} {n : Nat} {s s' s'' : KvStore F}
    (h : Noted db key now n s s')
    (htold : s'.version db key = s.version db key → s'.epoch db key ≠ s.epoch db key)
    (hc : s''.counters = s'.counters) : Noted db key now n s s'' := by
  obtain ⟨hv, he, hwatch⟩ := KvStore.counted_congr hc db key
  have hversion := h.version
  have hepoch := h.epoch
  have hbound := h.bound
  exact ⟨hwatch.mpr h.watching, by omega, by omega, by omega, fun h1 h2 => absurd (he ▸ h2) (htold (hv ▸ h1))⟩

/-- What the body of an operation on one key does: it sees the visible part, keeps `P`, and tells
WATCH of changes unless it is exempt. -/
structure TidyBody (P : Obj F → Prop) (exempt : Prop) (body : Option (Item F) → Out (Item F) α) :
    Prop where
  norm : ∀ o, (body (o.map Item.norm)).map Item.norm = (body o).map Item.norm
  shape : ∀ o, (∀ p, o = some p → P p.toObj) → ∀ q, (body o).act = .put q → P q.toObj
  told : ¬exempt → ∀ o, (body o).bump = true ∨
    ((body o).act.apply o).map Item.norm = o.map Item.norm

/-- Related bodies on stores that differ in expired entries only. -/
theorem SameView.onEntry {now db : Int} {key : Bytes} {s t : KvStore F}
    {b b' : Option (Item F) → Out (Item F) α} (h : SameView now s t) (hb : BodyRel b b') :
    (s.onEntry now db key b).1 = (t.onEntry now db key b').1 ∧
      SameView now (s.onEntry now db key b).2 (t.onEntry now db key b').2 := by
  have hl := h.live db key
  have hbody := hb _ _ hl
  have happ := apply_map_norm hbody hl
  refine ⟨?_, ?_, ?_, ?_, ?_⟩
  · have hr := congrArg Out.reply hbody
    rw [KvStore.onEntry_reply, KvStore.onEntry_reply]
    exact hr
  · rw [KvStore.conf_onEntry, KvStore.conf_onEntry, h.conf]
  · rw [KvStore.conf_onEntry]
    exact h.unlimited
  · have hbump := congrArg Out.bump hbody
    rw [KvStore.counters_onEntry, KvStore.counters_onEntry, h.counters]
    exact congrArg _ hbump
  · funext db' key'
    unfold KvStore.view
    rw [KvStore.live_map_norm, KvStore.live_map_norm, KvStore.item_onEntry, KvStore.item_onEntry]
    split
    · rw [happ]
    · have hv := h.live db' key'
      rwa [KvStore.live_map_norm, KvStore.live_map_norm] at hv

theorem KvStore.All.onEntry {P : Obj F → Prop} {now db : Int} {key : Bytes} {s : KvStore F}
    {body : Option (Item F) → Out (Item F) α} (hs : s.All P)
    (hb : ∀ q, (body (s.live now db key)).act = .put q → P q.toObj) :
    (s.onEntry now db key body).2.All P := by
  intro db' key' o ho
  rw [KvStore.item_onEntry] at ho
  split at ho
  · cases ha : (body (s.live now db key)).act with
    | keep =>
      rw [ha] at ho
      exact hs db key o (KvStore.item_of_live ho)
    | erase => rw [ha] at ho; cases ho
    | put q =>
      rw [ha] at ho
      obtain rfl : q = o := by simpa [Act.apply] using ho
      exact hb q ha
  · exact hs db' key' o ho

theorem Noted.onEntry {now db db' : Int} {key key' : Bytes} {s : KvStore F}
    {body : Option (Item F) → Out (Item F) α} (hw : s.Watching key)
    (hbound : s.version db key + s.epoch db key + 1 < 2 ^ 32)
    (hb : db = db' ∧ key = key' → (body (s.live now db' key')).bump = true ∨
      (s.onEntry now db' key' body).2.content now db key = s.content now db key) :
    Noted db key now 1 s (s.onEntry now db' key' body).2 := by
  refine .of_bumpIf hw hbound (KvStore.counters_onEntry ..) fun hk => ?_
  by_cases hsame : db = db' ∧ key = key'
  · exact (hb hsame).resolve_left fun hbump => hk ⟨hbump, hsame⟩
  · apply KvStore.content_of_item
    rw [KvStore.item_onEntry, if_neg hsame]

namespace Orderly

variable {P : Obj F → Prop} {X : Int → Bytes → Prop} {n k : Nat}

theorem onEntry {db : Int} {key : Bytes} {body : Option (Item F) → Out (Item F) α}
    (hb : TidyBody P (X db key) body) : Orderly P X 1 (StoreM.onEntry db key body) where
  alike env s t h := h.onEntry fun o o' ho => by rw [← hb.norm, ho, hb.norm]
  keeps env s hs := hs.onEntry (hb.shape _ fun p hp => hs db key p (KvStore.item_of_live hp))
  noted env s db' key' _ hx hw hbound := by
    refine .onEntry hw hbound ?_
    rintro ⟨rfl, rfl⟩
    refine (hb.told hx (s.live env.now db' key')).imp_right fun heq => KvStore.content_of_live ?_
    rw [KvStore.item_onEntry, if_pos ⟨rfl, rfl⟩]
    exact heq

/-- Only the reply, the contents and the counters matter. -/
theorem congr {m m' : StoreM F α} (h : ∀ env s, (m env s).1 = (m' env s).1 ∧
      (m env s).2.conf = (m' env s).2.conf ∧ (m env s).2.item = (m' env s).2.item ∧
      (m env s).2.counters = (m' env s).2.counters)
    (hm : Orderly P X n m') : Orderly P X n m where
  alike env s t hst := by
    obtain ⟨hr1, hc1, hi1, hw1⟩ := h env s
    obtain ⟨hr2, hc2, hi2, hw2⟩ := h env t
    obtain ⟨hr, hs⟩ := hm.alike env s t hst
    refine ⟨by rw [hr1, hr2, hr], by rw [hc1, hc2, hs.conf], hc1 ▸ hs.unlimited, by
      rw [hw1, hw2, hs.counters], ?_⟩
    have hv := hs.view
    unfold KvStore.view KvStore.live at hv ⊢
    rw [hi1, hi2]
    exact hv
  keeps env s hs := by
    have hk := hm.keeps env s hs
    unfold KvStore.All at hk ⊢
    rw [(h env s).2.2.1]
    exact hk
  noted env s db key hdb hx hw hb := by
    obtain ⟨-, -, hi, hc⟩ := h env s
    have hn := hm.noted env s db key hdb hx hw hb
    obtain ⟨hv, he, hwatch⟩ := KvStore.counted_congr hc db key
    have hcont : (m env s).2.content env.now db key = (m' env s).2.content env.now db key :=
      KvStore.content_of_item (by rw [hi])
    refine ⟨hwatch.mpr hn.watching, hv ▸ hn.version, he ▸ hn.epoch, by rw [hv, he]; exact hn.bound, ?_⟩
    rw [hv, he, hcont]
    exact hn.content

theorem onFound {db : Int} {key : Bytes} {absent : α} {body : Item F → Out (Item F) α}
    (hb : TidyBody P (X db key) fun o => o.elim { reply := absent } body) :
    Orderly P X 1 (StoreM.onFound db key absent body) := by
  refine congr (fun env s => ?_) (onEntry hb)
  obtain ⟨hr, hc, hi⟩ := StoreM.onFound_like_onEntry db key absent body env s
  refine ⟨hr, hc, hi, ?_⟩
  unfold StoreM.onFound StoreM.onEntry
  rw [KvStore.counters_onFound, KvStore.counters_onEntry]
  cases s.live env.now db key <;> rfl

/-- An operation that replaces the entry, whatever was there, and always tells WATCH. -/
theorem onSlot {db : Int} {key : Bytes} {body : Option (Item F) → Out (Item F) α}
    (hn : ∀ o o', (body o).map Item.norm = (body o').map Item.norm) (hk : ∀ o, (body o).act ≠ .keep)
    (hp : ∀ o q, (body o).act = .put q → P q.toObj) (hbump : ∀ o, (body o).bump = true) :
    Orderly P X 1 (StoreM.onSlot db key body) where
  alike env s t h := by
    unfold StoreM.onSlot
    refine ⟨congrArg (fun out => out.reply) (hn _ _), ?_, ?_, ?_, ?_⟩
    · rw [KvStore.conf_onSlot, KvStore.conf_onSlot, h.conf]
    · rw [KvStore.conf_onSlot]
      exact h.unlimited
    · rw [KvStore.counters_onSlot, KvStore.counters_onSlot, hbump, hbump, h.counters]
    · funext db' key'
      unfold KvStore.view
      rw [KvStore.live_map_norm, KvStore.live_map_norm, KvStore.item_onSlot, KvStore.item_onSlot]
      split
      · rw [Out.apply_congr (hn _ (t.item db key)) (hk _) (hk _) _ (t.item db key)]
      · have hv := h.live db' key'
        rwa [KvStore.live_map_norm, KvStore.live_map_norm] at hv
  keeps env s hs := by
    intro db' key' o ho
    unfold StoreM.onSlot at ho
    rw [KvStore.item_onSlot] at ho
    split at ho
    · cases ha : (body (s.item db key)).act with
      | keep => exact absurd ha (hk _)
      | erase => rw [ha] at ho; cases ho
      | put q =>
        rw [ha] at ho
        obtain rfl : q = o := by simpa [Act.apply] using ho
        exact hp _ q ha
    · exact hs db' key' o ho
  noted env s db' key' _ _ hw hbound := by
    refine .of_bumpIf hw hbound (KvStore.counters_onSlot ..) fun hne => ?_
    have hother : ¬(db' = db ∧ key' = key) := fun h => hne ⟨hbump _, h⟩
    apply KvStore.content_of_item
    unfold StoreM.onSlot
    rw [KvStore.item_onSlot, if_neg hother]

end Orderly

/-! ## Operations on values -/

/-- As `TidyBody`, for an operation that leaves deadlines alone. -/
structure TidyObj (P : Obj F → Prop) (exempt : Prop) (body : Option (Obj F) → Out (Obj F) α) : Prop where
  norm : SteadyObj body
  shape : ∀ o, (∀ p, o = some p → P p) → ∀ q, (body o).act = .put q → P q
  told : ¬exempt → ∀ o, (body o).bump = true ∨ ((body o).act.apply o).map Obj.norm = o.map Obj.norm

variable {exempt : Prop}

omit [Platform F] in
theorem TidyObj.liftBody {P : Obj F → Prop} {body : Option (Obj F) → Out (Obj F) α}
    (h : TidyObj P exempt body) : TidyBody P exempt (liftBody body) where
  norm := h.norm.liftBody.norm
  shape o ho q hq := by
    unfold Kv.liftBody Out.map at hq
    cases ha : (body (o.map Item.toObj)).act <;> rw [ha] at hq <;> cases hq
    refine h.shape _ (fun p hp => ?_) _ ha
    obtain ⟨p', hp', rfl⟩ := Option.map_eq_some_iff.mp hp
    exact ho p' hp'
  told hx o := by
    rcases h.told hx (o.map Item.toObj) with hb | heq
    · exact .inl hb
    · right
      unfold Kv.liftBody
      cases ha : (body (o.map Item.toObj)).act <;> cases o <;>
        simp_all [Out.map, Act.map, Act.apply, Item.norm_eq_iff]

/-- What an operation on the values of one type does: it stores full values only, and tells WATCH
of changes unless it is exempt. -/
structure TidyField (full : V → Prop) (exempt : Prop) (f : Option V → Out V α) : Prop where
  shape : ∀ v, (∀ x, v = some x → full x) → ∀ w, (f v).act = .put w → full w
  told : ¬exempt → ∀ v, (f v).bump = true ∨ (f v).act.apply v = v

variable {f : Option V → Out V α}

omit [Platform F] in
theorem TidyField.of_keep {full : V → Prop}
    (h : ∀ v, (f v).act = .keep) : TidyField full exempt f where
  shape v _ w hw := by rw [h v] at hw; cases hw
  told _ v := .inr (by rw [h v]; rfl)

omit [Platform F] in
theorem TidyField.body {P : Obj F → Prop} {full : V → Prop} {L : Field F V}
    {refuse : α} (hL : L.Keeps P full) (h : TidyField full exempt f) :
    TidyObj P exempt (L.body refuse f) where
  norm := Field.steadyObj_body
  shape o ho q hq := by
    cases o with
    | none =>
      unfold Field.body Out.map at hq
      cases ha : (f none).act <;> simp only [ha, Act.map] at hq <;> cases hq
      exact hL.fresh _ (h.shape none (fun x hx => by cases hx) _ ha)
    | some o =>
      by_cases ht : o.type = L.type
      · rw [Field.body_of_type ht] at hq
        unfold Out.map at hq
        cases ha : (f (some (L.get o))).act <;> simp only [ha, Act.map] at hq <;> cases hq
        refine hL.set _ o (ho o rfl) ht (h.shape (some (L.get o)) (fun x hx => ?_) _ ha)
        cases hx
        exact hL.get o (ho o rfl) ht
      · rw [Field.body_of_ne ht] at hq
        cases hq
  told hx o := by
    by_cases hb : (L.body refuse f o).bump = true
    · exact .inl hb
    · right
      -- what is not bumped leaves the part of the value, hence the value
      have hsame : ∀ v, (f v).bump = false → (f v).act.apply v = v := fun v hv =>
        (h.told hx v).resolve_left (by rw [hv]; decide)
      cases o with
      | none =>
        have hv := hsame none (Bool.eq_false_iff.mpr hb)
        unfold Field.body Out.map
        cases ha : (f none).act <;> simp_all [Act.map, Act.apply]
      | some o =>
        by_cases ht : o.type = L.type
        · rw [Field.body_of_type ht] at hb ⊢
          have hv := hsame (some (L.get o)) (Bool.eq_false_iff.mpr hb)
          unfold Out.map
          cases ha : (f (some (L.get o))).act with
          | keep => rfl
          | erase => rw [ha] at hv; cases hv
          | put v =>
            rw [ha] at hv
            obtain rfl : v = L.get o := by simpa [Act.apply] using hv
            simp [Act.map, Act.apply, L.norm_set_get o ht]
        · rw [Field.body_of_ne ht]
          rfl

namespace Orderly

variable {P : Obj F → Prop} {X : Int → Bytes → Prop} {n k : Nat} {full : V → Prop} {L : Field F V}
  {db : Int} {key : Bytes}

theorem onObj {body : Option (Obj F) → Out (Obj F) α} (hb : TidyObj P (X db key) body) :
    Orderly P X 1 (StoreM.onObj db key body) := onEntry hb.liftBody

theorem onFieldOr {refuse : α} (hL : L.Keeps P full)
    (hf : TidyField full (X db key) f) : Orderly P X 1 (StoreM.onFieldOr L db key refuse f) :=
  onObj (hf.body hL)

theorem onField {f : Option V → Out V (Except Bytes α)} (hL : L.Keeps P full)
    (hf : TidyField full (X db key) f) : Orderly P X 1 (StoreM.onField L db key f) :=
  onFieldOr hL hf

theorem onFoundField {absent refuse : α} {f : V → Out V α} (hL : L.Keeps P full)
    (hf : TidyField full (X db key) fun v => v.elim { reply := absent } f) :
    Orderly P X 1 (StoreM.onFoundField L db key absent refuse f) := by
  have hbody : TidyObj P (X db key) (L.body refuse fun v => v.elim { reply := absent } f) := hf.body hL
  refine onFound ?_
  have heq : (fun o : Option (Item F) => o.elim { reply := absent } fun o =>
      (L.body refuse (fun v => v.elim { reply := absent } f) (some o.toObj)).map
        fun v => ({ v with expireAtMs := o.expireAtMs } : Item F)) =
      liftBody (L.body refuse fun v => v.elim { reply := absent } f) := by
    funext o
    cases o <;> rfl
  rw [heq]
  exact hbody.liftBody

end Orderly

/-! ## Eviction -/

namespace KvStore

theorem entry_of_mem_listing {order : List Bytes → List Bytes} {s : KvStore F} {i : Fin 16} {db : Int}
    {key : Bytes} {e : Entry F} (h : (i, db, key, e) ∈ s.listing order) :
    shardIdx F key = i ∧ s.entry db key = some e := by
  unfold listing at h
  obtain ⟨j, -, h⟩ := List.mem_flatMap.mp h
  obtain ⟨d, hd, h⟩ := List.mem_flatMap.mp h
  obtain ⟨k, -, h⟩ := List.mem_filterMap.mp h
  obtain ⟨e', he', heq⟩ := Option.map_eq_some_iff.mp h
  simp only [Prod.mk.injEq] at heq
  obtain ⟨rfl, rfl, rfl, rfl⟩ := heq
  have hl : (s.shards j).dbs.lookup d.1 = some d.2 := AList.mem_lookup_iff.mpr hd
  have hk : k ∈ d.2 := Std.ExtTreeMap.mem_iff_isSome_getElem?.mpr (by rw [he']; rfl)
  have hj := s.placed j d.1 d.2 k hl hk
  refine ⟨hj, ?_⟩
  rw [entry, dbMap, hj, hl]
  exact he'

variable {env : Env} {c : Candidate F}

theorem live_of_mem_unexpired {s : KvStore F} (h : c ∈ s.unexpired env) :
    s.live env.now c.db c.key = some c.entry.toItem := by
  unfold unexpired at h
  obtain ⟨h, hex⟩ := List.mem_filter.mp h
  obtain ⟨x, hx, rfl⟩ := List.mem_map.mp h
  have he := (entry_of_mem_listing hx).2
  unfold live item
  rw [he]
  exact Option.filter_eq_some_iff.mpr ⟨rfl, hex⟩

omit [Platform F] in
theorem mem_of_leastBy {f : Candidate F → Int} {l : List (Candidate F)}
    (h : leastBy f l = some c) : c ∈ l := by
  induction l generalizing c with
  | nil => cases h
  | cons d l ih =>
    unfold leastBy at h
    split at h
    · cases h
      exact List.mem_cons_self
    next d' hd' =>
      split at h
      · cases h
        exact List.mem_cons_of_mem _ (ih hd')
      · cases h
        exact List.mem_cons_self

theorem mem_of_victim {draw : Nat} {s : KvStore F}
    (h : s.victim env draw = some c) : c ∈ s.unexpired env := by
  unfold victim at h
  simp only at h
  have hsub : ∀ {l : List (Candidate F)} {p : Candidate F → Bool}, c ∈ (l.filter p).take 16 → c ∈ l :=
    fun hm => List.mem_of_mem_filter (List.mem_of_mem_take hm)
  split at h
  · exact hsub (List.mem_of_getElem? h)
  · split at h
    · exact hsub (mem_of_leastBy h)
    · split at h
      · exact hsub (mem_of_leastBy h)
      · exact hsub (List.mem_of_head? h)

theorem item_evict (s : KvStore F) (db db' : Int) (key key' : Bytes) :
    ((s.putEntry db key none).bumpWatchKey db key).item db' key' =
      if db' = db ∧ key' = key then none else s.item db' key' := by
  unfold item
  rw [entry_bumpWatchKey, entry_putEntry]
  split <;> rfl

theorem all_evictLoop {P : Obj F → Prop} (env : Env) (rounds : Nat) {s : KvStore F} (h : s.All P) :
    (evictLoop env rounds s).All P := by
  induction rounds generalizing s with
  | zero => exact h
  | succ rounds ih =>
    unfold evictLoop
    split
    · exact h
    · split
      · exact h
      · refine ih fun db key o ho => ?_
        rw [item_evict] at ho
        split at ho
        · cases ho
        · exact h db key o ho

theorem counters_evict (s : KvStore F) (db : Int) (key : Bytes) :
    ((s.putEntry db key none).bumpWatchKey db key).counters = bumpIf F s.counters db key true := by
  rw [counters_bumpWatchKey, counters_putEntry]

theorem noted_evict_other {now : Int} {s : KvStore F} {db db' : Int} {key key' : Bytes}
    (hne : ¬(db = db' ∧ key = key')) (hw : s.Watching key) :
    Noted db key now 0 s ((s.putEntry db' key' none).bumpWatchKey db' key') := by
  have hcount := counters_evict s db' key'
  have hv : _ = if _ then _ else s.version db key := version_bumpIf hcount hw
  have he : _ = s.epoch db key := epoch_bumpIf hcount
  rw [if_neg (fun h => hne h.2)] at hv
  refine ⟨watching_bumpIf hcount hw, by omega, by omega, by omega, fun _ _ => content_of_item ?_⟩
  rw [item_evict, if_neg hne]

theorem noted_evictLoop_absent {rounds : Nat} {s : KvStore F} {db : Int} {key : Bytes}
    (hl : s.live env.now db key = none) (hw : s.Watching key) :
    Noted db key env.now 0 s (evictLoop env rounds s) := by
  induction rounds generalizing s with
  | zero => exact .refl hw
  | succ rounds ih =>
    unfold evictLoop
    split
    · exact .refl hw
    · split
      · exact .refl hw
      next c hc =>
        have hlive := live_of_mem_unexpired (mem_of_victim hc)
        have hne : ¬(db = c.db ∧ key = c.key) := by
          rintro ⟨rfl, rfl⟩
          rw [hl] at hlive
          cases hlive
        have hone : Noted db key env.now 0 s _ := noted_evict_other hne hw
        refine hone.trans (ih ?_ hone.watching)
        unfold live at hl ⊢
        rw [item_evict, if_neg hne]
        exact hl

theorem noted_evictLoop {rounds : Nat} {s : KvStore F} {db : Int} {key : Bytes}
    (hw : s.Watching key) (hb : s.version db key + s.epoch db key + 1 < 2 ^ 32) :
    Noted db key env.now 1 s (evictLoop env rounds s) := by
  induction rounds generalizing s with
  | zero => exact (Noted.refl hw).mono (by decide)
  | succ rounds ih =>
    unfold evictLoop
    split
    · exact (Noted.refl hw).mono (by decide)
    · split
      · exact (Noted.refl hw).mono (by decide)
      next c hc =>
        by_cases hk : db = c.db ∧ key = c.key
        · have hone : Noted db key env.now 1 s ((s.putEntry c.db c.key none).bumpWatchKey c.db c.key) :=
            .of_bumpIf hw hb (counters_evict s c.db c.key) fun h => absurd ⟨rfl, hk⟩ h
          refine hone.trans (noted_evictLoop_absent ?_ hone.watching)
          unfold live
          rw [item_evict, if_pos hk]
          rfl
        · have hone : Noted db key env.now 0 s _ := noted_evict_other hk hw
          have hbound := hone.bound
          have hrest := hone.trans (ih hone.watching (by omega))
          rwa [Nat.zero_add] at hrest

end KvStore

theorem Orderly.evict {P : Obj F → Prop} {X : Int → Bytes → Prop} :
    Orderly P X 1 (KvStore.evictIfNeededLocked : StoreM F Unit) where
  alike env s t h := by
    have hs : s.conf.NoEvict := .inl h.unlimited
    have ht : t.conf.NoEvict := .inl (h.conf ▸ h.unlimited)
    rw [KvStore.evictIfNeededLocked_eq_of_noEvict env s hs,
      KvStore.evictIfNeededLocked_eq_of_noEvict env t ht]
    exact ⟨rfl, h⟩
  keeps env s h := by
    unfold KvStore.evictIfNeededLocked
    simp only
    split
    · exact h
    · exact KvStore.all_evictLoop env _ h
  noted env s db key _ _ hw hb := by
    unfold KvStore.evictIfNeededLocked
    simp only
    split
    · exact (Noted.refl hw).mono (by decide)
    · exact KvStore.noted_evictLoop hw hb

end Kv
