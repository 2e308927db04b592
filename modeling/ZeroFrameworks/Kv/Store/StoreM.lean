import ZeroFrameworks.Kv.Store.KvStore

/-!
# Store computations and what they do to the contents

`StoreM F α` is a computation on the store under an `Env`.  Two properties of such computations
carry all later results, and both are closed under sequencing:

    KeepsWhen I P m   a run of m under settings I whose reply satisfies P leaves the contents
                      as they were
    Det lo hi m       started on stores with the same live contents, at clock readings between lo
                      and hi, two runs of m reply alike and leave the same live contents

For an operation on one key they follow from its body alone (`KeepsWhen.onEntry`, `Det.onEntry`).
-/

namespace Kv

variable {F : Type} [Platform F] {α β : Type}

def StoreM (F : Type) [Platform F] (α : Type) := Env → KvStore F → α × KvStore F

namespace StoreM

instance : Monad (StoreM F) where
  pure a := fun _ s => (a, s)
  bind m f := fun env s => f (m env s).1 env (m env s).2

@[simp] theorem pure_apply (a : α) (env : Env) (s : KvStore F) :
    (pure a : StoreM F α) env s = (a, s) := rfl

@[simp] theorem bind_apply (m : StoreM F α) (f : α → StoreM F β) (env : Env) (s : KvStore F) :
    (m >>= f) env s = f (m env s).1 env (m env s).2 := rfl

@[simp] theorem map_apply (f : α → β) (m : StoreM F α) (env : Env) (s : KvStore F) :
    (f <$> m) env s = (f (m env s).1, (m env s).2) := rfl

/-- `findEntry` with the database created on the way, then `body`. -/
def onEntry (db : Int) (key : Bytes) (body : Option (Item F) → Out (Item F) α) : StoreM F α :=
  fun env s => s.onEntry env.now db key body

/-- As `onEntry`, for operations that leave deadlines alone. -/
def onObj (db : Int) (key : Bytes) (body : Option (Obj F) → Out (Obj F) α) : StoreM F α :=
  onEntry db key (liftBody body)

/-- `dbmap[key]` with whatever entry is there, expired or not. -/
def onSlot (db : Int) (key : Bytes) (body : Option (Item F) → Out (Item F) α) : StoreM F α :=
  fun env s => s.onSlot env.now db key body

/-- `findEntry` in a database that is only looked up. -/
def onFound (db : Int) (key : Bytes) (absent : α) (body : Item F → Out (Item F) α) : StoreM F α :=
  fun env s => s.onFound env.now db key absent body

/-- As `onFound`, for operations that leave deadlines alone. -/
def onFoundObj (db : Int) (key : Bytes) (absent : α) (body : Obj F → Out (Obj F) α) : StoreM F α :=
  onFound db key absent fun o => (body o.toObj).map fun v => { v with expireAtMs := o.expireAtMs }

/-- Looking at a key without erasing it when it is expired. -/
def peek (db : Int) (key : Bytes) (f : Option (Item F) → α) : StoreM F α :=
  fun env s => (f (s.live env.now db key), s)

/-- A computation that reads the clock, the random draws or the container order. -/
def withEnv (f : Env → StoreM F α) : StoreM F α := fun env => f env env

/-- `onFound` differs from `onEntry` in the databases it creates only. -/
theorem onFound_like_onEntry (db : Int) (key : Bytes) (absent : α) (body : Item F → Out (Item F) α)
    (env : Env) (s : KvStore F) :
    let m' := onEntry db key (fun o => o.elim { reply := absent } body)
    (onFound db key absent body env s).1 = (m' env s).1 ∧
      (onFound db key absent body env s).2.conf = (m' env s).2.conf ∧
      (onFound db key absent body env s).2.item = (m' env s).2.item := by
  simp only [onFound, onEntry, KvStore.onFound_reply, KvStore.onEntry_reply, KvStore.conf_onFound,
    KvStore.conf_onEntry, true_and]
  constructor
  · cases s.live env.now db key <;> rfl
  · funext db' key'
    rw [KvStore.item_onFound, KvStore.item_onEntry]
    cases s.live env.now db key <;> rfl

end StoreM

/-! ## Leaving the contents as they were -/

/-- `s'` holds what `s` holds, less entries that are expired at `now`. -/
def SameItems (now : Int) (s s' : KvStore F) : Prop :=
  ∀ db key, (s'.item db key).map Item.norm = (s.item db key).map Item.norm ∨
    (s'.item db key = none ∧ s.live now db key = none)

namespace SameItems

variable {now : Int} {s s' s'' : KvStore F}

theorem refl (now : Int) (s : KvStore F) : SameItems now s s := fun _ _ => .inl rfl

theorem of_item (h : s'.item = s.item) : SameItems now s s' := fun db key => .inl (by rw [h])

theorem live (h : SameItems now s s') (db : Int) (key : Bytes) :
    (s'.live now db key).map Item.norm = (s.live now db key).map Item.norm := by
  rcases h db key with ho | ⟨hn, hl⟩
  · rw [KvStore.live_map_norm, KvStore.live_map_norm, ho]
  · rw [hl]
    simp [KvStore.live, hn]

theorem view (h : SameItems now s s') : s'.view now = s.view now := by
  funext db key
  exact h.live db key

theorem trans (h : SameItems now s s') (h' : SameItems now s' s'') : SameItems now s s'' := by
  intro db key
  rcases h' db key with ho' | ⟨hn', hl'⟩
  · rcases h db key with ho | ⟨hn, hl⟩
    · exact .inl (ho'.trans ho)
    · refine .inr ⟨?_, hl⟩
      rw [hn] at ho'
      simpa using ho'
  · have := h.live db key
    rw [hl'] at this
    exact .inr ⟨hn', by simpa using this.symm⟩

end SameItems

/-- The same contents under the same settings. -/
structure Same (now : Int) (s s' : KvStore F) : Prop where
  conf : s'.conf = s.conf
  item : SameItems now s s'

variable {body : Option (Item F) → Out (Item F) α} {key : Bytes}

namespace Same

theorem refl (now : Int) (s : KvStore F) : Same now s s := ⟨rfl, .refl now s⟩

theorem of_item {now : Int} {s s' : KvStore F} (hc : s'.conf = s.conf)
    (h : ∀ db key, s'.item db key = s.item db key) : Same now s s' :=
  ⟨hc, fun db key => .inl (by rw [h])⟩

theorem live {now : Int} {s s' : KvStore F} (h : Same now s s') (db : Int) (key : Bytes) :
    (s'.live now db key).map Item.norm = (s.live now db key).map Item.norm := h.item.live db key

theorem view {now : Int} {s s' : KvStore F} (h : Same now s s') : s'.view now = s.view now :=
  h.item.view

theorem trans {now : Int} {s s' s'' : KvStore F} (h : Same now s s') (h' : Same now s' s'') :
    Same now s s'' := ⟨h'.conf.trans h.conf, h.item.trans h'.item⟩

theorem onEntry {now db : Int}
    {s : KvStore F} (h : ((body (s.live now db key)).act.apply (s.live now db key)).map Item.norm =
      (s.live now db key).map Item.norm) : Same now s (s.onEntry now db key body).2 := by
  refine ⟨KvStore.conf_onEntry .., fun db' key' => ?_⟩
  rw [KvStore.item_onEntry]
  split
  next hk =>
    obtain ⟨rfl, rfl⟩ := hk
    cases hl : s.live now db' key' with
    | none =>
      rw [hl] at h
      exact .inr ⟨by simpa using h, rfl⟩
    | some o =>
      rw [hl] at h
      exact .inl (by rw [h, KvStore.item_of_live hl])
  · exact .inl rfl

end Same

/-- Runs of `m` under settings `I` whose reply satisfies `P` leave the contents as they were. -/
def KeepsWhen (I : StoreConf → Prop) (P : α → Prop) (m : StoreM F α) : Prop :=
  ∀ env s, I s.conf → P (m env s).1 → Same env.now s (m env s).2

/-- `m` only looks. -/
abbrev Reads (m : StoreM F α) : Prop := KeepsWhen (fun _ => True) (fun _ => True) m

variable {m : StoreM F α} {db : Int} {f : α → StoreM F β} {absent : α}

namespace KeepsWhen

variable {I : StoreConf → Prop} {P : α → Prop} {Q : β → Prop}

theorem of_reads (h : Reads m) : KeepsWhen I P m :=
  fun env s _ _ => h env s trivial trivial

theorem pure (a : α) : KeepsWhen I P (Pure.pure a : StoreM F α) :=
  fun env s _ _ => Same.refl env.now s

theorem bind (hm : KeepsWhen I (fun _ => True) m)
    (hf : ∀ a, KeepsWhen I Q (f a)) : KeepsWhen I Q (m >>= f) := by
  intro env s hi hq
  have h1 := hm env s hi trivial
  exact h1.trans (hf _ env _ (by rw [h1.conf]; exact hi) hq)

/-- A first part after whose other replies the result no longer satisfies `Q`. -/
theorem bind_of (hm : KeepsWhen I P m)
    (hf : ∀ a, P a → KeepsWhen I Q (f a)) (hn : ∀ a, ¬ P a → ∀ env s, ¬ Q (f a env s).1) :
    KeepsWhen I Q (m >>= f) := by
  intro env s hi hq
  by_cases hp : P (m env s).1
  · have h1 := hm env s hi hp
    exact h1.trans (hf _ hp env _ (by rw [h1.conf]; exact hi) hq)
  · exact absurd hq (hn _ hp env _)

theorem map {f : α → β} (hm : KeepsWhen I P m) (hf : ∀ a, Q (f a) → P a) :
    KeepsWhen I Q (f <$> m) := fun env s hi hq => hm env s hi (hf _ hq)

theorem ite {c : Prop} [Decidable c] {m m' : StoreM F α} (h : c → KeepsWhen I P m)
    (h' : ¬ c → KeepsWhen I P m') : KeepsWhen I P (if c then m else m') := by
  split
  next hc => exact h hc
  next hc => exact h' hc

theorem onEntry
    (h : ∀ o, P (body o).reply → ((body o).act.apply o).map Item.norm = o.map Item.norm) :
    KeepsWhen I P (StoreM.onEntry db key body) := by
  intro env s _ hp
  unfold StoreM.onEntry at hp ⊢
  rw [KvStore.onEntry_reply] at hp
  exact .onEntry (h _ hp)

theorem withEnv {f : Env → StoreM F α} (h : ∀ env, KeepsWhen I P (f env)) :
    KeepsWhen I P (StoreM.withEnv f) := fun env s hi hp => h env env s hi hp

theorem congr {m m' : StoreM F α} (h : ∀ env s, (m env s).1 = (m' env s).1 ∧
      (m env s).2.conf = (m' env s).2.conf ∧ (m env s).2.item = (m' env s).2.item)
    (hm : KeepsWhen I P m') : KeepsWhen I P m := by
  intro env s hi hp
  obtain ⟨hr, hc, ho⟩ := h env s
  have hs := hm env s hi (hr ▸ hp)
  exact ⟨hc.trans hs.conf, fun db key => ho ▸ hs.item db key⟩

theorem onFound {body : Item F → Out (Item F) α}
    (h : ∀ o, P (body o).reply → ((body o).act.apply (some o)).map Item.norm = some o.norm) :
    KeepsWhen I P (StoreM.onFound db key absent body) := by
  refine congr (StoreM.onFound_like_onEntry db key absent body) (onEntry fun o hp => ?_)
  cases o with
  | none => rfl
  | some o => exact h o hp

theorem peek {f : Option (Item F) → α} :
    KeepsWhen I P (StoreM.peek db key f) := fun env s _ _ => Same.refl env.now s

theorem onObj {body : Option (Obj F) → Out (Obj F) α}
    (h : ∀ o, P (body o).reply → ((body o).act.apply o).map Obj.norm = o.map Obj.norm) :
    KeepsWhen I P (StoreM.onObj db key body) := by
  refine onEntry fun o hp => ?_
  have hb := h _ hp
  unfold liftBody
  cases ha : (body (o.map Item.toObj)).act <;> cases o <;>
    simp_all [Out.map, Act.map, Act.apply, Item.norm_eq_iff]

theorem onFoundObj {body : Obj F → Out (Obj F) α}
    (h : ∀ o, P (body o).reply → ((body o).act.apply (some o)).map Obj.norm = some o.norm) :
    KeepsWhen I P (StoreM.onFoundObj db key absent body) := by
  refine onFound fun o hp => ?_
  have hb := h _ hp
  cases ha : (body o.toObj).act <;> simp_all [Out.map, Act.map, Act.apply, Item.norm_eq_iff]

end KeepsWhen

/-! ## Running alike on stores with the same contents -/

/-- A deadline that is not passed while the clock goes from `lo` to `hi`; `0` is no deadline. -/
def QuietDeadline (lo hi d : Int) : Prop := d = 0 ∨ (0 < d ∧ (d ≤ lo ∨ hi < d))

/-- The deadline comes out the same at every clock reading from `lo` to `hi`, and none passes it. -/
def FixedDeadline (lo hi : Int) (deadline : Int → Int) : Prop :=
  ∃ d, QuietDeadline lo hi d ∧ ∀ now, lo ≤ now → now ≤ hi → deadline now = d

def Quiet (lo hi : Int) (s : KvStore F) : Prop :=
  ∀ db key o, s.item db key = some o → QuietDeadline lo hi o.expireAtMs

/-- The same live contents, at `lo` and until `hi`. -/
structure Alike (lo hi : Int) (s t : KvStore F) : Prop where
  view : s.view lo = t.view lo
  quietL : Quiet lo hi s
  quietR : Quiet lo hi t

/-- The same live contents under settings that evict nothing. -/
structure Agree (lo hi : Int) (s t : KvStore F) : Prop extends Alike lo hi s t where
  noEvictL : s.conf.NoEvict
  noEvictR : t.conf.NoEvict

/-- The clock readings between `lo` and `hi`. -/
def Within (lo hi : Int) (env : Env) : Prop := lo ≤ env.now ∧ env.now ≤ hi

omit [Platform F] in
theorem QuietDeadline.expired {lo hi now : Int} {o : Item F} (h : QuietDeadline lo hi o.expireAtMs)
    (h1 : lo ≤ now) (h2 : now ≤ hi) : o.expired now = o.expired lo := by
  unfold Item.expired
  rcases h with h | ⟨hp, h | h⟩ <;> grind

theorem Quiet.live {lo hi now : Int} {s : KvStore F} (h : Quiet lo hi s) (h1 : lo ≤ now)
    (h2 : now ≤ hi) (db : Int) (key : Bytes) : s.live now db key = s.live lo db key := by
  unfold KvStore.live
  cases ho : s.item db key with
  | none => rfl
  | some o => rw [Option.filter_some, Option.filter_some, (h db key o ho).expired h1 h2]

theorem SameItems.quiet {lo hi now : Int} {s s' : KvStore F} (h : SameItems now s s')
    (hq : Quiet lo hi s) : Quiet lo hi s' := by
  intro db key o' ho'
  rcases h db key with hm | ⟨hn, -⟩
  · rw [ho'] at hm
    cases ho : s.item db key with
    | none => rw [ho] at hm; cases hm
    | some o =>
      rw [ho, Option.map_some, Option.map_some, Option.some.injEq] at hm
      have he := congrArg Item.expireAtMs hm
      rw [Item.norm_expireAtMs, Item.norm_expireAtMs] at he
      rw [he]
      exact hq db key o ho
  · rw [hn] at ho'; cases ho'

namespace Alike

variable {lo hi : Int} {s t u : KvStore F}

theorem refl (h : Quiet lo hi s) : Alike lo hi s s := ⟨rfl, h, h⟩

theorem symm (h : Alike lo hi s t) : Alike lo hi t s := ⟨h.view.symm, h.quietR, h.quietL⟩

theorem trans (h : Alike lo hi s t) (h' : Alike lo hi t u) : Alike lo hi s u :=
  ⟨h.view.trans h'.view, h.quietL, h'.quietR⟩

theorem live {now now' : Int} (h : Alike lo hi s t) (h1 : lo ≤ now ∧ now ≤ hi)
    (h2 : lo ≤ now' ∧ now' ≤ hi) (db : Int) (key : Bytes) :
    (s.live now db key).map Item.norm = (t.live now' db key).map Item.norm := by
  rw [h.quietL.live h1.1 h1.2, h.quietR.live h2.1 h2.2]
  exact congrFun (congrFun h.view db) key

/-- A run that leaves the contents as they were keeps the likeness. -/
theorem same_left {now : Int} {s' : KvStore F} (h : Alike lo hi s t) (h1 : lo ≤ now ∧ now ≤ hi)
    (hs : SameItems now s s') : Alike lo hi s' t := by
  have hq := hs.quiet h.quietL
  refine ⟨?_, hq, h.quietR⟩
  funext db key
  have hv := congrFun (congrFun h.view db) key
  unfold KvStore.view at hv ⊢
  rw [← hv, ← hq.live h1.1 h1.2, ← h.quietL.live h1.1 h1.2]
  exact hs.live db key

theorem same_right {now : Int} {t' : KvStore F} (h : Alike lo hi s t) (h1 : lo ≤ now ∧ now ≤ hi)
    (ht : SameItems now t t') : Alike lo hi s t' := (h.symm.same_left h1 ht).symm

end Alike

namespace Agree

variable {lo hi now : Int} {s t : KvStore F}

theorem same_left {s' : KvStore F} (h : Agree lo hi s t) (h1 : lo ≤ now ∧ now ≤ hi)
    (hs : Same now s s') : Agree lo hi s' t :=
  ⟨h.toAlike.same_left h1 hs.item, hs.conf ▸ h.noEvictL, h.noEvictR⟩

theorem same_right {t' : KvStore F} (h : Agree lo hi s t) (h1 : lo ≤ now ∧ now ≤ hi)
    (ht : Same now t t') : Agree lo hi s t' :=
  ⟨h.toAlike.same_right h1 ht.item, h.noEvictL, ht.conf ▸ h.noEvictR⟩

end Agree

/-- Two runs of `m` on agreeing stores reply alike and leave agreeing stores. -/
def Det (lo hi : Int) (m : StoreM F α) : Prop :=
  ∀ e1 e2 s t, Within lo hi e1 → Within lo hi e2 → Agree lo hi s t →
    (m e1 s).1 = (m e2 t).1 ∧ Agree lo hi (m e1 s).2 (m e2 t).2

/-- Bodies that take entries with the same visible part to outcomes with the same visible part. -/
def BodyRel (b b' : Option (Item F) → Out (Item F) α) : Prop :=
  ∀ o o', o.map Item.norm = o'.map Item.norm → (b o).map Item.norm = (b' o').map Item.norm

/-- The deadline a body leaves is the old one or one outside `lo .. hi`. -/
def TtlOk (lo hi : Int) (b : Option (Item F) → Out (Item F) α) : Prop :=
  ∀ o o', (b o).act = .put o' →
    QuietDeadline lo hi o'.expireAtMs ∨ ∃ p, o = some p ∧ o'.expireAtMs = p.expireAtMs

/-- What makes an operation on one key, which does not look at the clock, run alike. -/
structure SteadyBody (body : Option (Item F) → Out (Item F) α) : Prop where
  norm : ∀ o, (body (o.map Item.norm)).map Item.norm = (body o).map Item.norm
  ttl : ∀ o o', (body o).act = .put o' →
    o'.expireAtMs = 0 ∨ ∃ p, o = some p ∧ o'.expireAtMs = p.expireAtMs

/-- The body of an operation that leaves deadlines alone sees no more than `norm` shows. -/
def SteadyObj (body : Option (Obj F) → Out (Obj F) α) : Prop :=
  ∀ o, (body (o.map Obj.norm)).map Obj.norm = (body o).map Obj.norm

omit [Platform F] in
theorem SteadyObj.liftBody {body : Option (Obj F) → Out (Obj F) α} (h : SteadyObj body) :
    SteadyBody (liftBody body) := by
  constructor
  · intro o
    have hb := h (o.map Item.toObj)
    have ho : (o.map Item.norm).map Item.toObj = (o.map Item.toObj).map Obj.norm := by
      cases o <;> rfl
    have he : (o.map Item.norm).map Item.expireAtMs = o.map Item.expireAtMs := by
      cases o <;> rfl
    have ha := congrArg Out.act hb
    unfold Kv.liftBody Out.map at *
    simp only [ho, he, Out.mk.injEq] at *
    refine ⟨?_, hb.2⟩
    cases h1 : (body ((o.map Item.toObj).map Obj.norm)).act <;>
      cases h2 : (body (o.map Item.toObj)).act <;> simp_all [Act.map, Item.norm_eq_iff]
  · intro o o' hp
    unfold Kv.liftBody Out.map at hp
    cases ha : (body (o.map Item.toObj)).act <;> rw [ha] at hp <;> cases hp
    cases o with
    | none => exact .inl rfl
    | some p => exact .inr ⟨p, rfl, rfl⟩

omit [Platform F] in
theorem apply_map_norm {b b' : Out (Item F) α} {o o' : Option (Item F)}
    (hb : b.map Item.norm = b'.map Item.norm)
    (ho : o.map Item.norm = o'.map Item.norm) :
    (b.act.apply o).map Item.norm = (b'.act.apply o').map Item.norm := by
  have ha := congrArg Out.act hb
  unfold Out.map at ha
  cases hb1 : b.act <;> cases hb2 : b'.act <;> simp_all [Act.apply, Act.map]

theorem Quiet.onEntry {lo hi : Int} {s : KvStore F} (hq : Quiet lo hi s) (now db : Int)
    (key : Bytes) (httl : TtlOk lo hi body) :
    Quiet lo hi (s.onEntry now db key body).2 := by
  intro db' key' o ho
  rw [KvStore.item_onEntry] at ho
  split at ho
  next hk =>
    cases ha : (body (s.live now db key)).act with
    | keep =>
      rw [ha] at ho
      exact hq db key o (KvStore.item_of_live ho)
    | erase => rw [ha] at ho; cases ho
    | put o' =>
      rw [ha] at ho
      obtain rfl : o' = o := by simpa [Act.apply] using ho
      rcases httl _ _ ha with hd | ⟨p, hp, hpe⟩
      · exact hd
      · rw [hpe]; exact hq db key p (KvStore.item_of_live hp)
  · exact hq db' key' o ho

/-- One operation on one key, run with related bodies on agreeing stores. -/
theorem Agree.onEntry {lo hi : Int} {s t : KvStore F} (h : Agree lo hi s t) (db : Int) (key : Bytes)
    {e1 e2 : Env} (h1 : Within lo hi e1) (h2 : Within lo hi e2)
    {b b' : Option (Item F) → Out (Item F) α} (hrel : BodyRel b b') (httl : TtlOk lo hi b)
    (httl' : TtlOk lo hi b') :
    (s.onEntry e1.now db key b).1 = (t.onEntry e2.now db key b').1 ∧
      Agree lo hi (s.onEntry e1.now db key b).2 (t.onEntry e2.now db key b').2 := by
  have hl := h.live h1 h2 db key
  have hbody := hrel _ _ hl
  have happ := apply_map_norm hbody hl
  refine ⟨?_, ⟨?_, h.quietL.onEntry _ _ _ httl, h.quietR.onEntry _ _ _ httl'⟩, ?_, ?_⟩
  · have hr := congrArg Out.reply hbody
    rw [KvStore.onEntry_reply, KvStore.onEntry_reply]
    exact hr
  · funext db' key'
    unfold KvStore.view
    rw [KvStore.live_map_norm, KvStore.live_map_norm, KvStore.item_onEntry, KvStore.item_onEntry]
    split
    · rw [happ]
    · have hv := congrFun (congrFun h.view db') key'
      unfold KvStore.view at hv
      rwa [KvStore.live_map_norm, KvStore.live_map_norm] at hv
  · exact .of_eq (KvStore.conf_onEntry ..) h.noEvictL
  · exact .of_eq (KvStore.conf_onEntry ..) h.noEvictR

namespace Det

variable {lo hi : Int}

theorem pure (a : α) : Det lo hi (Pure.pure a : StoreM F α) := fun _ _ _ _ _ _ h => ⟨rfl, h⟩

theorem of_le (h : lo ≤ hi → Det lo hi m) : Det lo hi m :=
  fun e1 e2 s t h1 => h (Int.le_trans h1.1 h1.2) e1 e2 s t h1

theorem bind (hm : Det lo hi m) (hf : ∀ a, Det lo hi (f a)) :
    Det lo hi (m >>= f) := by
  intro e1 e2 s t h1 h2 h
  obtain ⟨hr, ha⟩ := hm e1 e2 s t h1 h2 h
  simp only [StoreM.bind_apply, hr]
  exact hf _ e1 e2 _ _ h1 h2 ha

theorem map {f : α → β} (hm : Det lo hi m) : Det lo hi (f <$> m) := by
  intro e1 e2 s t h1 h2 h
  obtain ⟨hr, ha⟩ := hm e1 e2 s t h1 h2 h
  exact ⟨by simp only [StoreM.map_apply, hr], ha⟩

theorem ite {c : Prop} [Decidable c] {m m' : StoreM F α} (h : c → Det lo hi m)
    (h' : ¬ c → Det lo hi m') : Det lo hi (if c then m else m') := by
  split
  next hc => exact h hc
  next hc => exact h' hc

theorem onEntryTtl
    (hn : ∀ o, (body (o.map Item.norm)).map Item.norm = (body o).map Item.norm)
    (httl : TtlOk lo hi body) : Det lo hi (StoreM.onEntry db key body) := by
  have hrel : BodyRel body body := fun o o' ho => by rw [← hn o, ho, hn o']
  exact fun _ _ _ _ h1 h2 h => h.onEntry db key h1 h2 hrel httl httl

theorem onEntry
    (hb : SteadyBody body) : Det lo hi (StoreM.onEntry db key body) :=
  onEntryTtl hb.norm fun o o' hp => (hb.ttl o o' hp).imp .inl id

/-- A computation that looks at the clock and comes out the same at every reading. -/
theorem withEnv {f : Env → StoreM F α} (h : ∀ e, Within lo hi e → f e = m)
    (hm : Det lo hi m) : Det lo hi (StoreM.withEnv f) := by
  intro e1 e2 s t h1 h2 ha
  unfold StoreM.withEnv
  rw [h e1 h1, h e2 h2]
  exact hm e1 e2 s t h1 h2 ha

theorem congr {m m' : StoreM F α} (h : ∀ env s, (m env s).1 = (m' env s).1 ∧
      (m env s).2.conf = (m' env s).2.conf ∧ (m env s).2.item = (m' env s).2.item)
    (hm : Det lo hi m') : Det lo hi m := by
  intro e1 e2 s t h1 h2 ha
  obtain ⟨hr1, hc1, ho1⟩ := h e1 s
  obtain ⟨hr2, hc2, ho2⟩ := h e2 t
  obtain ⟨hr, hag⟩ := hm e1 e2 s t h1 h2 ha
  refine ⟨by rw [hr1, hr2, hr], ⟨?_, ?_, ?_⟩, hc1 ▸ hag.noEvictL, hc2 ▸ hag.noEvictR⟩
  · have := hag.view
    unfold KvStore.view KvStore.live at this ⊢
    rw [ho1, ho2]
    exact this
  · unfold Quiet
    rw [ho1]
    exact hag.quietL
  · unfold Quiet
    rw [ho2]
    exact hag.quietR

theorem onObj {body : Option (Obj F) → Out (Obj F) α}
    (hb : SteadyObj body) : Det lo hi (StoreM.onObj db key body) :=
  onEntry hb.liftBody

theorem onFound {body : Item F → Out (Item F) α}
    (hb : SteadyBody fun o => o.elim { reply := absent } body) :
    Det lo hi (StoreM.onFound db key absent body) :=
  congr (StoreM.onFound_like_onEntry db key absent body) (onEntry hb)

theorem peek {f : Option (Item F) → α}
    (hf : ∀ o, f (o.map Item.norm) = f o) : Det lo hi (StoreM.peek db key f) := by
  intro e1 e2 s t h1 h2 h
  refine ⟨?_, h⟩
  unfold StoreM.peek
  rw [← hf, h.live h1 h2 db key, hf]

/-- An operation that replaces the entry, whatever was there. -/
theorem onSlot
    (hn : ∀ o o', (body o).map Item.norm = (body o').map Item.norm)
    (hk : ∀ o, (body o).act ≠ .keep)
    (httl : ∀ o o', (body o).act = .put o' → QuietDeadline lo hi o'.expireAtMs) :
    Det lo hi (StoreM.onSlot db key body) := by
  have hquiet : ∀ (now : Int) (s : KvStore F), Quiet lo hi s →
      Quiet lo hi (s.onSlot now db key body).2 := by
    intro now s hq db' key' o ho
    rw [KvStore.item_onSlot] at ho
    split at ho
    · cases ha : (body (s.item db key)).act with
      | keep => exact absurd ha (hk _)
      | erase => rw [ha] at ho; cases ho
      | put o' =>
        rw [ha] at ho
        obtain rfl : o' = o := by simpa [Act.apply] using ho
        exact httl _ _ ha
    · exact hq db' key' o ho
  intro e1 e2 s t h1 h2 h
  unfold StoreM.onSlot
  refine ⟨congrArg (fun out => out.reply) (hn _ _), ⟨?_, hquiet _ s h.quietL, hquiet _ t h.quietR⟩, ?_, ?_⟩
  · funext db' key'
    unfold KvStore.view
    rw [KvStore.live_map_norm, KvStore.live_map_norm, KvStore.item_onSlot, KvStore.item_onSlot]
    split
    · rw [Out.apply_congr (hn _ (t.item db key)) (hk _) (hk _) _ (t.item db key)]
    · have hv := congrFun (congrFun h.view db') key'
      unfold KvStore.view at hv
      rwa [KvStore.live_map_norm, KvStore.live_map_norm] at hv
  · exact .of_eq (KvStore.conf_onSlot ..) h.noEvictL
  · exact .of_eq (KvStore.conf_onSlot ..) h.noEvictR

theorem onFoundObj {body : Obj F → Out (Obj F) α}
    (hb : SteadyObj fun o => o.elim { reply := absent } body) :
    Det lo hi (StoreM.onFoundObj db key absent body) := by
  refine onFound ?_
  have h := hb.liftBody
  have he : liftBody (fun o => o.elim { reply := absent } body) = fun o : Option (Item F) =>
      o.elim { reply := absent } fun o =>
        (body o.toObj).map fun v => { v with expireAtMs := o.expireAtMs } := by
    funext o
    cases o <;> rfl
  rwa [he] at h

end Det

end Kv
