import ZeroFrameworks.Kv.Store.Evict

/-!
# Operations on a value of one type

Most operations ask for a value of one type and otherwise answer WRONGTYPE.  A `Field` names the
part of an entry that a type uses; `onField` runs an operation on that part.  What such an
operation can see is the part itself, so two runs on the same contents agree whatever the
operation is (`det_onFieldOr`), and it leaves the contents alone as soon as it leaves the part
alone (`keeps_onFieldOr`).
-/

namespace Kv

variable {F V α : Type}

/-- `kWrongType`. -/
def wrongType : Bytes := lit "WRONGTYPE Operation against a key holding the wrong kind of value"

/-- The part of a stream entry that is the stream's. -/
structure StreamObj where
  entries : List StreamEntry := []
  lastMs : Nat := 0
  lastSeq : Nat := 0
  groups : BMap StreamGroupState := ∅

/-- The part of an entry that values of one type use. -/
structure Field (F V : Type) where
  type : ObjType
  get : Obj F → V
  set : V → Obj F → Obj F
  get_norm : ∀ o, o.type = type → get o.norm = get o
  norm_set_norm : ∀ v o, o.type = type → (set v o.norm).norm = (set v o).norm
  norm_set_get : ∀ o, o.type = type → (set (get o) o).norm = o.norm
  type_set : ∀ v o, (set v o).type = o.type

namespace Field

def string : Field F Bytes where
  type := .string
  get := Obj.value
  set v o := { o with value := v }
  get_norm := by rintro ⟨t, _⟩ rfl; rfl
  norm_set_norm := by rintro v ⟨t, _⟩ rfl; rfl
  norm_set_get := by rintro ⟨t, _⟩ rfl; rfl
  type_set _ _ := rfl

def hash : Field F (BMap Bytes) where
  type := .hash
  get := Obj.hash
  set v o := { o with hash := v }
  get_norm := by rintro ⟨t, _⟩ rfl; rfl
  norm_set_norm := by rintro v ⟨t, _⟩ rfl; rfl
  norm_set_get := by rintro ⟨t, _⟩ rfl; rfl
  type_set _ _ := rfl

def list : Field F (List Bytes) where
  type := .list
  get := Obj.list
  set v o := { o with list := v }
  get_norm := by rintro ⟨t, _⟩ rfl; rfl
  norm_set_norm := by rintro v ⟨t, _⟩ rfl; rfl
  norm_set_get := by rintro ⟨t, _⟩ rfl; rfl
  type_set _ _ := rfl

def sets : Field F BSet where
  type := .set
  get := Obj.set
  set v o := { o with set := v }
  get_norm := by rintro ⟨t, _⟩ rfl; rfl
  norm_set_norm := by rintro v ⟨t, _⟩ rfl; rfl
  norm_set_get := by rintro ⟨t, _⟩ rfl; rfl
  type_set _ _ := rfl

def zset : Field F (BMap F) where
  type := .zset
  get := Obj.zset
  set v o := { o with zset := v }
  get_norm := by rintro ⟨t, _⟩ rfl; rfl
  norm_set_norm := by rintro v ⟨t, _⟩ rfl; rfl
  norm_set_get := by rintro ⟨t, _⟩ rfl; rfl
  type_set _ _ := rfl

def stream : Field F StreamObj where
  type := .stream
  get o := ⟨o.stream, o.streamLastMs, o.streamLastSeq, o.streamGroups⟩
  set v o := { o with
    stream := v.entries, streamLastMs := v.lastMs, streamLastSeq := v.lastSeq,
    streamGroups := v.groups }
  get_norm := by rintro ⟨t, _⟩ rfl; rfl
  norm_set_norm := by rintro v ⟨t, _⟩ rfl; rfl
  norm_set_get := by rintro ⟨t, _⟩ rfl; rfl
  type_set _ _ := rfl

/-- The body on entries of an operation `f` on the part: another type is answered with `refuse`,
and a value stored where there was no entry makes one of this type. -/
def body (L : Field F V) (refuse : α) (f : Option V → Out V α) (o : Option (Obj F)) :
    Out (Obj F) α :=
  match o with
  | none => (f none).map fun v => L.set v { type := L.type }
  | some o =>
    if o.type = L.type then (f (some (L.get o))).map fun v => L.set v o
    else { reply := refuse }

variable {L : Field F V} {refuse : α} {f : Option V → Out V α}

theorem body_of_type {o : Obj F} (h : o.type = L.type) :
    L.body refuse f (some o) = (f (some (L.get o))).map fun v => L.set v o :=
  if_pos h

theorem body_of_ne {o : Obj F} (h : o.type ≠ L.type) :
    L.body refuse f (some o) = { reply := refuse } :=
  if_neg h

theorem steadyObj_body : SteadyObj (L.body refuse f) := by
  intro o
  cases o with
  | none => rfl
  | some o =>
    have hn := o.norm_type
    by_cases ht : o.type = L.type
    · rw [Option.map_some, body_of_type ht, body_of_type (hn.trans ht), L.get_norm o ht]
      unfold Out.map
      cases (f (some (L.get o))).act <;> simp [Act.map, L.norm_set_norm _ o ht]
    · rw [Option.map_some, body_of_ne ht, body_of_ne (fun h => ht (hn.symm.trans h))]

end Field

/-- The reply is an error. -/
def Failed {α : Type} : Except Bytes α → Prop
  | .error _ => True
  | .ok _ => False

variable [Platform F]

namespace StoreM

/-- An operation on values of one type that answers `refuse` on others. -/
def onFieldOr (L : Field F V) (db : Int) (key : Bytes) (refuse : α) (f : Option V → Out V α) :
    StoreM F α := onObj db key (L.body refuse f)

/-- An operation on values of one type. -/
def onField (L : Field F V) (db : Int) (key : Bytes) (f : Option V → Out V (Except Bytes α)) :
    StoreM F (Except Bytes α) := onFieldOr L db key (.error wrongType) f

/-- As `onFieldOr`, in a database that is only looked up. -/
def onFoundField (L : Field F V) (db : Int) (key : Bytes) (absent refuse : α) (f : V → Out V α) :
    StoreM F α :=
  onFoundObj db key absent fun o => L.body refuse (fun v => v.elim { reply := absent } f) (some o)

end StoreM

variable {key : Bytes} {db : Int} {lo hi : Int}

theorem det_onFieldOr {L : Field F V} {refuse : α}
    {f : Option V → Out V α} : Det lo hi (StoreM.onFieldOr L db key refuse f) :=
  .onObj Field.steadyObj_body

theorem det_onField {L : Field F V}
    {f : Option V → Out V (Except Bytes α)} : Det lo hi (StoreM.onField L db key f) :=
  det_onFieldOr

theorem det_onFoundField {L : Field F V}
    {absent refuse : α} {f : V → Out V α} :
    Det lo hi (StoreM.onFoundField L db key absent refuse f) := by
  refine .onFoundObj fun o => ?_
  have h : SteadyObj (L.body refuse fun v => v.elim { reply := absent } f) := L.steadyObj_body
  replace h := h o
  cases o with
  | none => rfl
  | some o => exact h

variable {I : StoreConf → Prop} {P : α → Prop}

omit [Platform F] in
theorem apply_body {L : Field F V} {refuse : α} {f : Option V → Out V α}
    (h : ∀ v, P (f v).reply → (f v).act.apply v = v) (o : Option (Obj F))
    (hp : P (L.body refuse f o).reply) :
    ((L.body refuse f o).act.apply o).map Obj.norm = o.map Obj.norm := by
  cases o with
  | none =>
    have hv := h none hp
    unfold Field.body Out.map
    cases ha : (f none).act <;> simp_all [Act.map, Act.apply]
  | some o =>
    by_cases ht : o.type = L.type
    · rw [Field.body_of_type ht] at hp ⊢
      have hv := h (some (L.get o)) hp
      unfold Out.map
      cases ha : (f (some (L.get o))).act with
      | keep => rfl
      | erase => rw [ha] at hv; cases hv
      | put v =>
        rw [ha] at hv
        obtain rfl : v = L.get o := by simpa [Act.apply] using hv
        simp [Act.map, Act.apply, L.norm_set_get o ht]
    · rw [Field.body_of_ne ht]; rfl

theorem keeps_onFieldOr {L : Field F V} {refuse : α}
    {f : Option V → Out V α} (h : ∀ v, P (f v).reply → (f v).act.apply v = v) :
    KeepsWhen I P (StoreM.onFieldOr L db key refuse f) :=
  .onObj (apply_body h)

theorem keeps_onFoundField {L : Field F V} {absent refuse : α}
    {f : V → Out V α} (h : ∀ v, P (f v).reply → (f v).act.apply (some v) = some v) :
    KeepsWhen I P (StoreM.onFoundField L db key absent refuse f) := by
  refine .onFoundObj fun o hp => apply_body (P := P) (fun v hp => ?_) (some o) hp
  cases v with
  | none => rfl
  | some v => exact h v hp

/-- An operation that touches the entry only when it succeeds. -/
theorem fails_onField {L : Field F V}
    {f : Option V → Out V (Except Bytes α)} (h : ∀ v, Failed (f v).reply → (f v).act = .keep) :
    KeepsWhen I Failed (StoreM.onField L db key f) :=
  keeps_onFieldOr fun v hp => by rw [h v hp]; rfl

variable {s : KvStore F} {env : Env}

/-- An operation that leaves existing values alone, on a key that exists. -/
theorem same_onField {L : Field F V}
    {f : Option V → Out V (Except Bytes α)} (hl : s.live env.now db key ≠ none)
    (hf : ∀ v, (f (some v)).act = .keep) :
    Same env.now s (StoreM.onField L db key f env s).2 := by
  refine Same.onEntry ?_
  obtain ⟨o, ho⟩ := Option.ne_none_iff_exists'.mp hl
  have hk : (L.body (.error wrongType) f (some o.toObj)).act = .keep := by
    unfold Field.body
    simp only
    split
    · unfold Out.map
      rw [hf]
      rfl
    · rfl
  rw [ho]
  unfold liftBody Out.map
  simp only [Option.map_some, hk]
  rfl

theorem reads_onField {L : Field F V}
    {f : Option V → Out V (Except Bytes α)} (h : ∀ v, (f v).act = .keep) :
    Reads (StoreM.onField L db key f) :=
  keeps_onFieldOr fun v _ => by rw [h v]; rfl

/-! ## When an operation is refused -/

/-- Nothing of another type is in the way. -/
def HasType (L : Field F V) (now db : Int) (key : Bytes) (s : KvStore F) : Prop :=
  ∀ o, s.live now db key = some o → o.type = L.type

theorem onFieldOr_reply {L : Field F V}
    (h : HasType L env.now db key s) (refuse : α) (f : Option V → Out V α) :
    (StoreM.onFieldOr L db key refuse f env s).1 =
      (f ((s.live env.now db key).map fun o => L.get o.toObj)).reply := by
  unfold StoreM.onFieldOr StoreM.onObj StoreM.onEntry
  rw [KvStore.onEntry_reply]
  cases hl : s.live env.now db key with
  | none => rfl
  | some o =>
    unfold liftBody
    simp only [Option.map_some]
    rw [Field.body_of_type (h o hl)]
    rfl

theorem onFieldOr_refused {L : Field F V}
    (h : ¬ HasType L env.now db key s) (refuse : α) (f : Option V → Out V α) :
    (StoreM.onFieldOr L db key refuse f env s).1 = refuse := by
  unfold HasType at h
  push Not at h
  obtain ⟨o, hl, ht⟩ := h
  unfold StoreM.onFieldOr StoreM.onObj StoreM.onEntry
  rw [KvStore.onEntry_reply, hl]
  unfold liftBody
  simp only [Option.map_some]
  rw [Field.body_of_ne ht]
  rfl

theorem HasType.onFieldOr {L : Field F V}
    (h : HasType L env.now db key s) (refuse : α) (f : Option V → Out V α) :
    HasType L env.now db key (StoreM.onFieldOr L db key refuse f env s).2 := by
  intro o' hl'
  have hi := KvStore.item_of_live hl'
  unfold StoreM.onFieldOr StoreM.onObj StoreM.onEntry at hi
  rw [KvStore.item_onEntry, if_pos ⟨rfl, rfl⟩] at hi
  cases hl : s.live env.now db key with
  | none =>
    rw [hl] at hi
    unfold liftBody Field.body at hi
    cases ha : (f none).act <;> simp only [Option.map_none, Out.map, ha, Act.map, Act.apply] at hi
    · cases hi
    · cases hi
      exact L.type_set ..
    · cases hi
  | some o =>
    rw [hl] at hi
    unfold liftBody at hi
    simp only [Option.map_some] at hi
    rw [Field.body_of_type (h o hl)] at hi
    cases ha : (f (some (L.get o.toObj))).act <;>
      simp only [Out.map, ha, Act.map, Act.apply] at hi
    · cases hi
      exact h _ hl
    · cases hi
      exact (L.type_set ..).trans (h _ hl)
    · cases hi

theorem onField_reply {L : Field F V}
    (h : HasType L env.now db key s) (f : Option V → Out V (Except Bytes α)) :
    (StoreM.onField L db key f env s).1 =
      (f ((s.live env.now db key).map fun o => L.get o.toObj)).reply :=
  onFieldOr_reply h _ f

theorem onField_refused {L : Field F V}
    (h : ¬ HasType L env.now db key s) (f : Option V → Out V (Except Bytes α)) :
    (StoreM.onField L db key f env s).1 = .error wrongType :=
  onFieldOr_refused h _ f

theorem HasType.onField {L : Field F V}
    (h : HasType L env.now db key s) (f : Option V → Out V (Except Bytes α)) :
    HasType L env.now db key (StoreM.onField L db key f env s).2 :=
  h.onFieldOr _ f

theorem HasType.onField_other {U : Type} {L : Field F V} {M : Field F U} {db db' : Int}
    {key key' : Bytes} (h : HasType L env.now db' key' s)
    (hne : ¬ (db' = db ∧ key' = key)) (f : Option U → Out U (Except Bytes α)) :
    HasType L env.now db' key' (StoreM.onField M db key f env s).2 := by
  intro o hl
  refine h o ?_
  unfold KvStore.live StoreM.onField StoreM.onFieldOr StoreM.onObj StoreM.onEntry at hl
  rwa [KvStore.item_onEntry, if_neg hne] at hl

end Kv
