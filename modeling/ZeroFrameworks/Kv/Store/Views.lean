import ZeroFrameworks.Kv.Store.Field

/-!
# Operations on what a store shows

A key shows nothing, a value of the type a command is for, with its deadline, or a value of another type.  An operation
on values of one type answers by what its key shows and changes what its key shows; all other keys show what they did.

    the key shows v → the reply is that of f v, and what f v puts is shown in its place, with the old deadline  (onField_of_value)
-/

namespace Kv

variable {F V α : Type}

/-! ## Views -/

/-- What keys show, as `KvStore.view` gives it. -/
abbrev View (F : Type) := Int → Bytes → Option (Item F)

def View.set (v : View F) (db : Int) (key : Bytes) (o : Option (Item F)) : View F := fun db' key' =>
  if db' = db ∧ key' = key then o else v db' key'

/-- A key, as the commands for one type see it. -/
inductive Held (V : Type) where
  | absent
  | other
  | value (v : V) (deadline : Int)

namespace Field

/-- A value of the type as a key shows it. -/
def item (L : Field F V) (v : V) (deadline : Int) : Item F :=
  { (L.set v { type := L.type }).norm with expireAtMs := deadline }

def held (L : Field F V) (o : Option (Item F)) : Held V :=
  match o with
  | none => .absent
  | some o => if o.type = L.type then .value (L.get o.toObj) o.expireAtMs else .other

/-- A value of the type shows its part and nothing else. -/
structure Whole (L : Field F V) : Prop where
  norm_set : ∀ v o, o.type = L.type → (L.set v o).norm = (L.set v { type := L.type }).norm
  get_set : ∀ v o, L.get (L.set v o) = v

theorem whole_list : (list : Field F _).Whole := ⟨by rintro v ⟨t, _⟩ rfl; rfl, fun _ _ => rfl⟩

theorem whole_zset : (zset : Field F (BMap F)).Whole := ⟨by rintro v ⟨t, _⟩ rfl; rfl, fun _ _ => rfl⟩

theorem whole_stream : (stream : Field F _).Whole := ⟨by rintro v ⟨t, _⟩ rfl; rfl, fun _ _ => rfl⟩

end Field

/-- A list as a key shows it; an empty one shows nothing. -/
def shownList (l : List Bytes) (deadline : Int) : Option (Item F) :=
  if l.isEmpty then none else some (Field.list.item l deadline)

/-! ## Lemmas -/

namespace View

variable {v : View F} {db db' : Int} {key key' : Bytes} {o o' : Option (Item F)}

@[simp] theorem set_self : v.set db key o db key = o := if_pos ⟨rfl, rfl⟩

theorem set_of_ne (h : ¬(db' = db ∧ key' = key)) : v.set db key o db' key' = v db' key' := if_neg h

theorem set_eq : v.set db key (v db key) = v := by
  funext db' key'
  by_cases h : db' = db ∧ key' = key
  · obtain ⟨rfl, rfl⟩ := h
    exact set_self
  · exact set_of_ne h

@[simp] theorem set_set : (v.set db key o).set db key o' = v.set db key o' := by
  funext db' key'
  by_cases h : db' = db ∧ key' = key
  · obtain ⟨rfl, rfl⟩ := h
    rw [set_self, set_self]
  · rw [set_of_ne h, set_of_ne h, set_of_ne h]

end View

namespace Field

variable {L : Field F V} {o : Option (Item F)} {v w : V} {d e : Int}

theorem item_type (L : Field F V) (v : V) (d : Int) : (L.item v d).type = L.type := by
  show (L.set v { type := L.type }).norm.type = L.type
  rw [Obj.norm_type, L.type_set]

theorem Whole.get_item (hL : L.Whole) (v : V) (d : Int) : L.get (L.item v d).toObj = v := by
  show L.get (L.set v { type := L.type }).norm = v
  rw [L.get_norm _ (L.type_set _ _), hL.get_set]

theorem Whole.item_inj (hL : L.Whole) : L.item v d = L.item w e ↔ v = w ∧ d = e := by
  constructor
  · intro h
    refine ⟨?_, congrArg Item.expireAtMs h⟩
    rw [← hL.get_item v d, h, hL.get_item]
  · rintro ⟨rfl, rfl⟩
    rfl

theorem held_eq_absent : L.held o = .absent ↔ o = none := by
  unfold held
  cases o with
  | none => exact ⟨fun _ => rfl, fun _ => rfl⟩
  | some o =>
    refine ⟨fun h => ?_, fun h => (by cases h)⟩
    dsimp only at h
    split at h <;> cases h

theorem held_eq_other : L.held o = .other ↔ ∃ p, o = some p ∧ p.type ≠ L.type := by
  unfold held
  cases o with
  | none =>
    constructor
    · intro h
      cases h
    · rintro ⟨p, hp, -⟩
      cases hp
  | some p =>
    dsimp only
    split
    next ht =>
      refine ⟨fun h => (by cases h), ?_⟩
      rintro ⟨q, hq, hne⟩
      cases hq
      exact absurd ht hne
    next ht => exact ⟨fun _ => ⟨p, rfl, ht⟩, fun _ => rfl⟩

theorem held_of_type {p : Item F} (h : p.type = L.type) : L.held (some p) = .value (L.get p.toObj) p.expireAtMs := if_pos h

theorem held_of_ne {p : Item F} (h : p.type ≠ L.type) : L.held (some p) = .other := if_neg h

theorem Whole.norm_eq_item (hL : L.Whole) {p : Item F} (h : p.type = L.type) :
    p.norm = L.item (L.get p.toObj) p.expireAtMs := by
  have hobj : p.toObj.norm = (L.set (L.get p.toObj) { type := L.type }).norm := by
    rw [← hL.norm_set _ _ h, L.norm_set_get _ h]
  unfold Item.norm item
  rw [hobj]

@[simp] theorem held_norm : L.held (o.map Item.norm) = L.held o := by
  cases o with
  | none => rfl
  | some p =>
    rw [Option.map_some]
    by_cases ht : p.type = L.type
    · have htn : p.norm.type = L.type := by rw [← ht, ← p.toObj.norm_type, ← Item.norm_toObj]
      rw [held_of_type ht, held_of_type htn, Item.norm_toObj, L.get_norm _ ht]
      rfl
    · have htn : p.norm.type ≠ L.type := by rwa [← p.toObj.norm_type, ← Item.norm_toObj] at ht
      rw [held_of_ne ht, held_of_ne htn]

theorem Whole.held_eq_value (hL : L.Whole) : L.held o = .value v d ↔ o.map Item.norm = some (L.item v d) := by
  constructor
  · intro h
    cases o with
    | none => cases h
    | some p =>
      by_cases ht : p.type = L.type
      · rw [held_of_type ht] at h
        obtain ⟨rfl, rfl⟩ := Held.value.inj h
        rw [Option.map_some, hL.norm_eq_item ht]
      · rw [held_of_ne ht] at h
        cases h
  · intro h
    cases o with
    | none => cases h
    | some p =>
      rw [Option.map_some, Option.some.injEq] at h
      have ht : p.type = L.type := by
        rw [← p.toObj.norm_type, ← Item.norm_toObj, h, L.item_type]
      rw [hL.norm_eq_item ht, hL.item_inj] at h
      rw [held_of_type ht, h.1, h.2]

end Field

/-! ## Operations -/

variable [Platform F] {L : Field F V} {env : Env} {db : Int} {key : Bytes} {s : KvStore F} {v : V} {d : Int}

theorem view_onEntry (env : Env) (db : Int) (key : Bytes) (body : Option (Item F) → Out (Item F) α) (s : KvStore F) :
    (s.onEntry env.now db key body).2.view env.now = View.set (s.view env.now) db key
      ((((body (s.live env.now db key)).act.apply (s.live env.now db key)).filter fun o => !o.expired env.now).map
        Item.norm) := by
  funext db' key'
  unfold KvStore.view KvStore.live View.set
  rw [KvStore.item_onEntry]
  split <;> rfl

theorem held_view : L.held (s.view env.now db key) = L.held (s.live env.now db key) := Field.held_norm

theorem live_not_expired {o : Item F} (h : s.live env.now db key = some o) : o.expired env.now = false := by
  have hexp := (Option.filter_eq_some_iff.mp h).2
  rwa [Bool.not_eq_true'] at hexp

section onField

variable (f : Option V → Out V (Except Bytes α))

theorem onField_of_absent (h : s.live env.now db key = none) :
    (StoreM.onField L db key f env s).1 = (f none).reply ∧
      (StoreM.onField L db key f env s).2.view env.now =
        View.set (s.view env.now) db key (((f none).act.apply none).map fun w => L.item w 0) := by
  constructor
  · rw [onField_reply (fun o ho => by rw [h] at ho; cases ho), h]
    rfl
  · unfold StoreM.onField StoreM.onFieldOr StoreM.onObj StoreM.onEntry
    rw [view_onEntry, h]
    congr 1
    show ((((Out.map _ ((f none).map _)).act.apply none).filter _).map _) = _
    unfold Out.map
    cases (f none).act with
    | keep => rfl
    | erase => rfl
    | put w => rfl

theorem onField_of_other (h : L.held (s.live env.now db key) = .other) :
    (StoreM.onField L db key f env s).1 = .error wrongType ∧
      (StoreM.onField L db key f env s).2.view env.now = s.view env.now := by
  obtain ⟨o, ho, hne⟩ := Field.held_eq_other.mp h
  constructor
  · exact onField_refused (fun ht => hne (ht o ho)) f
  · unfold StoreM.onField StoreM.onFieldOr StoreM.onObj StoreM.onEntry
    rw [view_onEntry, ho]
    unfold liftBody
    simp only [Option.map_some]
    rw [Field.body_of_ne hne]
    show View.set (s.view env.now) db key (((some o).filter _).map _) = _
    have hshown : s.view env.now db key = some o.norm := by rw [KvStore.view, ho, Option.map_some]
    rw [Option.filter_some, live_not_expired ho]
    show View.set (s.view env.now) db key (some o.norm) = _
    rw [← hshown, View.set_eq]

theorem onField_of_value (hL : L.Whole) (h : L.held (s.live env.now db key) = .value v d) :
    (StoreM.onField L db key f env s).1 = (f (some v)).reply ∧
      (StoreM.onField L db key f env s).2.view env.now =
        View.set (s.view env.now) db key (((f (some v)).act.apply (some v)).map fun w => L.item w d) := by
  cases ho : s.live env.now db key with
  | none => rw [ho] at h; cases h
  | some o =>
    by_cases ht : o.type = L.type
    · rw [ho, Field.held_of_type ht] at h
      obtain ⟨rfl, rfl⟩ := Held.value.inj h
      have hexp := live_not_expired ho
      constructor
      · rw [onField_reply (fun o' ho' => by rw [ho] at ho'; cases ho'; exact ht), ho]
        rfl
      · unfold StoreM.onField StoreM.onFieldOr StoreM.onObj StoreM.onEntry
        rw [view_onEntry, ho]
        congr 1
        unfold liftBody
        simp only [Option.map_some]
        rw [Field.body_of_type ht]
        unfold Out.map
        cases (f (some (L.get o.toObj))).act with
        | keep =>
          show (((some o).filter _).map _) = some _
          rw [Option.filter_some, hexp]
          exact congrArg some (hL.norm_eq_item ht)
        | erase => rfl
        | put w =>
          have hexp' : (Item.mk (L.set w o.toObj) o.expireAtMs).expired env.now = false := hexp
          show ((some (Item.mk (L.set w o.toObj) o.expireAtMs)).filter fun o => !o.expired env.now).map Item.norm =
            some (L.item w o.expireAtMs)
          rw [Option.filter_some, hexp']
          show some (Item.mk (L.set w o.toObj) o.expireAtMs).norm = _
          unfold Item.norm Field.item
          rw [hL.norm_set _ _ ht]
    · rw [ho, Field.held_of_ne ht] at h
      cases h

end onField

theorem shows_iff {l : List Bytes} : Field.list.held (s.live env.now db key) = .value l d ↔
    s.view env.now db key = some (Field.list.item l d) := Field.whole_list.held_eq_value

end Kv
