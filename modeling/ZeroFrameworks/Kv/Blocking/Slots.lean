import ZeroFrameworks.Kv.Commands.Lists

/-!
# The lists of a store

What list operations see of a store in which nothing has a deadline: under every key nothing, a list
or a value of another type.  `listPop` and `listPush` act on the one slot of their key.

    Timeless s → (listPop db key left env s).1 = ((s.slots db key).pop left).1 ∧
      (listPop db key left env s).2.slots = s.slots.set db key ((s.slots db key).pop left).2
-/

namespace Kv

variable {F : Type} [Platform F]

/-! ## Slots -/

inductive Slot where
  | free
  | list (l : List Bytes)
  | other
  deriving DecidableEq

namespace Slot

def elements (slot : Slot) : List Bytes :=
  match slot with
  | .list l => l
  | _ => []

def pop (left : Bool) (slot : Slot) : Except Bytes (Option Bytes) × Slot :=
  match slot with
  | .free => (.ok none, .free)
  | .list l =>
    match KvStore.popped left l with
    | none => (.ok none, .list l)
    | some (x, rest) => (.ok (some x), if rest.isEmpty then .free else .list rest)
  | .other => (.error wrongType, .other)

def push (left : Bool) (values : List Bytes) (slot : Slot) : Except Bytes Int × Slot :=
  if values.isEmpty then (.ok 0, slot)
  else
    match slot with
    | .other => (.error wrongType, .other)
    | _ =>
      let l := KvStore.pushed left values slot.elements
      (.ok l.length, .list l)

end Slot

def Slots := Int → Bytes → Slot

def Slots.set (σ : Slots) (db : Int) (key : Bytes) (slot : Slot) : Slots := fun db' key' =>
  if db' = db ∧ key' = key then slot else σ db' key'

def Item.slot (o : Item F) : Slot := if o.type = .list then .list o.list else .other

namespace KvStore

def slots (s : KvStore F) : Slots := fun db key => ((s.item db key).map Item.slot).getD .free

/-- No key has a deadline. -/
def Timeless (s : KvStore F) : Prop := ∀ db key, ∀ o ∈ s.item db key, o.expireAtMs ≤ 0

end KvStore

/-! ## Lemmas -/

namespace Slots

variable {σ : Slots} {db : Int} {key : Bytes} {slot : Slot}

@[simp] theorem set_self : σ.set db key slot db key = slot := if_pos ⟨rfl, rfl⟩

theorem set_of_ne {db' : Int} {key' : Bytes} (h : ¬(db' = db ∧ key' = key)) :
    σ.set db key slot db' key' = σ db' key' := if_neg h

theorem set_eq : σ.set db key (σ db key) = σ := by
  funext db' key'
  unfold set
  split
  · next h => rw [h.1, h.2]
  · rfl

end Slots

namespace KvStore

variable {s : KvStore F}

theorem timeless_empty : (KvStore.empty : KvStore F).Timeless := by
  intro db key o ho
  have hnone : (KvStore.empty : KvStore F).item db key = none := rfl
  rw [hnone] at ho
  cases ho

theorem Timeless.live (h : s.Timeless) (now db : Int) (key : Bytes) : s.live now db key = s.item db key := by
  unfold KvStore.live
  cases ho : s.item db key with
  | none => rfl
  | some o =>
    have hexp : o.expired now = false := by
      have hd := h db key o ho
      unfold Item.expired
      rw [decide_eq_false (by omega : ¬0 < o.expireAtMs), Bool.false_and]
    simp [hexp]

/-- What an operation on lists does to its slot. -/
def slotAfter {α : Type} (f : Option (List Bytes) → Out (List Bytes) α) (slot : Slot) : Slot :=
  match slot with
  | .free => (((f none).act.apply none).map Slot.list).getD .free
  | .list l => (((f (some l)).act.apply (some l)).map Slot.list).getD .free
  | .other => .other

def replyOf {α : Type} (f : Option (List Bytes) → Out (List Bytes) (Except Bytes α)) (slot : Slot) : Except Bytes α :=
  match slot with
  | .free => (f none).reply
  | .list l => (f (some l)).reply
  | .other => .error wrongType

omit [Platform F] in
theorem slot_apply {α : Type} (refuse : α) (f : Option (List Bytes) → Out (List Bytes) α) (o : Option (Item F)) :
    let left := (liftBody (Field.list.body refuse f) o).act.apply o
    (left.map Item.slot).getD .free = slotAfter f ((o.map Item.slot).getD .free) ∧
      ∀ o' ∈ left, o'.expireAtMs = (o.map Item.expireAtMs).getD 0 := by
  intro left
  cases o with
  | none =>
    have hleft : left = (liftBody (Field.list.body refuse f) (none : Option (Item F))).act.apply none := rfl
    unfold liftBody Field.body Out.map at hleft
    unfold slotAfter
    cases hact : (f none).act with
    | keep =>
      simp only [Option.map_none, hact, Act.map, Act.apply] at hleft
      rw [hleft]
      refine ⟨rfl, ?_⟩
      intro o' ho'
      cases ho'
    | put l =>
      simp only [Option.map_none, hact, Act.map, Act.apply] at hleft
      rw [hleft]
      refine ⟨rfl, ?_⟩
      intro o' ho'
      cases ho'
      rfl
    | erase =>
      simp only [Option.map_none, hact, Act.map, Act.apply] at hleft
      rw [hleft]
      refine ⟨rfl, ?_⟩
      intro o' ho'
      cases ho'
  | some o =>
    have hleft : left = (liftBody (Field.list.body refuse f) (some o)).act.apply (some o) := rfl
    by_cases ht : o.type = .list
    · have hslot : ((some o).map Item.slot).getD .free = .list o.list := if_pos ht
      unfold liftBody at hleft
      simp only [Option.map_some] at hleft
      rw [Field.body_of_type (L := Field.list) ht] at hleft
      rw [hslot]
      show _ = (((f (some o.list)).act.apply (some o.list)).map Slot.list).getD .free ∧ _
      have hget : Field.list.get o.toObj = o.list := rfl
      rw [hget] at hleft
      cases hact : (f (some o.list)).act with
      | keep =>
        simp only [Out.map, hact, Act.map, Act.apply] at hleft
        rw [hleft]
        refine ⟨hslot, ?_⟩
        intro o' ho'
        cases ho'
        rfl
      | put l =>
        simp only [Out.map, hact, Act.map, Act.apply] at hleft
        rw [hleft]
        refine ⟨if_pos ht, ?_⟩
        intro o' ho'
        cases ho'
        rfl
      | erase =>
        simp only [Out.map, hact, Act.map, Act.apply] at hleft
        rw [hleft]
        refine ⟨rfl, ?_⟩
        intro o' ho'
        cases ho'
    · have hslot : ((some o).map Item.slot).getD .free = .other := if_neg ht
      unfold liftBody at hleft
      simp only [Option.map_some] at hleft
      rw [Field.body_of_ne (L := Field.list) ht] at hleft
      simp only [Out.map, Act.map, Act.apply] at hleft
      rw [hslot, hleft]
      refine ⟨hslot, ?_⟩
      intro o' ho'
      cases ho'
      rfl

theorem onField_slots {α : Type} (h : s.Timeless) (env : Env) (db : Int) (key : Bytes)
    (f : Option (List Bytes) → Out (List Bytes) (Except Bytes α)) :
    let r := StoreM.onField .list db key f env s
    r.1 = replyOf f (s.slots db key) ∧ r.2.slots = s.slots.set db key (slotAfter f (s.slots db key)) ∧
      r.2.Timeless := by
  intro r
  have hlive := h.live env.now db key
  obtain ⟨hslot, hdeadline⟩ := slot_apply (.error wrongType) f (s.item db key)
  have hitem : ∀ db' key', r.2.item db' key' = if db' = db ∧ key' = key then
      (liftBody (Field.list.body (.error wrongType) f) (s.item db key)).act.apply (s.item db key)
      else s.item db' key' := by
    intro db' key'
    show (KvStore.onEntry _ _ _ _ s).2.item db' key' = _
    rw [KvStore.item_onEntry, hlive]
  refine ⟨?_, ?_, ?_⟩
  · show (KvStore.onEntry _ _ _ _ s).1 = _
    rw [KvStore.onEntry_reply, hlive]
    unfold slots
    cases s.item db key with
    | none => rfl
    | some o =>
      unfold liftBody
      simp only [Option.map_some, Option.getD_some]
      unfold Item.slot
      by_cases ht : o.type = .list
      · rw [Field.body_of_type (L := Field.list) ht, if_pos ht]
        rfl
      · rw [Field.body_of_ne (L := Field.list) ht, if_neg ht]
        rfl
  · funext db' key'
    unfold slots Slots.set
    rw [hitem]
    by_cases hk : db' = db ∧ key' = key
    · rw [if_pos hk, if_pos hk]
      exact hslot
    · rw [if_neg hk, if_neg hk]
  · intro db' key' o ho
    rw [hitem] at ho
    split at ho
    · rw [hdeadline o ho]
      cases hold : s.item db key with
      | none => exact Int.le_refl 0
      | some o' => exact h db key o' hold
    · exact h db' key' o ho

theorem listPop_slots (h : s.Timeless) (env : Env) (db : Int) (key : Bytes) (left : Bool) :
    let r := listPop db key left env s
    r.1 = ((s.slots db key).pop left).1 ∧ r.2.slots = s.slots.set db key ((s.slots db key).pop left).2 ∧
      r.2.Timeless := by
  obtain ⟨hreply, hslots, htimeless⟩ := onField_slots h env db key (popBody left)
  refine ⟨hreply.trans ?_, hslots.trans ?_, htimeless⟩
  · unfold replyOf popBody Slot.pop
    cases s.slots db key with
    | free => rfl
    | other => rfl
    | list l => cases hpop : popped left l <;> simp [hpop]
  · congr 1
    unfold slotAfter popBody Slot.pop
    cases s.slots db key with
    | free => rfl
    | other => rfl
    | list l =>
      cases hpop : popped left l with
      | none => simp [hpop, Act.apply]
      | some p =>
        simp only [Option.bind_some, hpop]
        split <;> rfl

theorem listPush_slots (h : s.Timeless) (env : Env) (db : Int) (key : Bytes) (values : List Bytes) (left : Bool) :
    let r := listPush db key values left env s
    r.1 = ((s.slots db key).push left values).1 ∧
      r.2.slots = s.slots.set db key ((s.slots db key).push left values).2 ∧ r.2.Timeless := by
  unfold listPush Slot.push
  by_cases hempty : values.isEmpty = true
  · simp only [if_pos hempty]
    exact ⟨rfl, Slots.set_eq.symm, h⟩
  · simp only [if_neg hempty]
    obtain ⟨hreply, hslots, htimeless⟩ := onField_slots h env db key fun v =>
      ({ act := .put (pushed left values (v.getD [])), bump := true,
         reply := .ok (pushed left values (v.getD [])).length } : Out (List Bytes) (Except Bytes Int))
    refine ⟨hreply.trans ?_, hslots.trans ?_, htimeless⟩
    · cases s.slots db key <;> rfl
    · congr 1
      cases s.slots db key <;> rfl

end KvStore

end Kv
