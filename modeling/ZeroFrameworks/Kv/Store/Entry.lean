import ZeroFrameworks.Kv.Bytes

/-!
# Entries of the store

An entry holds the fields of all six types at once, as the C++ struct does; `type` says which of
them count.  `norm` clears the others: two entries with the same `norm` answer every command alike
(the operations' `norm` lemmas, in the modules that define them).
-/

namespace Kv

/-- `ObjType`; `other` is an enumerator value outside the six, which a restored payload can carry. -/
inductive ObjType where
  | string | hash | list | set | zset | stream
  | other (code : UInt8)
  deriving DecidableEq, Repr

structure StreamEntry where
  id : Bytes
  fields : BMap Bytes

structure StreamPendingMeta where
  deliveryMs : Int := 0
  deliveryCount : Int := 0

structure StreamConsumerState where
  lastId : Bytes := []
  pending : List Bytes := []
  pendingMeta : BMap StreamPendingMeta := ∅

structure StreamGroupState where
  lastId : Bytes := []
  consumers : BMap StreamConsumerState := ∅

/-- The value an entry holds. -/
structure Obj (F : Type) where
  type : ObjType := .string
  value : Bytes := []
  hash : BMap Bytes := ∅
  list : List Bytes := []
  set : BSet := ∅
  zset : BMap F := ∅
  stream : List StreamEntry := []
  streamLastMs : Nat := 0
  streamLastSeq : Nat := 0
  streamGroups : BMap StreamGroupState := ∅

/-- An `Entry` without its access time, which only eviction reads. -/
structure Item (F : Type) extends Obj F where
  expireAtMs : Int := 0

structure Entry (F : Type) extends Item F where
  lruMs : Int := 0

variable {F : Type}

/-- The value with the fields of other types cleared. -/
def Obj.norm (o : Obj F) : Obj F :=
  match o.type with
  | .string => { type := .string, value := o.value }
  | .hash => { type := .hash, hash := o.hash }
  | .list => { type := .list, list := o.list }
  | .set => { type := .set, set := o.set }
  | .zset => { type := .zset, zset := o.zset }
  | .stream =>
    { type := .stream, stream := o.stream, streamLastMs := o.streamLastMs,
      streamLastSeq := o.streamLastSeq, streamGroups := o.streamGroups }
  | .other c => { type := .other c, value := o.value }

@[simp] theorem Obj.norm_norm (o : Obj F) : o.norm.norm = o.norm := by
  obtain ⟨t, _⟩ := o
  cases t <;> rfl

@[simp] theorem Obj.norm_type (o : Obj F) : o.norm.type = o.type := by
  obtain ⟨t, _⟩ := o
  cases t <;> rfl

namespace Item

/-- `isExpired`. -/
def expired (o : Item F) (now : Int) : Bool := decide (0 < o.expireAtMs) && decide (o.expireAtMs ≤ now)

def norm (o : Item F) : Item F := { o.toObj.norm with expireAtMs := o.expireAtMs }

@[simp] theorem norm_expireAtMs (o : Item F) : o.norm.expireAtMs = o.expireAtMs := rfl

@[simp] theorem norm_toObj (o : Item F) : o.norm.toObj = o.toObj.norm := rfl

@[simp] theorem norm_norm (o : Item F) : o.norm.norm = o.norm := by
  simp [norm]

@[simp] theorem expired_norm (o : Item F) (now : Int) : o.norm.expired now = o.expired now := rfl

theorem norm_eq_iff (o p : Item F) :
    o.norm = p.norm ↔ o.toObj.norm = p.toObj.norm ∧ o.expireAtMs = p.expireAtMs := by
  simp [norm]

end Item

/-! ## Outcomes of operations -/

/-- What an operation does to the entry it looked at; `T` is the part of it the operation sets. -/
inductive Act (T : Type) where
  | keep
  | put (o : T)
  | erase

/-- Outcome of the body of an operation. -/
structure Out (T : Type) (α : Type) where
  act : Act T := .keep
  touch : Bool := false
  bump : Bool := false
  reply : α

variable {α : Type}

def Act.apply {T : Type} (a : Act T) (old : Option T) : Option T :=
  match a with
  | .keep => old
  | .put o => some o
  | .erase => none

def Act.map {T U : Type} (f : T → U) (a : Act T) : Act U :=
  match a with
  | .keep => .keep
  | .put o => .put (f o)
  | .erase => .erase

namespace Out

def map {T U : Type} (f : T → U) (out : Out T α) : Out U α := { out with act := out.act.map f }

/-- The entry an operation leaves; a new entry starts with access time `0`. -/
def entry (out : Out (Item F) α) (now : Int) (old : Option (Entry F)) : Option (Entry F) :=
  (out.act.apply (old.map Entry.toItem)).map fun o =>
    { o with lruMs := if out.touch then now else (old.map Entry.lruMs).getD 0 }

@[simp] theorem entry_toItem (out : Out (Item F) α) (now : Int) (old : Option (Entry F)) :
    (out.entry now old).map Entry.toItem = out.act.apply (old.map Entry.toItem) := by
  simp [entry, Function.comp_def]

/-- Two outcomes that agree up to `f` leave entries that do, unless they keep what was there. -/
theorem apply_congr {T U : Type} {f : T → U} {out out' : Out T α} (h : out.map f = out'.map f) (hk : out.act ≠ .keep)
    (hk' : out'.act ≠ .keep) (old old' : Option T) : (out.act.apply old).map f = (out'.act.apply old').map f := by
  have hact : out.act.map f = out'.act.map f := congrArg Out.act h
  cases ha : out.act with
  | keep => exact absurd ha hk
  | put o =>
    cases ha' : out'.act with
    | keep => exact absurd ha' hk'
    | put o' =>
      rw [ha, ha'] at hact
      exact congrArg some (Act.put.inj hact)
    | erase =>
      rw [ha, ha'] at hact
      cases hact
  | erase =>
    cases ha' : out'.act with
    | keep => exact absurd ha' hk'
    | put o' =>
      rw [ha, ha'] at hact
      cases hact
    | erase => rfl

end Out

/-- A body that sets values, as one that sets items: an old deadline stays and a new entry has
none. -/
def liftBody (body : Option (Obj F) → Out (Obj F) α) (o : Option (Item F)) : Out (Item F) α :=
  (body (o.map Item.toObj)).map fun v => { v with expireAtMs := (o.map Item.expireAtMs).getD 0 }

end Kv
