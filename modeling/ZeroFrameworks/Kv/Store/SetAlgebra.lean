import ZeroFrameworks.Kv.Store.Sets
import ZeroFrameworks.Kv.Store.Views

/-!
# Set algebra and its STORE forms

Each form reads its sources one after the other and stops at one of another type; the intersection also stops at a missing
one, and the difference at a missing first one.  What a loop gives depends on what the keys show alone, so that the two
forms of an operation agree.

    a plain form gives WRONGTYPE if a source that is read has another type, else the sorted result   (set_algebra)
    its STORE form fails when it fails, and else leaves its result under the destination  (set_algebra)
-/

namespace Kv

/-! ## Specification -/

inductive SetOp where
  | inter
  | union
  | diff

/-- What a source gives: WRONGTYPE, nothing, or a set. -/
def fetch {F : Type} (v : View F) (db : Int) (key : Bytes) : Except Bytes (Option BSet) :=
  match Field.sets.held (v db key) with
  | .absent => .ok none
  | .other => .error wrongType
  | .value a _ => .ok (some a)

/-- The set under a key; none is the empty one. -/
def membersAt {F : Type} (v : View F) (db : Int) (key : Bytes) : BSet :=
  match Field.sets.held (v db key) with
  | .value a _ => a
  | _ => ∅

/-- A set as a key shows it, without a deadline. -/
def shownSet {F : Type} (a : BSet) : Option (Item F) := if a.isEmpty then none else some (Field.sets.item a 0)

namespace SetOp

/-- `m` is in the intersection, the union, or the first set and no other. -/
def Gives (members : Bytes → BSet) (keys : List Bytes) (m : Bytes) : SetOp → Prop
  | inter => ∀ key ∈ keys, m ∈ members key
  | union => ∃ key ∈ keys, m ∈ members key
  | diff => (∀ key ∈ keys.head?, m ∈ members key) ∧ ∀ key ∈ keys.tail, m ∉ members key

variable {F : Type}

/-- A source of another type is read: an intersection reads up to the first key without a set, a union all keys, a
difference the first one and, if it has a set, all others. -/
def Refused (v : View F) (db : Int) (keys : List Bytes) : SetOp → Prop
  | inter => ∃ front key back, keys = front ++ key :: back ∧
      (∀ k ∈ front, ∃ a d, Field.sets.held (v db k) = .value a d) ∧ Field.sets.held (v db key) = .other
  | union => ∃ key ∈ keys, Field.sets.held (v db key) = .other
  | diff => ∃ key ∈ keys.head?, Field.sets.held (v db key) = .other ∨
      (∃ a d, Field.sets.held (v db key) = .value a d) ∧ ∃ k ∈ keys.tail, Field.sets.held (v db k) = .other

variable [Platform F]

def plain (db : Int) (keys : List Bytes) : SetOp → StoreM F (Except Bytes (List Bytes))
  | inter => KvStore.setInter db keys
  | union => KvStore.setUnion db keys
  | diff => KvStore.setDiff db keys

def stored (db : Int) (dest : Bytes) (keys : List Bytes) : SetOp → StoreM F (Except Bytes Int)
  | inter => KvStore.setInterStore db dest keys
  | union => KvStore.setUnionStore db dest keys
  | diff => KvStore.setDiffStore db dest keys

/-- Both forms on one store. -/
structure Agrees (op : SetOp) (env : Env) (db : Int) (dest : Bytes) (keys : List Bytes) (s : KvStore F) : Prop where
  plain_view : (op.plain db keys env s).2.view env.now = s.view env.now
  forms : (op.Refused (s.view env.now) db keys ∧
      (op.plain db keys env s).1 = .error wrongType ∧ (op.stored db dest keys env s).1 = .error wrongType ∧
      (op.stored db dest keys env s).2.view env.now = s.view env.now) ∨
    ¬ op.Refused (s.view env.now) db keys ∧ ∃ out : List Bytes, out.Pairwise (fun a b => compare a b = .lt) ∧
      (∀ m, m ∈ out ↔ op.Gives (membersAt (s.view env.now) db) keys m) ∧
      (op.plain db keys env s).1 = .ok out ∧ (op.stored db dest keys env s).1 = .ok out.length ∧
      ∃ a : BSet, a.toList = out ∧
        (op.stored db dest keys env s).2.view env.now = View.set (s.view env.now) db dest (shownSet a)

end SetOp

/-! ## Loops on what the keys show -/

section loops

variable (get : Bytes → Except Bytes (Option BSet))

def interOf : List Bytes → Option BSet → Except Bytes (Option BSet)
  | [], acc => .ok acc
  | key :: keys, acc => do
    match ← get key with
    | none => .ok none
    | some a => interOf keys (some (acc.elim a fun prev => prev.filter a.contains))

/-- The sources that are there, taken together one after the other. -/
def foldOf (step : BSet → BSet → BSet) : List Bytes → BSet → Except Bytes BSet
  | [], acc => .ok acc
  | key :: keys, acc => do
    match ← get key with
    | none => foldOf step keys acc
    | some a => foldOf step keys (step acc a)

def unionOf : List Bytes → BSet → Except Bytes BSet := foldOf get fun acc a => a.toList.foldl (·.insert ·) acc

def diffOf : List Bytes → BSet → Except Bytes BSet := foldOf get fun acc a => a.toList.foldl (·.erase ·) acc

def diffAllOf : List Bytes → Except Bytes BSet
  | [] => .ok ∅
  | key :: keys => do
    match ← get key with
    | none => .ok ∅
    | some a => diffOf get keys a

/-- What an operation gives, as a set. -/
def SetOp.of (keys : List Bytes) : SetOp → Except Bytes BSet
  | .inter => (interOf get keys none).map (·.getD ∅)
  | .union => unionOf get keys ∅
  | .diff => diffAllOf get keys

end loops

/-! ## The loops of the store -/

section refinement

variable {F : Type} [Platform F] {env : Env} {db : Int} {keys : List Bytes} {s : KvStore F} {touch : Bool}

theorem source_reply (key : Bytes) : (KvStore.source touch db key env s).1 = fetch (s.view env.now) db key := by
  unfold KvStore.source StoreM.onFoundField StoreM.onFoundObj StoreM.onFound fetch
  rw [KvStore.onFound_reply, held_view]
  cases s.live env.now db key with
  | none => rfl
  | some o =>
    rw [Option.elim_some]
    by_cases ht : o.type = .set
    · rw [Field.held_of_type (L := Field.sets) ht]
      dsimp only
      rw [Field.body_of_type (L := Field.sets) (o := o.toObj) ht]
      rfl
    · rw [Field.held_of_ne (L := Field.sets) ht]
      dsimp only
      rw [Field.body_of_ne (L := Field.sets) (o := o.toObj) ht]
      rfl

theorem source_view (touch : Bool) (key : Bytes) : (KvStore.source touch db key env s).2.view env.now = s.view env.now :=
  (KvStore.reads_source env s trivial trivial).view

theorem interLoop_eq (acc : Option BSet) :
    (KvStore.interLoop touch db keys acc env s).1 = interOf (fetch (s.view env.now) db) keys acc := by
  induction keys generalizing acc s with
  | nil => rfl
  | cons key keys ih =>
    unfold KvStore.interLoop interOf
    rw [StoreM.bind_apply, source_reply]
    cases hf : fetch (s.view env.now) db key with
    | error e => rfl
    | ok r =>
      cases r with
      | none => rfl
      | some a =>
        rw [← source_view touch key]
        exact ih _

theorem unionLoop_eq (acc : BSet) :
    (KvStore.unionLoop touch db keys acc env s).1 = unionOf (fetch (s.view env.now) db) keys acc := by
  induction keys generalizing acc s with
  | nil => rfl
  | cons key keys ih =>
    unfold KvStore.unionLoop unionOf foldOf
    rw [StoreM.bind_apply, source_reply]
    cases hf : fetch (s.view env.now) db key with
    | error e => rfl
    | ok r =>
      rw [← source_view touch key]
      cases r with
      | none => exact ih _
      | some a => exact ih _

theorem diffLoop_eq (acc : BSet) :
    (KvStore.diffLoop db keys acc env s).1 = diffOf (fetch (s.view env.now) db) keys acc := by
  induction keys generalizing acc s with
  | nil => rfl
  | cons key keys ih =>
    unfold KvStore.diffLoop diffOf foldOf
    rw [StoreM.bind_apply, source_reply]
    cases hf : fetch (s.view env.now) db key with
    | error e => rfl
    | ok r =>
      rw [← source_view false key]
      cases r with
      | none => exact ih _
      | some a => exact ih _

theorem diffAll_eq : (KvStore.diffAll db keys env s).1 = diffAllOf (fetch (s.view env.now) db) keys := by
  cases keys with
  | nil => rfl
  | cons key keys =>
    unfold KvStore.diffAll diffAllOf
    simp only [StoreM.bind_apply, source_reply]
    cases hf : fetch (s.view env.now) db key with
    | error e => rfl
    | ok r =>
      cases r with
      | none => rfl
      | some a =>
        rw [← source_view false key]
        exact diffLoop_eq a

theorem plain_eq (env : Env) (db : Int) (keys : List Bytes) (s : KvStore F) (op : SetOp) :
    (op.plain db keys env s).1 = (op.of (fetch (s.view env.now) db) keys).map (·.toList) ∧
    (op.plain db keys env s).2.view env.now = s.view env.now := by
  cases op with
  | inter =>
    refine ⟨?_, (KvStore.reads_interLoop env s trivial trivial).view⟩
    show (KvStore.interLoop true db keys none env s).1.map _ = _
    rw [interLoop_eq]
    unfold SetOp.of
    cases interOf (fetch (s.view env.now) db) keys none <;> rfl
  | union =>
    refine ⟨?_, (KvStore.reads_unionLoop env s trivial trivial).view⟩
    show (KvStore.unionLoop true db keys ∅ env s).1.map _ = _
    rw [unionLoop_eq]
    rfl
  | diff =>
    refine ⟨?_, (KvStore.reads_diffAll env s trivial trivial).view⟩
    show (KvStore.diffAll db keys env s).1.map _ = _
    rw [diffAll_eq]
    rfl

theorem view_onSlot (key : Bytes) {α : Type} (body : Option (Item F) → Out (Item F) α) :
    (StoreM.onSlot db key body env s).2.view env.now = View.set (s.view env.now) db key
      ((((body (s.item db key)).act.apply (s.item db key)).filter fun o => !o.expired env.now).map Item.norm) := by
  funext db' key'
  unfold StoreM.onSlot KvStore.view KvStore.live View.set
  rw [KvStore.item_onSlot]
  split <;> rfl

theorem storeSet_ok (env : Env) (db : Int) (s : KvStore F) (dest : Bytes) (a : BSet) :
    (KvStore.storeSet db dest (.ok a) env s).1 = .ok (a.size : Int) ∧
    (KvStore.storeSet db dest (.ok a) env s).2.view env.now = View.set (s.view env.now) db dest (shownSet a) := by
  constructor
  · show Except.ok (KvStore.storeBody a (s.item db dest)).reply = _
    unfold KvStore.storeBody
    split
    next h => rw [Std.ExtTreeSet.isEmpty_iff.mp h]; rfl
    next => rfl
  · refine (view_onSlot dest _).trans ?_
    congr 1
    unfold KvStore.storeBody shownSet
    split
    · rfl
    · rfl

theorem stored_eq (env : Env) (db : Int) (keys : List Bytes) (s : KvStore F) (op : SetOp) (dest : Bytes)
    (hkeys : keys ≠ []) : ∃ s' : KvStore F, s'.view env.now = s.view env.now ∧
    op.stored db dest keys env s = KvStore.storeSet db dest (op.of (fetch (s.view env.now) db) keys) env s' := by
  cases op with
  | inter =>
    refine ⟨(KvStore.interLoop false db keys none env s).2, (KvStore.reads_interLoop env s trivial trivial).view, ?_⟩
    show KvStore.storeSet db dest ((KvStore.interLoop false db keys none env s).1.map _) env _ = _
    rw [interLoop_eq]
    rfl
  | union =>
    refine ⟨(KvStore.unionLoop false db keys ∅ env s).2, (KvStore.reads_unionLoop env s trivial trivial).view, ?_⟩
    show KvStore.storeSet db dest (KvStore.unionLoop false db keys ∅ env s).1 env _ = _
    rw [unionLoop_eq]
    rfl
  | diff =>
    refine ⟨(KvStore.diffAll db keys env s).2, (KvStore.reads_diffAll env s trivial trivial).view, ?_⟩
    show KvStore.setDiffStore db dest keys env s = _
    unfold KvStore.setDiffStore
    rw [if_neg (by simpa using hkeys), StoreM.bind_apply, diffAll_eq]
    rfl

end refinement

/-! ## What the loops give -/

section members

variable {F : Type} {v : View F} {db : Int} {key : Bytes} {keys : List Bytes}

theorem fetch_cases (v : View F) (db : Int) (key : Bytes) :
    fetch v db key = .error wrongType ∧ Field.sets.held (v db key) = .other ∨
      fetch v db key = .ok none ∧ Field.sets.held (v db key) = .absent ∨
      ∃ a d, fetch v db key = .ok (some a) ∧ Field.sets.held (v db key) = .value a d := by
  unfold fetch
  cases hheld : Field.sets.held (v db key) with
  | absent => exact .inr (.inl ⟨rfl, rfl⟩)
  | other => exact .inl ⟨rfl, rfl⟩
  | value a d => exact .inr (.inr ⟨a, d, rfl, rfl⟩)

theorem inter_refused_cons : SetOp.inter.Refused v db (key :: keys) ↔ Field.sets.held (v db key) = .other ∨
    (∃ a d, Field.sets.held (v db key) = .value a d) ∧ SetOp.inter.Refused v db keys := by
  constructor
  · rintro ⟨front, k, back, hkeys, hfront, hother⟩
    cases front with
    | nil =>
      obtain ⟨rfl, -⟩ := List.cons.inj hkeys
      exact .inl hother
    | cons first front =>
      obtain ⟨rfl, rfl⟩ := List.cons.inj hkeys
      obtain ⟨hfirst, hfront⟩ := List.forall_mem_cons.mp hfront
      exact .inr ⟨hfirst, front, k, back, rfl, hfront, hother⟩
  · rintro (hother | ⟨hfirst, front, k, back, rfl, hfront, hother⟩)
    · exact ⟨[], key, keys, rfl, by simp, hother⟩
    · exact ⟨key :: front, k, back, rfl, List.forall_mem_cons.mpr ⟨hfirst, hfront⟩, hother⟩

theorem fetch_ok {r : Option BSet} (h : fetch v db key = .ok r) : membersAt v db key = r.getD ∅ := by
  unfold fetch at h
  unfold membersAt
  split at h
  next hh => rw [hh, ← Except.ok.inj h]; rfl
  · cases h
  next hh => rw [hh, ← Except.ok.inj h]; rfl

theorem mem_insert_all (a : List Bytes) (m : Bytes) : ∀ acc : BSet, m ∈ a.foldl (·.insert ·) acc ↔ m ∈ acc ∨ m ∈ a := by
  induction a with
  | nil => simp
  | cons x xs ih =>
    intro acc
    rw [List.foldl_cons, ih, Std.ExtTreeSet.mem_insert, Std.compare_eq_iff_eq, List.mem_cons, eq_comm, or_comm (a := m = x),
      or_assoc]

theorem mem_erase_all (a : List Bytes) (m : Bytes) : ∀ acc : BSet, m ∈ a.foldl (·.erase ·) acc ↔ m ∈ acc ∧ m ∉ a := by
  induction a with
  | nil => simp
  | cons x xs ih =>
    intro acc
    rw [List.foldl_cons, ih, Std.ExtTreeSet.mem_erase, ne_eq, Std.compare_eq_iff_eq, List.mem_cons, not_or, eq_comm,
      and_assoc, and_left_comm]

/-- `r` is WRONGTYPE if `refused`, and else some result. -/
def Answers {α : Type} (r : Except Bytes α) (refused : Prop) : Prop :=
  r = .error wrongType ∧ refused ∨ (∃ a, r = .ok a) ∧ ¬ refused

theorem interOf_answers : ∀ acc, Answers (interOf (fetch v db) keys acc) (SetOp.inter.Refused v db keys) := by
  induction keys with
  | nil =>
    intro acc
    exact .inr ⟨⟨acc, rfl⟩, fun ⟨front, _, _, h, _⟩ => by cases front <;> cases h⟩
  | cons key keys ih =>
    intro acc
    unfold interOf
    rw [inter_refused_cons]
    obtain ⟨hf, hh⟩ | ⟨hf, hh⟩ | ⟨a, d, hf, hh⟩ := fetch_cases v db key
    · rw [hf]
      exact .inl ⟨rfl, .inl hh⟩
    · rw [hf]
      exact .inr ⟨⟨none, rfl⟩, by simp [hh]⟩
    · rw [hf]
      obtain ⟨herr, href⟩ | ⟨hok, hnot⟩ := ih (some (acc.elim a fun prev => prev.filter a.contains))
      · exact .inl ⟨herr, .inr ⟨⟨a, d, hh⟩, href⟩⟩
      · exact .inr ⟨hok, by simp [hh, hnot]⟩

theorem interOf_ok {r : Option BSet} (m : Bytes) : ∀ acc, keys ≠ [] ∨ acc ≠ none → interOf (fetch v db) keys acc = .ok r →
    (m ∈ r.getD ∅ ↔ (∀ a ∈ acc, m ∈ a) ∧ ∀ key ∈ keys, m ∈ membersAt v db key) := by
  induction keys with
  | nil =>
    intro acc hsome h
    cases acc with
    | none => exact absurd rfl (hsome.resolve_left fun h => h rfl)
    | some a =>
      obtain rfl : some a = r := Except.ok.inj h
      simp
  | cons key keys ih =>
    intro acc _ h
    unfold interOf at h
    cases hf : fetch v db key with
    | error e => rw [hf] at h; cases h
    | ok r' =>
      rw [hf] at h
      have hmem := fetch_ok hf
      rw [List.forall_mem_cons, hmem]
      cases r' with
      | none =>
        obtain rfl : none = r := Except.ok.inj h
        simp
      | some a =>
        rw [ih _ (.inr (Option.some_ne_none _)) h, Option.getD_some]
        cases acc with
        | none => simp
        | some prev => simp [and_assoc]

theorem foldOf_answers {step : BSet → BSet → BSet} : ∀ acc, Answers (foldOf (fetch v db) step keys acc)
    (∃ key ∈ keys, Field.sets.held (v db key) = .other) := by
  induction keys with
  | nil =>
    intro acc
    exact .inr ⟨⟨acc, rfl⟩, by simp⟩
  | cons key keys ih =>
    intro acc
    unfold foldOf
    rw [List.exists_mem_cons_iff]
    obtain ⟨hf, hh⟩ | ⟨hf, hh⟩ | ⟨a, d, hf, hh⟩ := fetch_cases v db key
    · rw [hf]
      exact .inl ⟨rfl, .inl hh⟩
    · rw [hf, hh]
      exact (ih acc).imp (And.imp_right .inr) (And.imp_right fun hnot => by simpa using hnot)
    · rw [hf, hh]
      exact (ih (step acc a)).imp (And.imp_right .inr) (And.imp_right fun hnot => by simpa using hnot)

/-- A missing source counts as an empty one. -/
theorem foldOf_ok {step : BSet → BSet → BSet} (hstep : ∀ acc, step acc ∅ = acc) {r : BSet} : ∀ acc,
    foldOf (fetch v db) step keys acc = .ok r → r = (keys.map (membersAt v db)).foldl step acc := by
  induction keys with
  | nil =>
    intro acc h
    exact (Except.ok.inj h).symm
  | cons key keys ih =>
    intro acc h
    unfold foldOf at h
    cases hf : fetch v db key with
    | error e => rw [hf] at h; cases h
    | ok r' =>
      rw [hf] at h
      rw [List.map_cons, List.foldl_cons, fetch_ok hf]
      cases r' with
      | none => rw [Option.getD_none, hstep]; exact ih _ h
      | some a => exact ih _ h

theorem mem_union_all (m : Bytes) (sets : List BSet) : ∀ acc : BSet,
    m ∈ sets.foldl (fun acc a => a.toList.foldl (·.insert ·) acc) acc ↔ m ∈ acc ∨ ∃ a ∈ sets, m ∈ a := by
  induction sets with
  | nil => simp
  | cons a sets ih =>
    intro acc
    rw [List.foldl_cons, ih, mem_insert_all, Std.ExtTreeSet.mem_toList, or_assoc]
    simp

theorem mem_diff_all (m : Bytes) (sets : List BSet) : ∀ acc : BSet,
    m ∈ sets.foldl (fun acc a => a.toList.foldl (·.erase ·) acc) acc ↔ m ∈ acc ∧ ∀ a ∈ sets, m ∉ a := by
  induction sets with
  | nil => simp
  | cons a sets ih =>
    intro acc
    rw [List.foldl_cons, ih, mem_erase_all, Std.ExtTreeSet.mem_toList, and_assoc]
    simp

theorem unionOf_ok {r : BSet} (m : Bytes) (acc : BSet) (h : unionOf (fetch v db) keys acc = .ok r) :
    m ∈ r ↔ m ∈ acc ∨ ∃ key ∈ keys, m ∈ membersAt v db key := by
  rw [foldOf_ok (fun _ => rfl) acc h, mem_union_all]
  simp

theorem diffOf_ok {r : BSet} (m : Bytes) (acc : BSet) (h : diffOf (fetch v db) keys acc = .ok r) :
    m ∈ r ↔ m ∈ acc ∧ ∀ key ∈ keys, m ∉ membersAt v db key := by
  rw [foldOf_ok (fun _ => rfl) acc h, mem_diff_all]
  simp

theorem SetOp.of_answers (op : SetOp) : Answers (op.of (fetch v db) keys) (op.Refused v db keys) := by
  cases op with
  | inter =>
    unfold SetOp.of
    obtain ⟨herr, href⟩ | ⟨⟨r, hok⟩, hnot⟩ :
        Answers (interOf (fetch v db) keys none) (SetOp.inter.Refused v db keys) := interOf_answers none
    · exact .inl ⟨by rw [herr]; rfl, href⟩
    · exact .inr ⟨⟨r.getD ∅, by rw [hok]; rfl⟩, hnot⟩
  | union => exact foldOf_answers ∅
  | diff =>
    cases keys with
    | nil => exact .inr ⟨⟨∅, rfl⟩, by simp [SetOp.Refused]⟩
    | cons key keys =>
      have hrefused : SetOp.diff.Refused v db (key :: keys) ↔ Field.sets.held (v db key) = .other ∨
          (∃ a d, Field.sets.held (v db key) = .value a d) ∧ ∃ k ∈ keys, Field.sets.held (v db k) = .other := by
        simp [SetOp.Refused]
      rw [hrefused]
      show Answers (diffAllOf (fetch v db) (key :: keys)) _
      rw [diffAllOf]
      obtain ⟨hf, hh⟩ | ⟨hf, hh⟩ | ⟨a, d, hf, hh⟩ := fetch_cases v db key
      · rw [hf]
        exact .inl ⟨rfl, .inl hh⟩
      · rw [hf]
        exact .inr ⟨⟨∅, rfl⟩, by simp [hh]⟩
      · rw [hf]
        obtain ⟨herr, href⟩ | ⟨hok, hnot⟩ :
            Answers (diffOf (fetch v db) keys a) (∃ key ∈ keys, Field.sets.held (v db key) = .other) := foldOf_answers a
        · exact .inl ⟨herr, .inr ⟨⟨a, d, hh⟩, href⟩⟩
        · exact .inr ⟨hok, by simpa [hh] using hnot⟩

theorem SetOp.of_ok {op : SetOp} {a : BSet} (hkeys : keys ≠ []) (h : op.of (fetch v db) keys = .ok a) (m : Bytes) :
    m ∈ a ↔ op.Gives (membersAt v db) keys m := by
  cases op with
  | inter =>
    unfold SetOp.of at h
    cases hi : interOf (fetch v db) keys none with
    | error e => rw [hi] at h; cases h
    | ok r =>
      rw [hi] at h
      rw [← Except.ok.inj h, interOf_ok m none (.inl hkeys) hi]
      simp [SetOp.Gives]
  | union =>
    rw [unionOf_ok m ∅ h]
    simp [SetOp.Gives]
  | diff =>
    obtain ⟨key, rest, rfl⟩ := List.exists_cons_of_ne_nil hkeys
    have h : diffAllOf (fetch v db) (key :: rest) = .ok a := h
    rw [diffAllOf] at h
    have hgives : SetOp.diff.Gives (membersAt v db) (key :: rest) m ↔
        m ∈ membersAt v db key ∧ ∀ key ∈ rest, m ∉ membersAt v db key := by
      simp [SetOp.Gives]
    rw [hgives]
    cases hf : fetch v db key with
    | error e => rw [hf] at h; cases h
    | ok r =>
      rw [hf] at h
      rw [fetch_ok hf]
      cases r with
      | none =>
        rw [← Except.ok.inj h]
        simp
      | some first => exact diffOf_ok m first h

end members

/-! ## Top theorem -/

theorem set_algebra {F : Type} [Platform F] (op : SetOp) (env : Env) (db : Int) (dest : Bytes) (keys : List Bytes)
    (hkeys : keys ≠ []) (s : KvStore F) : op.Agrees env db dest keys s := by
  obtain ⟨hplain, hview⟩ := plain_eq env db keys s op
  obtain ⟨s', hs', hstored⟩ := stored_eq env db keys s op dest hkeys
  refine ⟨hview, ?_⟩
  rw [hplain, hstored]
  obtain ⟨herr, href⟩ | ⟨⟨a, hok⟩, hnot⟩ :
      Answers (op.of (fetch (s.view env.now) db) keys) (op.Refused (s.view env.now) db keys) := op.of_answers
  · rw [herr]
    exact .inl ⟨href, rfl, rfl, hs'⟩
  · rw [hok]
    obtain ⟨hreply, hview'⟩ := storeSet_ok env db s' dest a
    refine .inr ⟨hnot, a.toList, Std.ExtTreeSet.ordered_toList, fun m => ?_, rfl, ?_, a, rfl, ?_⟩
    · rw [Std.ExtTreeSet.mem_toList]
      exact SetOp.of_ok hkeys hok m
    · rw [hreply, Std.ExtTreeSet.length_toList]
    · rw [hview', hs']

/-- Sets of three members and of one, and a string. -/
def mixedStore : KvStore Int :=
  ((KvStore.empty.putEntry 0 (lit "a") (some { type := .set, set := ["x", "y", "z"].foldl (·.insert <| lit ·) ∅ })).putEntry 0
    (lit "b") (some { type := .set, set := (∅ : BSet).insert (lit "y") })).putEntry 0 (lit "s") (some { value := lit "v" })

/-- The first source is also the destination, and another is there twice.  A missing source hides one of another type from
the intersection. -/
theorem set_algebra_self : SetOp.diff.Agrees { now := 0 } 0 (lit "a") [lit "a", lit "b", lit "b"] mixedStore ∧
    SetOp.inter.Agrees { now := 0 } 0 (lit "a") [lit "a", lit "n", lit "s"] mixedStore ∧
    (KvStore.setDiffStore 0 (lit "a") [lit "a", lit "b", lit "b"] { now := 0 } mixedStore).1 = .ok 2 ∧
    (KvStore.setInter 0 [lit "a", lit "n", lit "s"] { now := 0 } mixedStore).1 = .ok [] :=
  ⟨set_algebra _ _ _ _ _ (by decide) _, set_algebra _ _ _ _ _ (by decide) _, by rfl, by rfl⟩

end Kv
