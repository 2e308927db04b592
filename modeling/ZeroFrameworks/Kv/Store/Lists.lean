import ZeroFrameworks.Kv.Store.Keys

/-!
# List operations of the store

`listRPopLPush` pops before it looks at the destination: when the destination holds another type
the popped element is gone and the reply is an error.  Nothing else makes it fail
(`listRPopLPush_ok`).
-/

namespace Kv

variable {F : Type} [Platform F]

/-- `normalizeListRange`. -/
def normalizeListRange (len start stop : Int) : Int × Int :=
  if len ≤ 0 then (0, -1)
  else
    let s := if start < 0 then len + start else start
    let t := if stop < 0 then len + stop else stop
    (if s < 0 then 0 else s, if len ≤ t then len - 1 else t)

/-- The elements at positions `s .. t` after normalisation; `none` when the range is empty. -/
def listSlice {α : Type} (l : List α) (start stop : Int) : Option (List α) :=
  let r := normalizeListRange l.length start stop
  if r.2 < r.1 ∨ (l.length : Int) ≤ 0 then none
  else some ((l.take (r.2 + 1).toNat).drop r.1.toNat)

/-- Position of a possibly negative index, when it is inside the list. -/
def listPos (l : List Bytes) (index : Int) : Option Nat :=
  let idx := if index < 0 then l.length + index else index
  if idx < 0 ∨ (l.length : Int) ≤ idx then none else some idx.toNat

/-- Remove the first `n` occurrences of `value`, and how many there were. -/
def removeFirst (value : Bytes) : Int → List Bytes → List Bytes × Int
  | _, [] => ([], 0)
  | n, x :: xs =>
    if n ≤ 0 then (x :: xs, 0)
    else if x = value then
      let r := removeFirst value (n - 1) xs
      (r.1, r.2 + 1)
    else
      let r := removeFirst value n xs
      (x :: r.1, r.2)

/-- Insert next to the first `pivot`. -/
def insertAt (before : Bool) (pivot value : Bytes) : List Bytes → Option (List Bytes)
  | [] => none
  | x :: xs =>
    if x = pivot then some (if before then value :: x :: xs else x :: value :: xs)
    else (insertAt before pivot value xs).map (x :: ·)

namespace KvStore

/-! ## Operations -/

/-- The list after pushing each value in turn. -/
def pushed (left : Bool) (values l : List Bytes) : List Bytes :=
  if left then values.reverse ++ l else l ++ values

def listPush (db : Int) (key : Bytes) (values : List Bytes) (left : Bool) :
    StoreM F (Except Bytes Int) :=
  if values.isEmpty then pure (.ok 0)
  else .onField .list db key fun v =>
    let l := pushed left values (v.getD [])
    { act := .put l, bump := true, reply := .ok l.length }

/-- The element at the chosen end and the rest. -/
def popped (left : Bool) (l : List Bytes) : Option (Bytes × List Bytes) :=
  if left then l.head?.map fun x => (x, l.tail) else l.getLast?.map fun x => (x, l.dropLast)

def popBody (left : Bool) (v : Option (List Bytes)) :
    Out (List Bytes) (Except Bytes (Option Bytes)) :=
  match v.bind (popped left) with
  | none => { reply := .ok none }
  | some (x, rest) =>
    { act := if rest.isEmpty then .erase else .put rest, bump := true, reply := .ok (some x) }

def listPop (db : Int) (key : Bytes) (left : Bool) : StoreM F (Except Bytes (Option Bytes)) :=
  .onField .list db key (popBody left)

/-- `listLen`; `none` is `found == false`. -/
def listLen (db : Int) (key : Bytes) : StoreM F (Except Bytes (Option Int)) :=
  .onField .list db key fun v => { reply := .ok (v.map fun l => (l.length : Int)) }

def listRange (db : Int) (key : Bytes) (start stop : Int) : StoreM F (Except Bytes (List Bytes)) :=
  .onField .list db key fun v =>
    { reply := .ok ((v.bind fun l => listSlice l start stop).getD []) }

def listIndex (db : Int) (key : Bytes) (index : Int) : StoreM F (Except Bytes (Option Bytes)) :=
  .onField .list db key fun v =>
    { touch := v.isSome, reply := .ok (v.bind fun l => (listPos l index).bind (l[·]?)) }

def listTrim (db : Int) (key : Bytes) (start stop : Int) : StoreM F (Except Bytes Int) :=
  .onField .list db key fun v =>
    match v with
    | none => { reply := .ok 0 }
    | some l =>
      match listSlice l start stop with
      | none => { act := .erase, bump := true, reply := .ok 1 }
      | some kept =>
        if kept.isEmpty then { act := .erase, bump := true, reply := .ok 1 }
        else { act := .put kept, touch := true, bump := true, reply := .ok 1 }

def listSet (db : Int) (key : Bytes) (index : Int) (value : Bytes) : StoreM F (Except Bytes Unit) :=
  .onField .list db key fun v =>
    match v with
    | none => { reply := .error (lit "ERR no such key") }
    | some l =>
      match listPos l index with
      | none => { reply := .error (lit "ERR index out of range") }
      | some i => { act := .put (l.set i value), touch := true, bump := true, reply := .ok () }

/-- `-count` in int64. -/
def negated (F : Type) [Platform F] (count : Int) : Int :=
  if count = -2 ^ 63 then i64 (Platform.negLeast F) else -count

/-- The list after `listRem` and the number of elements removed. -/
def removed (F : Type) [Platform F] (count : Int) (value : Bytes) (l : List Bytes) : List Bytes × Int :=
  if count = 0 then (l.filter (· ≠ value), (l.filter (· = value)).length)
  else if 0 < count then removeFirst value count l
  else
    let r := removeFirst value (negated F count) l.reverse
    (r.1.reverse, r.2)

def listRem (db : Int) (key : Bytes) (count : Int) (value : Bytes) : StoreM F (Except Bytes Int) :=
  .onField .list db key fun v =>
    match v with
    | none => { reply := .ok 0 }
    | some l =>
      let r := removed F count value l
      if r.1.isEmpty then { act := .erase, bump := true, reply := .ok r.2 }
      else { act := .put r.1, touch := true, bump := true, reply := .ok r.2 }

/-- `listInsert`: the new length, or `-2` when key or pivot is missing. -/
def listInsert (db : Int) (key : Bytes) (before : Bool) (pivot value : Bytes) :
    StoreM F (Except Bytes Int) :=
  .onField .list db key fun v =>
    match v.bind (insertAt before pivot value) with
    | none => { reply := .ok (-2) }
    | some l => { act := .put l, touch := true, bump := true, reply := .ok l.length }

/-- `listRPopLPush`: a refused pop counts as nothing found. -/
def listRPopLPush (db : Int) (src dst : Bytes) : StoreM F (Except Bytes (Option Bytes)) := do
  match ← listPop db src false with
  | .error _ => pure (.ok none)
  | .ok none => pure (.ok none)
  | .ok (some value) => do
    match ← listPush db dst [value] true with
    | .error e => pure (.error e)
    | .ok _ => pure (.ok (some value))

/-! ## Lemmas -/

variable {I : StoreConf → Prop} {lo hi db : Int} {key : Bytes}

theorem reads_listLen : Reads (listLen db key : StoreM F _) := reads_onField fun _ => rfl

theorem reads_listRange {start stop : Int} : Reads (listRange db key start stop : StoreM F _) :=
  reads_onField fun _ => rfl

theorem reads_listIndex {index : Int} : Reads (listIndex db key index : StoreM F _) :=
  reads_onField fun _ => rfl

variable {left : Bool}

theorem fails_listPush {values : List Bytes} :
    KeepsWhen I Failed (listPush db key values left : StoreM F _) :=
  .ite (fun _ => .pure _) fun _ => fails_onField fun _ hp => hp.elim

theorem popBody_reply (left : Bool) (v : Option (List Bytes)) :
    (popBody left v).reply = .ok ((v.bind (popped left)).map Prod.fst) := by
  unfold popBody
  cases v.bind (popped left) <;> rfl

theorem keeps_listPop : KeepsWhen I (fun r => ∀ x, r ≠ .ok (some x))
    (listPop db key left : StoreM F _) := by
  refine keeps_onFieldOr fun v hp => ?_
  rw [popBody_reply] at hp
  unfold popBody
  cases h : v.bind (popped left) with
  | none => rfl
  | some r => exact absurd (by rw [h]; rfl) (hp r.1)

theorem fails_listPop : KeepsWhen I Failed (listPop db key left : StoreM F _) :=
  fun env s hi hp => keeps_listPop env s hi fun x hx => by rw [hx] at hp; exact hp

theorem fails_listTrim {start stop : Int} :
    KeepsWhen I Failed (listTrim db key start stop : StoreM F _) := by
  refine fails_onField fun v hp => ?_
  cases v with
  | none => exact hp.elim
  | some l =>
    simp only at hp
    split at hp
    · exact hp.elim
    · split at hp <;> exact hp.elim

theorem fails_listSet {index : Int} {value : Bytes} :
    KeepsWhen I Failed (listSet db key index value : StoreM F _) := by
  refine fails_onField fun v hp => ?_
  cases v with
  | none => rfl
  | some l =>
    simp only at hp ⊢
    split at hp
    · rfl
    · exact hp.elim

theorem fails_listRem {count : Int} {value : Bytes} :
    KeepsWhen I Failed (listRem db key count value : StoreM F _) := by
  refine fails_onField fun v hp => ?_
  cases v with
  | none => exact hp.elim
  | some l =>
    simp only at hp
    split at hp <;> exact hp.elim

theorem fails_listInsert {before : Bool} {pivot value : Bytes} :
    KeepsWhen I Failed (listInsert db key before pivot value : StoreM F _) := by
  refine fails_onField fun v hp => ?_
  split at hp <;> exact hp.elim

/-- The destination can take an element, or there is none to move. -/
def CanMove (now db : Int) (src dst : Bytes) (s : KvStore F) : Prop :=
  HasType .list now db dst s ∨ ∀ o, s.live now db src = some o → o.type = .list → o.list = []

theorem listPush_ok {env : Env} {s : KvStore F} (h : HasType .list env.now db key s)
    (values : List Bytes) (left : Bool) : ¬ Failed (listPush db key values left env s).1 := by
  unfold listPush
  split
  · exact id
  · rw [onField_reply h]
    exact id

/-- `listRPopLPush` fails only after it has popped, and only on a destination of another type. -/
theorem listRPopLPush_ok {src dst : Bytes} {env : Env} {s : KvStore F}
    (h : CanMove env.now db src dst s) : ¬ Failed (listRPopLPush db src dst env s).1 := by
  unfold listRPopLPush
  simp only [StoreM.bind_apply]
  rcases h with hd | hsrc
  · have hd' : HasType .list env.now db dst (listPop db src false env s).2 := by
      by_cases hk : dst = src
      · subst hk
        exact hd.onField _
      · exact hd.onField_other (fun h => hk h.2) _
    cases (listPop db src false env s).1 with
    | error e => exact id
    | ok v =>
      cases v with
      | none => exact id
      | some value =>
        have hp := listPush_ok hd' [value] true
        simp only [StoreM.bind_apply]
        cases hr : (listPush db dst [value] true env (listPop db src false env s).2).1 with
        | error e => rw [hr] at hp; exact absurd trivial hp
        | ok n => exact id
  · have hnone : ∀ x, (listPop db src false env s).1 ≠ .ok (some x) := by
      intro x hx
      by_cases ht : HasType .list env.now db src s
      · unfold listPop at hx
        rw [onField_reply ht, popBody_reply] at hx
        cases hl : s.live env.now db src with
        | none => rw [hl] at hx; simp at hx
        | some o =>
          have hnil := hsrc o hl (ht o hl)
          rw [hl] at hx
          simp [Field.list, hnil, popped] at hx
      · unfold listPop at hx
        rw [onField_refused ht] at hx
        cases hx
    cases hr : (listPop db src false env s).1 with
    | error e => exact id
    | ok v =>
      cases v with
      | none => exact id
      | some x => exact absurd hr (hnone x)

theorem det_listPush {values : List Bytes} :
    Det lo hi (listPush db key values left : StoreM F _) :=
  .ite (fun _ => .pure _) fun _ => det_onField

theorem det_listRPopLPush {src dst : Bytes} :
    Det lo hi (listRPopLPush db src dst : StoreM F _) := by
  refine .bind det_onField ?_
  rintro (e | _ | value)
  · exact .pure _
  · exact .pure _
  · refine .bind det_listPush ?_
    rintro (e | n) <;> exact .pure _

end KvStore

end Kv
