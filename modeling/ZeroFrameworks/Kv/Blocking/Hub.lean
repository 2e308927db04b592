import ZeroFrameworks.Kv.Blocking.Slots

/-!
# Who is woken by a push

`BlockingListHub::onPush` serves one waiter: the first in the hub that watches the key and finds
something under one of its keys.  It is called once for a push, however many values that brings, and
not at all by RPOPLPUSH.  So no waiter is left beside data if and only if no push of several values
meets several waiters of its key, and no element is moved to a key that someone waits for:

    Along Settled h calls ↔ Along Served h calls
-/

namespace Kv

variable {F : Type} [Platform F]

/-! ## The hub -/

def ListWaiter.Watches (w : ListWaiter) (db : Int) (key : Bytes) : Prop := w.db = db ∧ key ∈ w.keys

instance (w : ListWaiter) (db : Int) (key : Bytes) : Decidable (w.Watches db key) :=
  inferInstanceAs (Decidable (_ ∧ _))

/-- `onPush` with the waiter it serves and what that one gets. -/
def wake (db : Int) (key : Bytes) :
    List ListWaiter → StoreM F (Option (ListWaiter × Bytes × Bytes) × List ListWaiter)
  | [] => pure (none, [])
  | w :: ws =>
    if w.Watches db key then do
      match ← tryFulfill w.db w.popRight w.keys with
      | some got => pure (some (w, got), ws)
      | none => (fun r => (r.1, w :: r.2)) <$> wake db key ws
    else (fun r => (r.1, w :: r.2)) <$> wake db key ws

theorem onPush_eq_wake (db : Int) (key : Bytes) (ws : List ListWaiter) (env : Env) (s : KvStore F) :
    onPush db key ws env s = ((wake db key ws env s).1.2, (wake db key ws env s).2) := by
  induction ws generalizing s with
  | nil => rfl
  | cons w ws ih =>
    unfold onPush wake
    by_cases hw : w.Watches db key
    · rw [if_pos hw, if_pos (show w.db = db ∧ key ∈ w.keys from hw)]
      simp only [StoreM.bind_apply]
      cases (tryFulfill w.db w.popRight w.keys env s).1 with
      | none =>
        simp only [StoreM.map_apply, ih]
      | some got => rfl
    · rw [if_neg hw, if_neg (show ¬(w.db = db ∧ key ∈ w.keys) from hw)]
      simp only [StoreM.map_apply, ih]

/-! ## Lemmas -/

variable {left : Bool}

section pops

theorem popped_eq_none {l : List Bytes} : KvStore.popped left l = none ↔ l = [] := by
  unfold KvStore.popped
  cases left <;> simp

theorem popped_perm {l rest : List Bytes} {x : Bytes}
    (h : KvStore.popped left l = some (x, rest)) : l.Perm (x :: rest) := by
  unfold KvStore.popped at h
  cases left with
  | true =>
    cases l with
    | nil => cases h
    | cons a l =>
      cases h
      exact List.Perm.refl _
  | false =>
    simp only [Bool.false_eq_true, if_false, Option.map_eq_some_iff, Prod.mk.injEq] at h
    obtain ⟨y, hlast, rfl, rfl⟩ := h
    obtain ⟨front, rfl⟩ := List.getLast?_eq_some_iff.mp hlast
    rw [List.dropLast_concat]
    exact List.perm_append_singleton y front

end pops

/-- The slot after a pop that leaves `rest`. -/
def Slot.ofRest (rest : List Bytes) : Slot := if rest.isEmpty then .free else .list rest

variable {values : List Bytes}

theorem Slot.push_of_ne {slot : Slot} (hv : values ≠ []) (hs : slot ≠ .other) :
    slot.push left values =
      (.ok (KvStore.pushed left values slot.elements).length, .list (KvStore.pushed left values slot.elements)) := by
  unfold Slot.push
  rw [if_neg (by simpa using hv)]
  cases slot with
  | free => rfl
  | list l => rfl
  | other => exact absurd rfl hs

theorem Slot.push_other (hv : values ≠ []) :
    Slot.other.push left values = (.error wrongType, .other) := by
  unfold Slot.push
  rw [if_neg (by simpa using hv)]

@[simp] theorem Slot.elements_ofRest (rest : List Bytes) : (Slot.ofRest rest).elements = rest := by
  unfold Slot.ofRest
  by_cases h : rest.isEmpty
  · rw [if_pos h, List.isEmpty_iff.mp h]
    rfl
  · rw [if_neg h]
    rfl

theorem Slot.pop_cases (left : Bool) (slot : Slot) :
    (slot.elements = [] ∧ ((slot.pop left).1 = .ok none ∨ (slot.pop left).1 = .error wrongType) ∧
      (slot.pop left).2 = slot) ∨
      ∃ x rest, KvStore.popped left slot.elements = some (x, rest) ∧
        slot.pop left = (.ok (some x), .ofRest rest) := by
  cases slot with
  | free => exact .inl ⟨rfl, .inl rfl, rfl⟩
  | other => exact .inl ⟨rfl, .inr rfl, rfl⟩
  | list l =>
    cases hpop : KvStore.popped left l with
    | none => exact .inl ⟨popped_eq_none.mp hpop, by simp [pop, hpop], by simp [pop, hpop]⟩
    | some p => exact .inr ⟨p.1, p.2, hpop, by simp [pop, hpop, ofRest]⟩

variable {s : KvStore F}

theorem tryFulfill_spec (h : s.Timeless) (env : Env) (db : Int) (popRight : Bool)
    (keys : List Bytes) :
    let r := tryFulfill db popRight keys env s
    r.2.Timeless ∧
      ((r.1 = none ∧ r.2.slots = s.slots ∧ ∀ k ∈ keys, (s.slots db k).elements = []) ∨
        ∃ k x rest, r.1 = some (k, x) ∧ k ∈ keys ∧
          KvStore.popped (!popRight) (s.slots db k).elements = some (x, rest) ∧
          r.2.slots = s.slots.set db k (.ofRest rest)) := by
  induction keys generalizing s with
  | nil => exact ⟨h, .inl ⟨rfl, rfl, fun k hk => nomatch hk⟩⟩
  | cons key keys ih =>
    obtain ⟨hreply, hslots, htimeless⟩ := KvStore.listPop_slots h env db key (!popRight)
    rcases (s.slots db key).pop_cases (!popRight) with ⟨hempty, hnone, hsame⟩ | ⟨x, rest, hpop, hboth⟩
    · rw [hsame, Slots.set_eq] at hslots
      have hrest := ih htimeless
      rw [hslots] at hrest
      obtain ⟨hkept, hcases⟩ := hrest
      have hnext : tryFulfill db popRight (key :: keys) env s =
          tryFulfill db popRight keys env (KvStore.listPop db key (!popRight) env s).2 := by
        conv_lhs => unfold tryFulfill
        rw [StoreM.bind_apply, hreply]
        rcases hnone with hnone | hnone <;> rw [hnone]
      rw [hnext]
      refine ⟨hkept, ?_⟩
      rcases hcases with ⟨hr, hs, hkeys⟩ | ⟨k, x, rest, hr, hk, hpop, hs⟩
      · refine .inl ⟨hr, hs, ?_⟩
        intro k hk
        rcases List.mem_cons.mp hk with rfl | hk
        · exact hempty
        · exact hkeys k hk
      · exact .inr ⟨k, x, rest, hr, List.mem_cons_of_mem key hk, hpop, hs⟩
    · rw [hboth] at hslots hreply
      have hfound : tryFulfill db popRight (key :: keys) env s =
          (some (key, x), (KvStore.listPop db key (!popRight) env s).2) := by
        unfold tryFulfill
        rw [StoreM.bind_apply, hreply]
        rfl
      rw [hfound]
      exact ⟨htimeless, .inr ⟨key, x, rest, rfl, List.mem_cons_self, hpop, hslots⟩⟩

/-- Nothing is there for the waiter. -/
def Slots.Idle (σ : Slots) (w : ListWaiter) : Prop := ∀ key ∈ w.keys, (σ w.db key).elements = []

instance (σ : Slots) (w : ListWaiter) : Decidable (σ.Idle w) :=
  inferInstanceAs (Decidable (∀ key ∈ w.keys, _ = _))

theorem wake_spec (h : s.Timeless) (env : Env) (db : Int) (key : Bytes) (ws : List ListWaiter) :
    let r := wake db key ws env s
    r.2.Timeless ∧
      ((r.1 = (none, ws) ∧ r.2.slots = s.slots ∧ ∀ w ∈ ws, w.Watches db key → s.slots.Idle w) ∨
        ∃ front w back k x rest, ws = front ++ w :: back ∧ r.1 = (some (w, k, x), front ++ back) ∧
          w.Watches db key ∧ (∀ w' ∈ front, w'.Watches db key → s.slots.Idle w') ∧ k ∈ w.keys ∧
          KvStore.popped (!w.popRight) (s.slots w.db k).elements = some (x, rest) ∧
          r.2.slots = s.slots.set w.db k (.ofRest rest)) := by
  induction ws generalizing s with
  | nil => exact ⟨h, .inl ⟨rfl, rfl, fun w hw => nomatch hw⟩⟩
  | cons w ws ih =>
    -- a waiter that is passed over, before the rest
    have hpass : ∀ {s' : KvStore F}, s'.Timeless → s'.slots = s.slots → (w.Watches db key → s.slots.Idle w) →
        let r := ((fun r => (r.1, w :: r.2)) <$> wake db key ws : StoreM F _) env s'
        r.2.Timeless ∧
          ((r.1 = (none, w :: ws) ∧ r.2.slots = s.slots ∧
              ∀ w' ∈ w :: ws, w'.Watches db key → s.slots.Idle w') ∨
            ∃ front w' back k x rest, w :: ws = front ++ w' :: back ∧ r.1 = (some (w', k, x), front ++ back) ∧
              w'.Watches db key ∧ (∀ w'' ∈ front, w''.Watches db key → s.slots.Idle w'') ∧ k ∈ w'.keys ∧
              KvStore.popped (!w'.popRight) (s.slots w'.db k).elements = some (x, rest) ∧
              r.2.slots = s.slots.set w'.db k (.ofRest rest)) := by
      intro s' hs' hslots hidle
      have hrest := ih hs'
      rw [hslots] at hrest
      obtain ⟨hkept, hcases⟩ := hrest
      simp only [StoreM.map_apply]
      refine ⟨hkept, ?_⟩
      rcases hcases with ⟨hr, hs, hall⟩ | ⟨front, w', back, k, x, rest, hws, hr, hw', hfront, hk, hpop, hs⟩
      · refine .inl ⟨by rw [hr], hs, ?_⟩
        intro w' hw'
        rcases List.mem_cons.mp hw' with rfl | hw'
        · exact hidle
        · exact hall w' hw'
      · refine .inr ⟨w :: front, w', back, k, x, rest, by rw [hws]; rfl, by rw [hr]; rfl, hw', ?_, hk, hpop, hs⟩
        intro w'' hw''
        rcases List.mem_cons.mp hw'' with rfl | hw''
        · exact hidle
        · exact hfront w'' hw''
    unfold wake
    by_cases hw : w.Watches db key
    · rw [if_pos hw]
      obtain ⟨htimeless, hcases⟩ := tryFulfill_spec h env w.db w.popRight w.keys
      simp only [StoreM.bind_apply]
      rcases hcases with ⟨hr, hs, hidle⟩ | ⟨k, x, rest, hr, hk, hpop, hs⟩
      · rw [hr]
        exact hpass htimeless hs fun _ => hidle
      · rw [hr]
        exact ⟨htimeless, .inr ⟨[], w, ws, k, x, rest, rfl, rfl, hw, (fun _ h => nomatch h), hk, hpop, hs⟩⟩
    · rw [if_neg hw]
      exact hpass h rfl fun hwatch => absurd hwatch hw

/-! ## Commands, one after the other -/

inductive HubCall where
  | register (w : ListWaiter)
  | push (db : Int) (key : Bytes) (values : List Bytes) (left : Bool)
  /-- RPOPLPUSH, and BRPOPLPUSH that does not have to wait. -/
  | move (db : Int) (src dst : Bytes)
  /-- The end of a BRPOPLPUSH that was woken with a value. -/
  | finish (db : Int) (dst value : Bytes)

structure HubState (F : Type) [Platform F] where
  store : KvStore F
  waiters : List ListWaiter

namespace HubState

def next (h : HubState F) (c : Env × HubCall) : HubState F :=
  match c.2 with
  | .register w => { h with waiters := h.waiters ++ [w] }
  | .push db key values left =>
    let r := KvStore.listPush db key values left c.1 h.store
    match r.1 with
    | .error _ => { h with store := r.2 }
    | .ok _ =>
      let told := onPush db key h.waiters c.1 r.2
      { store := told.2, waiters := told.1 }
  | .move db src dst => { h with store := (KvStore.listRPopLPush db src dst c.1 h.store).2 }
  | .finish db dst value =>
    let r := Commands.pushWoken h.waiters db dst (some ([], value)) c.1 h.store
    { store := r.2, waiters := r.1.2 }

/-- A property of every call, with the state before it. -/
def Along (P : HubState F → Env × HubCall → Prop) (h : HubState F) : List (Env × HubCall) → Prop
  | [] => True
  | c :: calls => P h c ∧ Along P (h.next c) calls

/-- Nobody waits beside data. -/
def Settled (h : HubState F) : Prop := ∀ w ∈ h.waiters, h.store.slots.Idle w

instance (h : HubState F) : Decidable h.Settled := inferInstanceAs (Decidable (∀ w ∈ h.waiters, _))

/-- Nobody waits beside data when the command is done. -/
def SettledAfter (h : HubState F) (c : Env × HubCall) : Prop := (h.next c).Settled

/-- Who registers has tried its keys. -/
def Registers (h : HubState F) (c : Env × HubCall) : Prop :=
  match c.2 with
  | .register w => h.store.slots.Idle w
  | _ => True

instance (h : HubState F) : ∀ c, Decidable (h.Registers c)
  | (_, .register w) => inferInstanceAs (Decidable (h.store.slots.Idle w))
  | (_, .push _ _ _ _) | (_, .move _ _ _) | (_, .finish _ _ _) => inferInstanceAs (Decidable True)

/-- A push of several values meets at most one waiter of its key, and a move none of its destination. -/
def Served (h : HubState F) (c : Env × HubCall) : Prop :=
  match c.2 with
  | .push db key values _ => values.length ≤ 1 ∨ h.store.slots db key = .other ∨
      (h.waiters.filter fun w => decide (w.Watches db key)).length ≤ 1
  | .move db src dst => (h.store.slots db src).elements = [] ∨ h.store.slots db dst = .other ∨
      ∀ w ∈ h.waiters, ¬w.Watches db dst
  | _ => True

instance (h : HubState F) : ∀ c, Decidable (h.Served c)
  | (_, .push db key values _) => inferInstanceAs (Decidable (values.length ≤ 1 ∨ h.store.slots db key = .other ∨
      (h.waiters.filter fun w => decide (w.Watches db key)).length ≤ 1))
  | (_, .move db src dst) => inferInstanceAs (Decidable ((h.store.slots db src).elements = [] ∨
      h.store.slots db dst = .other ∨ ∀ w ∈ h.waiters, ¬w.Watches db dst))
  | (_, .register _) | (_, .finish _ _ _) => inferInstanceAs (Decidable True)

instance {P : HubState F → Env × HubCall → Prop} [∀ h c, Decidable (P h c)] :
    ∀ (h : HubState F) (calls : List (Env × HubCall)), Decidable (h.Along P calls)
  | _, [] => inferInstanceAs (Decidable True)
  | h, c :: calls => @instDecidableAnd _ _ _ (instDecidableAlong (h.next c) calls)

instance (h : HubState F) (c : Env × HubCall) : Decidable (h.SettledAfter c) :=
  inferInstanceAs (Decidable (h.next c).Settled)

end HubState

/-! ## Lemmas -/

theorem idle_set_iff {σ : Slots} {ws : List ListWaiter} (h : ∀ w ∈ ws, σ.Idle w) (db : Int) (key : Bytes)
    (slot : Slot) :
    (∀ w ∈ ws, (σ.set db key slot).Idle w) ↔ slot.elements = [] ∨ ∀ w ∈ ws, ¬w.Watches db key := by
  constructor
  · intro hidle
    by_cases hwatch : ∃ w ∈ ws, w.Watches db key
    · obtain ⟨w, hw, hdb, hkey⟩ := hwatch
      have hempty := hidle w hw key hkey
      rw [hdb, Slots.set_self] at hempty
      exact .inl hempty
    · exact .inr fun w hw hwatches => hwatch ⟨w, hw, hwatches⟩
  · intro hcases w hw k hk
    unfold Slots.set
    split
    · next heq =>
      rcases hcases with hempty | hnobody
      · exact hempty
      · exact absurd ⟨heq.1, heq.2 ▸ hk⟩ (hnobody w hw)
    · exact h w hw k hk

theorem Slots.set_set (σ : Slots) (db : Int) (key : Bytes) (a b : Slot) :
    (σ.set db key a).set db key b = σ.set db key b := by
  funext db' key'
  unfold Slots.set
  split <;> rfl

namespace HubState

variable {h : HubState F}

theorem length_pushed (left : Bool) (values l : List Bytes) :
    (KvStore.pushed left values l).length = values.length + l.length := by
  unfold KvStore.pushed
  cases left
  · simp [Nat.add_comm]
  · simp

/-- The first waiter of a key that was just filled is served, and the others wait beside what is left. -/
theorem settled_told (ht : s.Timeless) {σ : Slots} {ws : List ListWaiter}
    (hidle : ∀ w ∈ ws, σ.Idle w) {db : Int} {key : Bytes} (hne : values ≠ [])
    (hs : s.slots = σ.set db key (.list (KvStore.pushed left values (σ db key).elements))) (env : Env) :
    let r := onPush db key ws env s
    r.2.Timeless ∧ ((∀ w ∈ r.1, r.2.slots.Idle w) ↔
      values.length ≤ 1 ∨ (ws.filter fun w => decide (w.Watches db key)).length ≤ 1) := by
  intro r
  have hr : r = _ := onPush_eq_wake db key ws env s
  have hpos : 0 < values.length := List.length_pos_iff.mpr hne
  have hfull : KvStore.pushed left values (σ db key).elements ≠ [] := by
    intro hnil
    have hlen := length_pushed left values (σ db key).elements
    rw [hnil, List.length_nil] at hlen
    omega
  -- nobody who watches the key can be idle now
  have hbusy : ∀ w, w.Watches db key → ¬s.slots.Idle w := by
    rintro w ⟨hdb, hkey⟩ hidle
    have hempty := hidle key hkey
    rw [hs, hdb, Slots.set_self] at hempty
    exact hfull hempty
  obtain ⟨hkept, hcases⟩ := wake_spec ht env db key ws
  rw [hr]
  refine ⟨hkept, ?_⟩
  rcases hcases with ⟨hnone, hslots, hall⟩ | ⟨front, w, back, k, x, rest, rfl, hgot, hw, hfront, hk, hpop, hslots⟩
  · have hnobody : ∀ w ∈ ws, ¬w.Watches db key := fun w hw hwatch => hbusy w hwatch (hall w hw hwatch)
    have hfilter : ws.filter (fun w => decide (w.Watches db key)) = [] := by
      apply List.filter_eq_nil_iff.mpr
      intro w hw
      simpa using hnobody w hw
    show (∀ w ∈ (wake db key ws env s).1.2, _) ↔ _
    rw [hnone, hslots, hs, hfilter]
    refine ⟨fun _ => .inr (Nat.zero_le 1), fun _ => (idle_set_iff hidle db key _).mpr (.inr hnobody)⟩
  · -- the one that is served finds its element under the key, as its other keys are empty
    have hwidle : σ.Idle w := hidle w (List.mem_append_right _ List.mem_cons_self)
    have hkey : w.db = db ∧ k = key := by
      by_contra hother
      rw [hs, Slots.set_of_ne hother, hwidle k hk, popped_eq_none.mpr rfl] at hpop
      cases hpop
    obtain ⟨hdb, rfl⟩ := hkey
    have hwas : (σ db k).elements = [] := hdb ▸ hwidle k hk
    rw [hs, hdb, Slots.set_self, hwas] at hpop
    have hlen : rest.length + 1 = values.length := by
      have hperm : (KvStore.pushed left values []).length = _ := (popped_perm hpop).length_eq
      rw [length_pushed, List.length_nil, List.length_cons] at hperm
      omega
    have hnofront : ∀ w' ∈ front, ¬w'.Watches db k :=
      fun w' hw' hwatch => hbusy w' hwatch (hfront w' hw' hwatch)
    have hothers : ∀ w' ∈ front ++ back, σ.Idle w' := by
      intro w' hw'
      rcases List.mem_append.mp hw' with hw' | hw'
      · exact hidle w' (List.mem_append_left _ hw')
      · exact hidle w' (List.mem_append_right _ (List.mem_cons_of_mem w hw'))
    have hcount : (List.filter (fun w => decide (w.Watches db k)) (front ++ w :: back)).length ≤ 1 ↔
        ∀ w' ∈ front ++ back, ¬w'.Watches db k := by
      rw [List.filter_append, List.filter_eq_nil_iff.mpr (fun w' hw' => by simpa using hnofront w' hw'),
        List.nil_append, List.filter_cons_of_pos (by simpa using hw), List.length_cons]
      rw [show ∀ n, n + 1 ≤ 1 ↔ n = 0 by omega, List.length_eq_zero_iff, List.filter_eq_nil_iff]
      constructor
      · intro hback w' hw'
        rcases List.mem_append.mp hw' with hw' | hw'
        · exact hnofront w' hw'
        · simpa using hback w' hw'
      · intro hnone w' hw'
        simpa using hnone w' (List.mem_append_right _ hw')
    show (∀ w' ∈ (wake db k (front ++ w :: back) env s).1.2, _) ↔ _
    rw [hgot, hslots, hs, hdb, Slots.set_set, idle_set_iff hothers, Slot.elements_ofRest, hcount,
      ← List.length_eq_zero_iff]
    refine or_congr ?_ Iff.rfl
    omega

theorem settled_push (ht : h.store.Timeless) (hs : h.Settled) (env : Env) (db : Int) (key : Bytes)
    (values : List Bytes) (left : Bool) :
    (h.next (env, .push db key values left)).store.Timeless ∧
      ((h.next (env, .push db key values left)).Settled ↔ h.Served (env, .push db key values left)) := by
  obtain ⟨hreply, hslots, htimeless⟩ := KvStore.listPush_slots ht env db key values left
  by_cases hv : values = []
  · -- nothing is pushed, and nobody finds anything
    subst hv
    have hnext : h.next (env, .push db key [] left) =
        ⟨(onPush db key h.waiters env h.store).2, (onPush db key h.waiters env h.store).1⟩ := rfl
    obtain ⟨hkept, hcases⟩ := wake_spec ht env db key h.waiters
    rw [hnext, onPush_eq_wake]
    refine ⟨hkept, fun _ => .inl (Nat.zero_le 1), fun _ => ?_⟩
    rcases hcases with ⟨hnone, hsame, -⟩ | ⟨front, w, back, k, x, rest, hws, -, -, -, hk, hpop, -⟩
    · show ∀ w ∈ (wake db key h.waiters env h.store).1.2, (wake db key h.waiters env h.store).2.slots.Idle w
      rw [hnone, hsame]
      exact hs
    · have hidle := hs w (hws ▸ List.mem_append_right _ List.mem_cons_self)
      rw [hidle k hk, popped_eq_none.mpr rfl] at hpop
      cases hpop
  · by_cases hother : h.store.slots db key = .other
    · rw [hother, Slot.push_other hv] at hreply hslots
      have hnext : h.next (env, .push db key values left) =
          { h with store := (KvStore.listPush db key values left env h.store).2 } := by
        unfold next
        simp only [hreply]
      rw [hnext]
      refine ⟨htimeless, fun _ => .inr (.inl hother), fun _ => ?_⟩
      show ∀ w ∈ h.waiters, (KvStore.listPush db key values left env h.store).2.slots.Idle w
      rw [hslots, ← hother, Slots.set_eq]
      exact hs
    · rw [Slot.push_of_ne hv hother] at hreply hslots
      have hnext : h.next (env, .push db key values left) =
          ⟨(onPush db key h.waiters env (KvStore.listPush db key values left env h.store).2).2,
            (onPush db key h.waiters env (KvStore.listPush db key values left env h.store).2).1⟩ := by
        unfold next
        simp only [hreply]
      obtain ⟨hkept, htold⟩ := settled_told htimeless hs hv hslots env
      rw [hnext]
      refine ⟨hkept, htold.trans ?_⟩
      show _ ↔ values.length ≤ 1 ∨ h.store.slots db key = .other ∨ _
      rw [or_iff_right (a := h.store.slots db key = .other) hother]

theorem settled_move (ht : h.store.Timeless) (hs : h.Settled) (env : Env) (db : Int) (src dst : Bytes) :
    (h.next (env, .move db src dst)).store.Timeless ∧
      ((h.next (env, .move db src dst)).Settled ↔ h.Served (env, .move db src dst)) := by
  obtain ⟨hreply, hslots, htimeless⟩ := KvStore.listPop_slots ht env db src false
  show (KvStore.listRPopLPush db src dst env h.store).2.Timeless ∧
    ((∀ w ∈ h.waiters, (KvStore.listRPopLPush db src dst env h.store).2.slots.Idle w) ↔ _)
  rcases (h.store.slots db src).pop_cases false with ⟨hempty, hnone, hsame⟩ | ⟨x, rest, hpop, hboth⟩
  · have hmove : (KvStore.listRPopLPush db src dst env h.store).2 = (KvStore.listPop db src false env h.store).2 := by
      unfold KvStore.listRPopLPush
      rw [StoreM.bind_apply, hreply]
      rcases hnone with hnone | hnone <;> rw [hnone] <;> rfl
    rw [hsame, Slots.set_eq] at hslots
    rw [hmove, hslots]
    exact ⟨htimeless, fun _ => .inl hempty, fun _ => hs⟩
  · rw [hboth] at hreply hslots
    obtain ⟨hreply', hslots', htimeless'⟩ := KvStore.listPush_slots htimeless env db dst [x] true
    have hmove : (KvStore.listRPopLPush db src dst env h.store).2 =
        (KvStore.listPush db dst [x] true env (KvStore.listPop db src false env h.store).2).2 := by
      unfold KvStore.listRPopLPush
      rw [StoreM.bind_apply, hreply]
      simp only [StoreM.bind_apply]
      cases (KvStore.listPush db dst [x] true env (KvStore.listPop db src false env h.store).2).1 <;> rfl
    have hfull : (h.store.slots db src).elements ≠ [] := by
      intro hnil
      rw [hnil, popped_eq_none.mpr rfl] at hpop
      cases hpop
    have hnobody : ∀ w ∈ h.waiters, ¬w.Watches db src := by
      rintro w hw ⟨hdb, hkey⟩
      exact hfull (hdb ▸ hs w hw src hkey)
    have hpopped : ∀ w ∈ h.waiters, (KvStore.listPop db src false env h.store).2.slots.Idle w := by
      rw [hslots]
      exact (idle_set_iff hs db src _).mpr (.inr hnobody)
    -- what is under the destination before it is pushed to
    have hdst : (KvStore.listPop db src false env h.store).2.slots db dst = .other ↔ h.store.slots db dst = .other := by
      rw [hslots]
      by_cases heq : dst = src
      · subst heq
        rw [Slots.set_self]
        constructor
        · intro hrest
          unfold Slot.ofRest at hrest
          split at hrest <;> cases hrest
        · intro hother
          rw [hother] at hfull
          exact absurd rfl hfull
      · rw [Slots.set_of_ne (by simp [heq])]
    rw [hmove, hslots']
    refine ⟨htimeless', ?_⟩
    by_cases hother : h.store.slots db dst = .other
    · rw [hdst.mpr hother, Slot.push_other (by simp), ← hdst.mpr hother, Slots.set_eq]
      exact ⟨fun _ => .inr (.inl hother), fun _ => hpopped⟩
    · rw [Slot.push_of_ne (by simp) (fun h => hother (hdst.mp h)), idle_set_iff hpopped]
      have hfilled : (Slot.list (KvStore.pushed true [x]
          ((KvStore.listPop db src false env h.store).2.slots db dst).elements)).elements ≠ [] := by
        simp [Slot.elements, KvStore.pushed]
      rw [or_iff_right hfilled]
      show _ ↔ _ ∨ _ ∨ _
      rw [or_iff_right hfull, or_iff_right hother]

theorem settled_finish (ht : h.store.Timeless) (hs : h.Settled) (env : Env) (db : Int) (dst value : Bytes) :
    (h.next (env, .finish db dst value)).store.Timeless ∧ (h.next (env, .finish db dst value)).Settled := by
  by_cases hempty : value.isEmpty = true
  · have hnext : h.next (env, .finish db dst value) = h := by
      unfold next Commands.pushWoken
      simp only [if_pos hempty]
      rfl
    rw [hnext]
    exact ⟨ht, hs⟩
  · have hnext : h.next (env, .finish db dst value) = h.next (env, .push db dst [value] true) := by
      unfold next Commands.pushWoken
      simp only [if_neg hempty, StoreM.bind_apply]
      cases (KvStore.listPush db dst [value] true env h.store).1 <;> rfl
    obtain ⟨hkept, hsettled⟩ := settled_push ht hs env db dst [value] true
    rw [hnext]
    exact ⟨hkept, hsettled.mpr (.inl (Nat.le_refl 1))⟩

theorem settled_next (ht : h.store.Timeless) (hs : h.Settled) (c : Env × HubCall) (hreg : h.Registers c) :
    (h.next c).store.Timeless ∧ ((h.next c).Settled ↔ h.Served c) := by
  obtain ⟨env, call⟩ := c
  cases call with
  | register w =>
    refine ⟨ht, fun _ => trivial, fun _ => ?_⟩
    intro w' hw'
    rcases List.mem_append.mp hw' with hw' | hw'
    · exact hs w' hw'
    · rw [List.mem_singleton.mp hw']
      exact hreg
  | push db key values left => exact settled_push ht hs env db key values left
  | move db src dst => exact settled_move ht hs env db src dst
  | finish db dst value =>
    obtain ⟨hkept, hsettled⟩ := settled_finish ht hs env db dst value
    exact ⟨hkept, fun _ => trivial, fun _ => hsettled⟩

end HubState

/-! ## Top theorem -/

/-- **Nobody is left waiting beside data if and only if no push of several values meets several waiters
of its key and nothing is moved to a key that is waited for.** -/
theorem settled_iff_served (h : HubState F) (calls : List (Env × HubCall)) (ht : h.store.Timeless)
    (hs : h.Settled) (hreg : h.Along HubState.Registers calls) :
    h.Along HubState.SettledAfter calls ↔ h.Along HubState.Served calls := by
  induction calls generalizing h with
  | nil => exact Iff.rfl
  | cons c calls ih =>
    obtain ⟨hnow, hlater⟩ := hreg
    obtain ⟨hkept, hstep⟩ := HubState.settled_next ht hs c hnow
    constructor
    · rintro ⟨hsettled, hrest⟩
      exact ⟨hstep.mp hsettled, (ih _ hkept hsettled hlater).mp hrest⟩
    · rintro ⟨hserved, hrest⟩
      have hsettled := hstep.mpr hserved
      exact ⟨hsettled, (ih _ hkept hsettled hlater).mpr hrest⟩

/-- Two waiters of one key, each served by a push of one value, and a waiter of two keys. -/
theorem settled_single_values :
    HubState.Along HubState.SettledAfter ⟨(KvStore.empty : KvStore Int), []⟩
      [({ now := 1 }, .register { session := some 1, keys := [lit "k"] }),
        ({ now := 2 }, .register { session := some 2, keys := [lit "j", lit "k"] }),
        ({ now := 3 }, .push 0 (lit "k") [lit "a"] true), ({ now := 4 }, .push 0 (lit "k") [lit "b", lit "c"] false),
        ({ now := 5 }, .move 0 (lit "k") (lit "j"))] :=
  (settled_iff_served _ _ KvStore.timeless_empty (by decide) (by decide)).mpr
    (by decide)

/-- LPUSH of two values with two waiters: one is served, the other one waits beside the second value. -/
theorem left_beside_data :
    let calls : List (Env × HubCall) :=
      [({ now := 1 }, .register { session := some 1, keys := [lit "k"] }),
        ({ now := 2 }, .register { session := some 2, keys := [lit "k"] }),
        ({ now := 3 }, .push 0 (lit "k") [lit "a", lit "b"] true)]
    HubState.Along HubState.Registers ⟨(KvStore.empty : KvStore Int), []⟩ calls ∧
      ¬HubState.Along HubState.SettledAfter ⟨(KvStore.empty : KvStore Int), []⟩ calls := by
  decide

end Kv
