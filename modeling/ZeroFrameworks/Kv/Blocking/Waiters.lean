import Mathlib.Algebra.BigOperators.Group.Finset.Basic
import Mathlib.Algebra.Order.Group.Multiset
import ZeroFrameworks.Kv.Blocking.Hub
import ZeroFrameworks.Lib.Shares

/-!
# Where an element goes that was pushed

LPUSH, RPUSH, BLPOP, BRPOP and BRPOPLPUSH of any number of clients, each a sequence of the locked
sections of the store and of the hub, in any order.  A waiter looks whether it was served, waits,
and leaves the hub; a push pops for it at any moment in between.

An element that was pushed is in a list or has been taken for one command (`Accounted`), always.  What
can go wrong is the reply: a waiter whose time was up when it looked answers nil although it was served
before it left; an empty key, or an empty value for BRPOPLPUSH, counts as not served; and a destination
of another type is found out when the element is gone from its list.  With none of these (`Safe`), and
only then, every command that took an element answers with it:

    Along KeptAfter c turns ↔ Along Safe c turns
-/

namespace Kv

variable {F : Type} [Platform F]

/-! ## Commands -/

inductive BlockingCall where
  /-- LPUSH and RPUSH. -/
  | push (key : Bytes) (values : List Bytes) (left : Bool)
  /-- BLPOP and BRPOP; `waits` when there is a timeout. -/
  | pop (keys : List Bytes) (right waits : Bool)
  /-- BRPOPLPUSH. -/
  | popPush (src dst : Bytes) (waits : Bool)

namespace BlockingCall

def keys (call : BlockingCall) : List Bytes :=
  match call with
  | .push key _ _ => [key]
  | .pop keys _ _ => keys
  | .popPush src dst _ => [src, dst]

def waits (call : BlockingCall) : Bool :=
  match call with
  | .push _ _ _ => false
  | .pop _ _ waits => waits
  | .popPush _ _ waits => waits

/-- The waiter a command registers. -/
def waiter (call : BlockingCall) (db : Int) (client : Nat) : ListWaiter :=
  match call with
  | .push _ _ _ => { session := some client, db := db }
  | .pop keys right _ => { session := some client, db := db, keys := keys, popRight := right }
  | .popPush src _ _ => { session := some client, db := db, keys := [src], popRight := true }

end BlockingCall

inductive BlockingReply where
  | count
  | nil
  | pair (key value : Bytes)
  | moved (value : Bytes)
  | error
  deriving DecidableEq

/-- Where a command is between two locked sections. -/
inductive BlockingPhase where
  | ready
  /-- The list is pushed to, the hub is not told yet. -/
  | pushed
  /-- The keys still to try. -/
  | trying (keys : List Bytes)
  | waiting
  /-- Left the loop of the waiter, because it was done or because its time was up. -/
  | leaving (done : Bool)
  /-- Has an element for the destination, to be announced if the waiter was woken for it. -/
  | storing (value : Bytes) (announce : Bool)
  /-- The destination is pushed to, the hub is not told yet. -/
  | stored (value : Bytes)
  | replied (r : BlockingReply)
  deriving DecidableEq

/-- What `onPush` and `cancelWaiters` set in a waiter. -/
structure Woken where
  done : Bool := false
  key : Bytes := []
  value : Bytes := []

/-- The store, the hub, the waiters' results and where each command is; `took` remembers which element
was popped for it. -/
structure Crowd (F : Type) [Platform F] where
  store : KvStore F
  hub : List ListWaiter
  woken : Nat → Woken
  took : Nat → Option Bytes
  phase : Nat → BlockingPhase

inductive Doing where
  /-- On to the next section; `late` when the deadline has passed at the look. -/
  | go (late : Bool)
  | cancel

structure ClientTurn where
  client : Nat
  env : Env
  doing : Doing

def ListWaiter.client (w : ListWaiter) : Nat := w.session.getD 0

namespace Crowd

def start (calls : List (Int × BlockingCall)) (s : KvStore F) : Crowd F where
  store := s
  hub := []
  woken _ := {}
  took _ := none
  phase i :=
    match calls[i]? with
    | some (_, .pop keys _ _) => .trying keys
    | _ => .ready

/-- A section of one command: what it leaves of the store, what it has taken, and where it is next. -/
def moveTo (c : Crowd F) (i : Nat) (store : KvStore F) (took : Option Bytes) (p : BlockingPhase) : Crowd F :=
  { c with store := store, took := Function.update c.took i took, phase := Function.update c.phase i p }

/-- A step that leaves the store alone. -/
def turnTo (c : Crowd F) (i : Nat) (p : BlockingPhase) : Crowd F := c.moveTo i c.store (c.took i) p

def leaveHub (c : Crowd F) (i : Nat) : Crowd F := { c with hub := c.hub.filter fun w => decide (w.client ≠ i) }

/-- `onPush`. -/
def announce (c : Crowd F) (db : Int) (key : Bytes) (env : Env) : Crowd F :=
  let r := wake db key c.hub env c.store
  match r.1.1 with
  | none => { c with store := r.2, hub := r.1.2 }
  | some (w, k, x) =>
    { c with
      store := r.2
      hub := r.1.2
      woken := Function.update c.woken w.client { done := true, key := k, value := x }
      took := Function.update c.took w.client (some x) }

/-- `cancelWaiters`. -/
def cancel (c : Crowd F) (i : Nat) : Crowd F :=
  if c.hub.any fun w => decide (w.client = i) then
    { c.leaveHub i with woken := Function.update c.woken i { c.woken i with done := true } }
  else c

/-- The reply of a waiter that has left the hub, or the next section of BRPOPLPUSH. -/
def answer (call : BlockingCall) (r : Woken) : BlockingPhase :=
  match call with
  | .popPush _ _ _ => if r.value.isEmpty then .replied .nil else .storing r.value true
  | _ => if r.key.isEmpty then .replied .nil else .replied (.pair r.key r.value)

/-- A push to a value of another type ends the command. -/
def afterPush (r : Except Bytes Int) (p : BlockingPhase) : BlockingPhase :=
  match r with
  | .error _ => .replied .error
  | .ok _ => p

/-- The next section of a command. -/
def advance (c : Crowd F) (i : Nat) (db : Int) (call : BlockingCall) (late : Bool) (env : Env) : Crowd F :=
  match c.phase i, call with
  | .ready, .push key values left =>
    let r := KvStore.listPush db key values left env c.store
    c.moveTo i r.2 (c.took i) (afterPush r.1 .pushed)
  | .pushed, .push key _ _ => (c.announce db key env).turnTo i (.replied .count)
  | .ready, .popPush src _ _ =>
    let r := KvStore.listPop db src false env c.store
    match r.1 with
    | .ok (some x) => c.moveTo i r.2 (some x) (.storing x false)
    | _ => c.moveTo i r.2 (c.took i) (.trying [])
  | .trying (key :: keys), .pop _ right _ =>
    let r := KvStore.listPop db key (!right) env c.store
    match r.1 with
    | .error _ => c.moveTo i r.2 (c.took i) (.replied .error)
    | .ok (some x) => c.moveTo i r.2 (some x) (.replied (.pair key x))
    | .ok none => c.moveTo i r.2 (c.took i) (.trying keys)
  | .trying [], call =>
    if call.waits then { c.turnTo i .waiting with hub := c.hub ++ [call.waiter db i] }
    else c.turnTo i (.replied .nil)
  | .waiting, _ =>
    if (c.woken i).done then c.turnTo i (.leaving true)
    else if late then c.turnTo i (.leaving false)
    else c
  | .leaving done, call =>
    (c.leaveHub i).turnTo i (if done then answer call (c.woken i) else .replied .nil)
  | .storing x announced, .popPush _ dst _ =>
    let r := KvStore.listPush db dst [x] true env c.store
    c.moveTo i r.2 (c.took i) (afterPush r.1 (if announced then .stored x else .replied (.moved x)))
  | .stored x, .popPush _ dst _ => (c.announce db dst env).turnTo i (.replied (.moved x))
  | _, _ => c

def next (calls : List (Int × BlockingCall)) (c : Crowd F) (t : ClientTurn) : Crowd F :=
  match calls[t.client]?, t.doing with
  | none, _ => c
  | some _, .cancel => c.cancel t.client
  | some (db, call), .go late => c.advance t.client db call late t.env

/-- A property of every turn, with the state before it. -/
def Along (calls : List (Int × BlockingCall)) (P : Crowd F → ClientTurn → Prop) (c : Crowd F) :
    List ClientTurn → Prop
  | [] => True
  | t :: turns => P c t ∧ Along calls P (c.next calls t) turns

/-! ## Accounts -/

/-- The keys the commands name. -/
def places (calls : List (Int × BlockingCall)) : Finset (Int × Bytes) :=
  (calls.flatMap fun c => c.2.keys.map fun key => (c.1, key)).toFinset

/-- What is in the lists of these keys. -/
def inLists (K : Finset (Int × Bytes)) (σ : Slots) : Multiset Bytes :=
  ∑ p ∈ K, ((σ p.1 p.2).elements : Multiset Bytes)

/-- What a command has pushed. -/
def brought (p : BlockingPhase) (call : BlockingCall) : Multiset Bytes :=
  match call with
  | .push _ values _ => if p = .pushed ∨ p = .replied .count then values else 0
  | _ => 0

/-- What a command has taken and not put into a list. -/
def inHand (took : Option Bytes) (p : BlockingPhase) : Multiset Bytes :=
  match p with
  | .stored _ => 0
  | .replied (.moved _) => 0
  | _ => took.elim 0 ({·})

/-- Every element there was or that was pushed is in a list or with one command. -/
def Accounted (calls : List (Int × BlockingCall)) (s : KvStore F) (c : Crowd F) : Prop :=
  inLists (places calls) s.slots +
      ∑ i ∈ Finset.range calls.length, (calls[i]?.elim 0 fun call => brought (c.phase i) call.2) =
    inLists (places calls) c.store.slots + ∑ i ∈ Finset.range calls.length, inHand (c.took i) (c.phase i)

end Crowd

/-- The element a command has answered with. -/
def BlockingReply.element (r : BlockingReply) : Option Bytes :=
  match r with
  | .pair _ x => some x
  | .moved x => some x
  | _ => none

namespace Crowd

/-- Who has replied has replied with what was taken for it. -/
def Shown (c : Crowd F) : Prop := ∀ i r, c.phase i = .replied r → c.took i = r.element

def KeptAfter (calls : List (Int × BlockingCall)) (s : KvStore F) (c : Crowd F) (t : ClientTurn) : Prop :=
  (c.next calls t).Accounted calls s ∧ (c.next calls t).Shown

/-- Who leaves late was not served in the meantime, who leaves served was not served an empty key (an
empty value for BRPOPLPUSH), and a destination is not of another type. -/
def SafeAt (σ : Slots) (db : Int) (took : Option Bytes) (r : Woken) : BlockingPhase → BlockingCall → Prop
  | .leaving false, _ => took = none
  | .leaving true, .popPush _ _ _ => took = none ∨ r.value ≠ []
  | .leaving true, _ => took = none ∨ r.key ≠ []
  | .storing _ _, .popPush _ dst _ => σ db dst ≠ .other
  | _, _ => True

instance (σ : Slots) (db : Int) (took : Option Bytes) (r : Woken) : ∀ p call, Decidable (SafeAt σ db took r p call)
  | .leaving false, _ => inferInstanceAs (Decidable (took = none))
  | .leaving true, .popPush _ _ _ => inferInstanceAs (Decidable (took = none ∨ r.value ≠ []))
  | .leaving true, .push _ _ _ => inferInstanceAs (Decidable (took = none ∨ r.key ≠ []))
  | .leaving true, .pop _ _ _ => inferInstanceAs (Decidable (took = none ∨ r.key ≠ []))
  | .storing _ _, .popPush _ dst _ => inferInstanceAs (Decidable (σ db dst ≠ .other))
  | .storing _ _, .push _ _ _ => inferInstanceAs (Decidable True)
  | .storing _ _, .pop _ _ _ => inferInstanceAs (Decidable True)
  | .ready, _ => inferInstanceAs (Decidable True)
  | .pushed, _ => inferInstanceAs (Decidable True)
  | .trying _, _ => inferInstanceAs (Decidable True)
  | .waiting, _ => inferInstanceAs (Decidable True)
  | .stored _, _ => inferInstanceAs (Decidable True)
  | .replied _, _ => inferInstanceAs (Decidable True)

/-- The turn is not one of a command in such a place. -/
def Safe (calls : List (Int × BlockingCall)) (c : Crowd F) (t : ClientTurn) : Prop :=
  match calls[t.client]?, t.doing with
  | some (db, call), .go _ =>
    SafeAt c.store.slots db (c.took t.client) (c.woken t.client) (c.phase t.client) call
  | _, _ => True

instance (calls : List (Int × BlockingCall)) (c : Crowd F) (t : ClientTurn) : Decidable (c.Safe calls t) := by
  unfold Safe
  exact match calls[t.client]?, t.doing with
    | none, _ => inferInstanceAs (Decidable True)
    | some _, .cancel => inferInstanceAs (Decidable True)
    | some (_, _), .go _ => inferInstanceAs (Decidable (SafeAt _ _ _ _ _ _))

instance (calls : List (Int × BlockingCall)) {P : Crowd F → ClientTurn → Prop} [∀ c t, Decidable (P c t)] :
    ∀ (c : Crowd F) (turns : List ClientTurn), Decidable (c.Along calls P turns)
  | _, [] => inferInstanceAs (Decidable True)
  | c, t :: turns => @instDecidableAnd _ _ _ (instDecidableAlong calls (c.next calls t) turns)

/-! ## Lemmas -/

section accounts

variable {K : Finset (Int × Bytes)} {σ : Slots} {db : Int} {key : Bytes}

theorem inLists_set (hk : (db, key) ∈ K) (slot : Slot) :
    inLists K (σ.set db key slot) + (σ db key).elements = inLists K σ + (slot.elements : Multiset Bytes) := by
  have hself : (σ.set db key slot db key).elements = slot.elements := by rw [Slots.set_self]
  rw [← hself]
  refine Shares.sum_exchange (f := fun p => ((σ.set db key slot p.1 p.2).elements : Multiset Bytes))
    (g := fun p => ((σ p.1 p.2).elements : Multiset Bytes)) hk ?_
  intro p _ hne
  have hp : ¬(p.1 = db ∧ p.2 = key) := fun h => hne (Prod.ext h.1 h.2)
  show ((σ.set db key slot p.1 p.2).elements : Multiset Bytes) = _
  rw [Slots.set_of_ne hp]

theorem inLists_popped (hk : (db, key) ∈ K) {left : Bool} {x : Bytes} {rest : List Bytes}
    (hpop : KvStore.popped left (σ db key).elements = some (x, rest)) :
    inLists K (σ.set db key (.ofRest rest)) + {x} = inLists K σ := by
  have hset := inLists_set (σ := σ) hk (.ofRest rest)
  have hperm : ((σ db key).elements : Multiset Bytes) = {x} + (rest : Multiset Bytes) :=
    Multiset.coe_eq_coe.mpr (popped_perm hpop)
  rw [hperm, Slot.elements_ofRest, ← add_assoc] at hset
  exact add_right_cancel hset

theorem pushed_perm (left : Bool) (values l : List Bytes) : (KvStore.pushed left values l).Perm (l ++ values) := by
  unfold KvStore.pushed
  cases left with
  | true => exact ((List.reverse_perm values).append_right l).trans List.perm_append_comm
  | false => exact List.Perm.refl _

/-- What a pop has taken. -/
def popTook (r : Except Bytes (Option Bytes)) : Option Bytes :=
  match r with
  | .ok x => x
  | .error _ => none

theorem listPop_inLists {s : KvStore F} (ht : s.Timeless) (hk : (db, key) ∈ K) (env : Env) (left : Bool) :
    let r := KvStore.listPop db key left env s
    r.2.Timeless ∧ inLists K r.2.slots + (popTook r.1).elim 0 ({·}) = inLists K s.slots := by
  obtain ⟨hreply, hslots, htimeless⟩ := KvStore.listPop_slots ht env db key left
  refine ⟨htimeless, ?_⟩
  rw [hreply, hslots]
  rcases (s.slots db key).pop_cases left with ⟨_, hnone, hsame⟩ | ⟨x, rest, hpop, hboth⟩
  · rw [hsame, Slots.set_eq]
    rcases hnone with hnone | hnone <;> rw [hnone] <;> exact add_zero _
  · rw [hboth]
    exact inLists_popped hk hpop

/-- A push is refused, by a value of another type, or brings its values. -/
theorem listPush_inLists {s : KvStore F} (ht : s.Timeless) (hk : (db, key) ∈ K) (env : Env) (values : List Bytes)
    (left : Bool) :
    let r := KvStore.listPush db key values left env s
    r.2.Timeless ∧
      ((r.1 = .error wrongType ∧ s.slots db key = .other ∧ inLists K r.2.slots = inLists K s.slots) ∨
        ∃ n, r.1 = .ok n ∧ (values ≠ [] → s.slots db key ≠ .other) ∧
          inLists K r.2.slots = inLists K s.slots + values) := by
  obtain ⟨hreply, hslots, htimeless⟩ := KvStore.listPush_slots ht env db key values left
  refine ⟨htimeless, ?_⟩
  rw [hreply, hslots]
  by_cases hv : values = []
  · subst hv
    refine .inr ⟨0, rfl, fun h => absurd rfl h, ?_⟩
    show inLists K (s.slots.set db key (s.slots db key)) = _
    rw [Slots.set_eq]
    exact (add_zero _).symm
  by_cases hother : s.slots db key = .other
  · rw [hother, Slot.push_other hv]
    refine .inl ⟨rfl, rfl, ?_⟩
    show inLists K (s.slots.set db key .other) = _
    rw [← hother, Slots.set_eq]
  · rw [Slot.push_of_ne hv hother]
    refine .inr ⟨_, rfl, fun _ => hother, ?_⟩
    have hset := inLists_set (σ := s.slots) hk (.list (KvStore.pushed left values (s.slots db key).elements))
    have hperm : ((Slot.list (KvStore.pushed left values (s.slots db key).elements)).elements : Multiset Bytes) =
        (values : Multiset Bytes) + (s.slots db key).elements :=
      Multiset.coe_eq_coe.mpr ((pushed_perm left values _).trans List.perm_append_comm)
    rw [hperm, ← add_assoc] at hset
    exact add_right_cancel hset

end accounts

/-- What was taken for a command, what its waiter was told, and where it is. -/
def Fits (keys : List Bytes) (took : Option Bytes) (r : Woken) : BlockingPhase → Prop
  | .ready | .pushed => took = none ∧ r = {}
  | .trying rest => took = none ∧ r = {} ∧ rest ⊆ keys
  | .waiting | .leaving _ => took = none ∧ r.key = [] ∧ r.value = [] ∨ took = some r.value
  | .storing x _ | .stored x => took = some x
  | .replied _ => True

/-- A registered waiter is of a command that waits and was not served. -/
structure Registered (calls : List (Int × BlockingCall)) (c : Crowd F) (w : ListWaiter) : Prop where
  call : ∃ db call, calls[w.client]? = some (db, call) ∧ w = call.waiter db w.client
  phase : c.phase w.client = .waiting ∨ c.phase w.client = .leaving false
  took : c.took w.client = none
  idle : (c.woken w.client).done = false

structure Coherent (calls : List (Int × BlockingCall)) (c : Crowd F) : Prop where
  timeless : c.store.Timeless
  once : (c.hub.map ListWaiter.client).Nodup
  registered : ∀ w ∈ c.hub, c.Registered calls w
  fits : ∀ i db call, calls[i]? = some (db, call) → Fits call.keys (c.took i) (c.woken i) (c.phase i)

/-- What a section keeps, and whether what was taken is still shown after it. -/
structure Keeps (calls : List (Int × BlockingCall)) (s : KvStore F) (c c' : Crowd F) (ok : Prop) : Prop where
  coherent : c'.Coherent calls
  accounted : c.Accounted calls s → c'.Accounted calls s
  shown : c.Shown → (c'.Shown ↔ ok)

section keeps

variable {calls : List (Int × BlockingCall)} {s : KvStore F} {c c' c'' : Crowd F} {i : Nat} {db : Int}
variable {call : BlockingCall}

theorem Keeps.refl (hc : c.Coherent calls) : c.Keeps calls s c True :=
  ⟨hc, id, fun h => ⟨fun _ => trivial, fun _ => h⟩⟩

theorem Keeps.trans {ok : Prop} (h : c.Keeps calls s c' True) (h' : c'.Keeps calls s c'' ok) :
    c.Keeps calls s c'' ok :=
  ⟨h'.coherent, fun ha => h'.accounted (h.accounted ha), fun hs => h'.shown ((h.shown hs).mpr trivial)⟩

theorem Keeps.congr {ok ok' : Prop} (h : c.Keeps calls s c' ok) (heq : ok ↔ ok') : c.Keeps calls s c' ok' :=
  ⟨h.coherent, h.accounted, fun hs => (h.shown hs).trans heq⟩

theorem Accounted.change (h : c.Accounted calls s) (hcall : calls[i]? = some (db, call))
    (hphase : ∀ j, j ≠ i → c'.phase j = c.phase j) (htook : ∀ j, j ≠ i → c'.took j = c.took j)
    (hbalance : inLists (places calls) c'.store.slots + inHand (c'.took i) (c'.phase i) + brought (c.phase i) call =
      inLists (places calls) c.store.slots + inHand (c.took i) (c.phase i) + brought (c'.phase i) call) :
    c'.Accounted calls s := by
  have hi : i ∈ Finset.range calls.length := by
    rw [Finset.mem_range]
    exact (List.getElem?_eq_some_iff.mp hcall).1
  have hbrought := Shares.sum_exchange (f := fun j => calls[j]?.elim 0 fun call => brought (c'.phase j) call.2)
    (g := fun j => calls[j]?.elim 0 fun call => brought (c.phase j) call.2) hi
    fun j _ hj => by rw [hphase j hj]
  have hheld := Shares.sum_exchange (f := fun j => inHand (c'.took j) (c'.phase j))
    (g := fun j => inHand (c.took j) (c.phase j)) hi fun j _ hj => by rw [hphase j hj, htook j hj]
  simp only [hcall, Option.elim_some] at hbrought
  unfold Accounted at h ⊢
  ext x
  have h := congrArg (Multiset.count x) h
  have hbalance := congrArg (Multiset.count x) hbalance
  have hbrought := congrArg (Multiset.count x) hbrought
  have hheld := congrArg (Multiset.count x) hheld
  simp only [Multiset.count_add] at h hbalance hbrought hheld ⊢
  omega

theorem Shown.change (h : c.Shown) (hphase : ∀ j, j ≠ i → c'.phase j = c.phase j)
    (htook : ∀ j r, j ≠ i → c.phase j = .replied r → c'.took j = c.took j) :
    c'.Shown ↔ ∀ r, c'.phase i = .replied r → c'.took i = r.element := by
  constructor
  · intro hs r hr
    exact hs i r hr
  · intro hi j r hr
    by_cases hj : j = i
    · subst hj
      exact hi r hr
    · rw [hphase j hj] at hr
      rw [htook j r hj hr]
      exact h j r hr

variable {p : BlockingPhase} {took : Option Bytes}

/-- A section of one command, that is not in the hub or only stops waiting. -/
theorem Keeps.moveTo (hc : c.Coherent calls) (hcall : calls[i]? = some (db, call))
    {store : KvStore F}
    (hout : ∀ w ∈ c.hub, w.client = i → p = .leaving false ∧ took = none) (ht : store.Timeless)
    (hfits : Fits call.keys took (c.woken i) p)
    (hbalance : inLists (places calls) store.slots + inHand took p + brought (c.phase i) call =
      inLists (places calls) c.store.slots + inHand (c.took i) (c.phase i) + brought p call) :
    c.Keeps calls s (c.moveTo i store took p) (∀ r, p = .replied r → took = r.element) := by
  have hphase : ∀ j, j ≠ i → (c.moveTo i store took p).phase j = c.phase j := fun j hj => Function.update_of_ne hj _ _
  have htook : ∀ j, j ≠ i → (c.moveTo i store took p).took j = c.took j := fun j hj => Function.update_of_ne hj _ _
  have hp : (c.moveTo i store took p).phase i = p := Function.update_self ..
  have ht' : (c.moveTo i store took p).took i = took := Function.update_self ..
  refine ⟨⟨ht, hc.once, ?_, ?_⟩, ?_, ?_⟩
  · intro w hw
    obtain ⟨hwcall, hwphase, hwtook, hidle⟩ := hc.registered w hw
    by_cases hwi : w.client = i
    · obtain ⟨hleaving, hnone⟩ := hout w hw hwi
      refine ⟨hwcall, .inr ?_, ?_, hidle⟩
      · rw [hwi, hp, hleaving]
      · rw [hwi, ht', hnone]
    · refine ⟨hwcall, ?_, ?_, hidle⟩
      · rw [hphase _ hwi]
        exact hwphase
      · rw [htook _ hwi]
        exact hwtook
  · intro j db' call' hcall'
    by_cases hj : j = i
    · subst hj
      rw [hcall] at hcall'
      cases hcall'
      rw [hp, ht']
      exact hfits
    · rw [hphase j hj, htook j hj]
      exact hc.fits j db' call' hcall'
  · intro ha
    refine ha.change hcall hphase htook ?_
    rw [hp, ht']
    exact hbalance
  · intro hs
    have hiff : (c.moveTo i store took p).Shown ↔ _ := hs.change hphase fun j _ hj _ => htook j hj
    rw [hp, ht'] at hiff
    exact hiff

theorem Coherent.out (hc : c.Coherent calls) (hwaiting : c.phase i ≠ .waiting) (hleaving : c.phase i ≠ .leaving false) :
    ∀ w ∈ c.hub, w.client ≠ i := by
  intro w hw hwi
  rcases (hc.registered w hw).phase with h | h
  · exact hwaiting (hwi ▸ h)
  · exact hleaving (hwi ▸ h)

theorem Keeps.ofHub (hc : c'.Coherent calls) (hstore : c'.store = c.store) (hphase : c'.phase = c.phase)
    (htook : c'.took = c.took) : c.Keeps calls s c' True := by
  refine ⟨hc, ?_, ?_⟩
  · intro ha
    unfold Accounted
    rw [hstore, hphase, htook]
    exact ha
  · intro hs
    refine ⟨fun _ => trivial, fun _ => ?_⟩
    unfold Shown
    rw [hphase, htook]
    exact hs

theorem Coherent.leaveHub (hc : c.Coherent calls) : (c.leaveHub i).Coherent calls where
  timeless := hc.timeless
  once := hc.once.sublist (List.filter_sublist.map _)
  registered w hw := by
    obtain ⟨hcall, hphase, htook, hidle⟩ := hc.registered w (List.mem_of_mem_filter hw)
    exact ⟨hcall, hphase, htook, hidle⟩
  fits := hc.fits

theorem leaveHub_out : ∀ w ∈ (c.leaveHub i).hub, w.client ≠ i := fun _ hw =>
  of_decide_eq_true (List.mem_filter.mp hw).2

theorem Keeps.addWaiter (hc : c.Coherent calls) (hcall : calls[i]? = some (db, call))
    (hphase : c.phase i = .waiting) (htook : c.took i = none) (hidle : (c.woken i).done = false)
    (hout : ∀ w ∈ c.hub, w.client ≠ i) :
    c.Keeps calls s { c with hub := c.hub ++ [call.waiter db i] } True := by
  have hclient : (call.waiter db i).client = i := by cases call <;> rfl
  refine Keeps.ofHub ⟨hc.timeless, ?_, ?_, hc.fits⟩ rfl rfl rfl
  · rw [List.map_append, List.map_singleton, hclient]
    refine hc.once.append (List.nodup_singleton i) ?_
    rw [List.disjoint_singleton]
    intro hmem
    obtain ⟨w, hw, hwi⟩ := List.mem_map.mp hmem
    exact hout w hw hwi
  · intro w hw
    rcases List.mem_append.mp hw with hw | hw
    · obtain ⟨hcall, hphase, htook, hidle⟩ := hc.registered w hw
      exact ⟨hcall, hphase, htook, hidle⟩
    · rw [List.mem_singleton.mp hw]
      constructor <;> rw [hclient]
      · exact ⟨db, call, hcall, rfl⟩
      · exact .inl hphase
      · exact htook
      · exact hidle

variable {keys : List Bytes}

theorem Fits.cancelled {r : Woken} (h : Fits keys took r p)
    (hp : p = .waiting ∨ p = .leaving false) : Fits keys took { r with done := true } p := by
  rcases hp with rfl | rfl <;> exact h

theorem Keeps.cancel (hc : c.Coherent calls) : c.Keeps calls s (c.cancel i) True := by
  unfold Crowd.cancel
  split
  · next hany =>
    obtain ⟨w, hw, hwi⟩ := List.any_eq_true.mp hany
    have hphase := (hc.registered w hw).phase
    rw [of_decide_eq_true hwi] at hphase
    refine Keeps.ofHub ⟨hc.timeless, hc.leaveHub.once, ?_, ?_⟩ rfl rfl rfl
    · intro w' hw'
      obtain ⟨hcall, hphase, htook, hidle⟩ := hc.leaveHub.registered w' hw'
      refine ⟨hcall, hphase, htook, ?_⟩
      show (Function.update c.woken i _ w'.client).done = false
      rw [Function.update_of_ne (leaveHub_out w' hw')]
      exact hidle
    · intro j db call hcall
      show Fits call.keys (c.took j) (Function.update c.woken i _ j) (c.phase j)
      by_cases hj : j = i
      · subst hj
        rw [Function.update_self]
        exact (hc.fits j db call hcall).cancelled hphase
      · rw [Function.update_of_ne hj]
        exact hc.fits j db call hcall
  · exact Keeps.refl hc

theorem waiter_places {w : ListWaiter} {key : Bytes} (hcall : calls[w.client]? = some (db, call))
    (hw : w = call.waiter db w.client) (hk : key ∈ w.keys) : (w.db, key) ∈ places calls := by
  have hdb : w.db = db := by rw [hw]; cases call <;> rfl
  have hkeys : key ∈ call.keys := by
    rw [hw] at hk
    cases call with
    | push _ _ _ => cases hk
    | pop _ _ _ => exact hk
    | popPush src dst _ => exact List.mem_cons.mpr (.inl (List.mem_singleton.mp hk))
  unfold places
  rw [List.mem_toFinset, List.mem_flatMap, hdb]
  exact ⟨(db, call), List.mem_of_getElem? hcall, List.mem_map.mpr ⟨key, hkeys, rfl⟩⟩

theorem inHand_unserved (hp : p = .waiting ∨ p = .leaving false) (took : Option Bytes) :
    inHand took p = took.elim 0 ({·}) := by
  rcases hp with rfl | rfl <;> rfl

theorem Fits.served (hp : p = .waiting ∨ p = .leaving false) (k x : Bytes) :
    Fits keys (some x) { done := true, key := k, value := x } p := by
  rcases hp with rfl | rfl <;> exact .inr rfl

/-- `onPush` takes an element for a waiter, or nothing. -/
theorem Keeps.announce (hc : c.Coherent calls) (key : Bytes) (env : Env) :
    c.Keeps calls s (c.announce db key env) True ∧ (c.announce db key env).phase = c.phase ∧
      ∀ j, (∀ w ∈ c.hub, w.client ≠ j) → (∀ w ∈ (c.announce db key env).hub, w.client ≠ j) ∧
        (c.announce db key env).took j = c.took j ∧ (c.announce db key env).woken j = c.woken j := by
  obtain ⟨htimeless, hcases⟩ := wake_spec hc.timeless env db key c.hub
  rcases hcases with ⟨hr, hslots, _⟩ | ⟨front, w, back, k, x, rest, hhub, hr, _, _, hk, hpop, hslots⟩
  · have hafter : c.announce db key env = { c with store := (wake db key c.hub env c.store).2 } := by
      simp only [Crowd.announce, hr]
    rw [hafter]
    refine ⟨⟨⟨htimeless, hc.once, ?_, hc.fits⟩, ?_, ?_⟩, rfl, fun j hj => ⟨hj, rfl, rfl⟩⟩
    · intro w hw
      obtain ⟨hcall, hphase, htook, hidle⟩ := hc.registered w hw
      exact ⟨hcall, hphase, htook, hidle⟩
    · intro ha
      unfold Accounted
      rw [hslots]
      exact ha
    · exact fun hs => ⟨fun _ => trivial, fun _ => hs⟩
  · have hafter : c.announce db key env = { c with
        store := (wake db key c.hub env c.store).2
        hub := front ++ back
        woken := Function.update c.woken w.client { done := true, key := k, value := x }
        took := Function.update c.took w.client (some x) } := by
      simp only [Crowd.announce, hr]
    have hmem : w ∈ c.hub := by
      rw [hhub]
      exact List.mem_append_right _ List.mem_cons_self
    have hstays : ∀ w' ∈ front ++ back, w' ∈ c.hub := by
      intro w' hw'
      rw [hhub]
      rcases List.mem_append.mp hw' with h | h
      · exact List.mem_append_left _ h
      · exact List.mem_append_right _ (List.mem_cons_of_mem _ h)
    -- a client has one waiter
    have honce := hc.once
    rw [hhub, List.map_append, List.map_cons, List.nodup_middle, List.nodup_cons, ← List.map_append] at honce
    have hgone : ∀ w' ∈ front ++ back, w'.client ≠ w.client := fun w' hw' heq =>
      honce.1 (List.mem_map.mpr ⟨w', hw', heq⟩)
    obtain ⟨⟨wdb, wcall, hcall, hw⟩, hphase, htook, _⟩ := hc.registered w hmem
    have hbalance := inLists_popped (waiter_places hcall hw hk) hpop
    rw [hafter]
    refine ⟨⟨⟨htimeless, honce.2, ?_, ?_⟩, ?_, ?_⟩, rfl, ?_⟩
    · intro w' hw'
      obtain ⟨hcall', hphase', htook', hidle'⟩ := hc.registered w' (hstays w' hw')
      refine ⟨hcall', hphase', ?_, ?_⟩
      · show Function.update c.took w.client (some x) w'.client = none
        rw [Function.update_of_ne (hgone w' hw')]
        exact htook'
      · show (Function.update c.woken w.client _ w'.client).done = false
        rw [Function.update_of_ne (hgone w' hw')]
        exact hidle'
    · intro j db' call' hcall'
      show Fits _ (Function.update c.took w.client (some x) j) (Function.update c.woken w.client _ j) (c.phase j)
      by_cases hj : j = w.client
      · subst hj
        rw [Function.update_self, Function.update_self]
        exact Fits.served hphase k x
      · rw [Function.update_of_ne hj, Function.update_of_ne hj]
        exact hc.fits j db' call' hcall'
    · intro ha
      refine ha.change hcall (fun _ _ => rfl) (fun j hj => Function.update_of_ne hj _ _) ?_
      show inLists (places calls) (wake db key c.hub env c.store).2.slots +
        inHand (Function.update c.took w.client (some x) w.client) (c.phase w.client) + _ = _
      rw [Function.update_self, inHand_unserved hphase, inHand_unserved hphase, htook, hslots, ← hbalance]
      exact congrArg (· + _) (add_zero _).symm
    · intro hs
      refine ⟨fun _ => trivial, fun _ => ?_⟩
      intro j r hr
      have hj : j ≠ w.client := by
        rintro rfl
        rcases hphase with h | h <;> rw [h] at hr <;> cases hr
      show Function.update c.took w.client (some x) j = _
      rw [Function.update_of_ne hj]
      exact hs j r hr
    · intro j hj
      refine ⟨fun w' hw' => hj w' (hstays w' hw'), ?_, ?_⟩
      · exact Function.update_of_ne (hj w hmem).symm _ _
      · exact Function.update_of_ne (hj w hmem).symm _ _

theorem call_places (hcall : calls[i]? = some (db, call)) {key : Bytes} (hk : key ∈ call.keys) :
    (db, key) ∈ places calls := by
  unfold places
  rw [List.mem_toFinset, List.mem_flatMap]
  exact ⟨(db, call), List.mem_of_getElem? hcall, List.mem_map.mpr ⟨key, hk, rfl⟩⟩

theorem Keeps.turnTo (hc : c.Coherent calls) (hcall : calls[i]? = some (db, call))
    (hout : ∀ w ∈ c.hub, w.client = i → p = .leaving false ∧ c.took i = none)
    (hfits : Fits call.keys (c.took i) (c.woken i) p)
    (hhand : inHand (c.took i) p = inHand (c.took i) (c.phase i)) (hbrought : brought p call = brought (c.phase i) call) :
    c.Keeps calls s (c.turnTo i p) (∀ r, p = .replied r → c.took i = r.element) := by
  refine Keeps.moveTo hc hcall hout hc.timeless hfits ?_
  rw [hhand, hbrought]

theorem Keeps.push (hc : c.Coherent calls) {key : Bytes} {values : List Bytes} {left : Bool}
    (hcall : calls[i]? = some (db, .push key values left)) (hphase : c.phase i = .ready) (env : Env) :
    c.Keeps calls s (c.moveTo i (KvStore.listPush db key values left env c.store).2 (c.took i)
      (afterPush (KvStore.listPush db key values left env c.store).1 .pushed)) True := by
  have hfits := hc.fits i _ _ hcall
  rw [hphase] at hfits
  obtain ⟨htook, hwoken⟩ := hfits
  have hout := hc.out (i := i) (by rw [hphase]; decide) (by rw [hphase]; decide)
  obtain ⟨htimeless, hcases⟩ := listPush_inLists hc.timeless (call_places hcall List.mem_cons_self) env values left
  rcases hcases with ⟨hr, _, hlists⟩ | ⟨n, hr, _, hlists⟩
  · rw [hr]
    refine (Keeps.moveTo hc hcall (fun w hw h => absurd h (hout w hw)) htimeless ?_ ?_).congr ?_
    · trivial
    · rw [hlists, hphase, htook]
      rfl
    · refine ⟨fun _ => trivial, ?_⟩
      rintro - r hr
      cases hr
      exact htook
  · rw [hr]
    refine (Keeps.moveTo hc hcall (fun w hw h => absurd h (hout w hw)) htimeless ?_ ?_).congr ?_
    · exact ⟨htook, hwoken⟩
    · rw [hlists, hphase, htook]
      show inLists (places calls) c.store.slots + values + 0 + 0 = inLists (places calls) c.store.slots + 0 + values
      rw [add_zero, add_zero, add_zero]
    · exact ⟨fun _ => trivial, fun _ r hr => nomatch hr⟩

/-- A command that pops takes what it finds. -/
theorem Keeps.pop (hc : c.Coherent calls) (hcall : calls[i]? = some (db, call)) {key : Bytes} (hk : key ∈ call.keys)
    (hout : ∀ w ∈ c.hub, w.client ≠ i) (htook : c.took i = none) (left : Bool) (env : Env)
    (hfits : Fits call.keys (popTook (KvStore.listPop db key left env c.store).1) (c.woken i) p)
    (hhand : inHand (popTook (KvStore.listPop db key left env c.store).1) p =
      (popTook (KvStore.listPop db key left env c.store).1).elim 0 ({·}))
    (hbrought : brought p call = brought (c.phase i) call) :
    c.Keeps calls s (c.moveTo i (KvStore.listPop db key left env c.store).2
        (popTook (KvStore.listPop db key left env c.store).1) p)
      (∀ r, p = .replied r → popTook (KvStore.listPop db key left env c.store).1 = r.element) := by
  obtain ⟨htimeless, hlists⟩ := listPop_inLists hc.timeless (call_places hcall hk) env left
  refine Keeps.moveTo hc hcall (fun w hw h => absurd h (hout w hw)) htimeless hfits ?_
  have hnone : inHand (none : Option Bytes) (c.phase i) = 0 := by
    unfold inHand
    split <;> rfl
  rw [hhand, hlists, htook, hnone, add_zero, hbrought]

theorem brought_eq_zero (hpushed : p ≠ .pushed) (hcount : p ≠ .replied .count) : brought p call = 0 := by
  unfold brought
  cases call with
  | push _ _ _ => exact if_neg (not_or.mpr ⟨hpushed, hcount⟩)
  | pop _ _ _ => rfl
  | popPush _ _ _ => rfl

theorem Keeps.tryKey (hc : c.Coherent calls) {key : Bytes} (hcall : calls[i]? = some (db, call))
    (hphase : c.phase i = .trying (key :: keys)) (left : Bool) (env : Env) :
    let r := KvStore.listPop db key left env c.store
    c.Keeps calls s (match r.1 with
      | .error _ => c.moveTo i r.2 (c.took i) (.replied .error)
      | .ok (some x) => c.moveTo i r.2 (some x) (.replied (.pair key x))
      | .ok none => c.moveTo i r.2 (c.took i) (.trying keys)) True := by
  intro r
  have hfits := hc.fits i _ _ hcall
  rw [hphase] at hfits
  obtain ⟨htook, hwoken, hkeys⟩ := hfits
  have hout := hc.out (i := i) (by rw [hphase]; exact nofun) (by rw [hphase]; exact nofun)
  have hpop := fun p => Keeps.pop (s := s) hc hcall (hkeys List.mem_cons_self) hout htook left env (p := p)
  rw [hphase, brought_eq_zero (p := .trying _) nofun nofun] at hpop
  rw [htook]
  cases hr : r.1 with
  | error e =>
    rw [hr] at hpop
    refine (hpop (.replied .error) trivial rfl (brought_eq_zero nofun nofun)).congr ⟨fun _ => trivial, ?_⟩
    rintro - r hr
    cases hr
    rfl
  | ok found =>
    rw [hr] at hpop
    cases found with
    | none =>
      refine (hpop (.trying keys) ⟨rfl, hwoken, fun k hk => hkeys (List.mem_cons_of_mem _ hk)⟩
        rfl (brought_eq_zero nofun nofun)).congr ⟨fun _ => trivial, ?_⟩
      exact fun _ r hr => nomatch hr
    | some x =>
      refine (hpop (.replied (.pair key x)) trivial rfl (brought_eq_zero nofun nofun)).congr
        ⟨fun _ => trivial, ?_⟩
      rintro - r hr
      cases hr
      rfl

theorem Keeps.trySource (hc : c.Coherent calls) {src : Bytes} (hcall : calls[i]? = some (db, call))
    (hk : src ∈ call.keys) (hphase : c.phase i = .ready) (env : Env) :
    let r := KvStore.listPop db src false env c.store
    c.Keeps calls s (match r.1 with
      | .ok (some x) => c.moveTo i r.2 (some x) (.storing x false)
      | _ => c.moveTo i r.2 (c.took i) (.trying [])) True := by
  intro r
  have hfits := hc.fits i _ _ hcall
  rw [hphase] at hfits
  obtain ⟨htook, hwoken⟩ := hfits
  have hout := hc.out (i := i) (by rw [hphase]; exact nofun) (by rw [hphase]; exact nofun)
  have hpop := fun p => Keeps.pop (s := s) hc hcall hk hout htook false env (p := p)
  rw [hphase, brought_eq_zero (p := .ready) nofun nofun] at hpop
  rw [htook]
  have htrying : popTook r.1 = none → c.Keeps calls s (c.moveTo i r.2 none (.trying [])) True := by
    intro hnone
    rw [hnone] at hpop
    refine (hpop (.trying []) ⟨rfl, hwoken, List.nil_subset _⟩ rfl (brought_eq_zero nofun nofun)).congr ⟨fun _ => trivial, ?_⟩
    exact fun _ r hr => nomatch hr
  cases hr : r.1 with
  | error e => exact htrying (by rw [hr]; rfl)
  | ok found =>
    cases found with
    | none => exact htrying (by rw [hr]; rfl)
    | some x =>
      rw [hr] at hpop
      refine (hpop (.storing x false) rfl rfl (brought_eq_zero nofun nofun)).congr ⟨fun _ => trivial, ?_⟩
      exact fun _ r hr => nomatch hr

/-- All keys tried: a command waits, or answers nil. -/
theorem Keeps.register (hc : c.Coherent calls) (hcall : calls[i]? = some (db, call))
    (hphase : c.phase i = .trying []) :
    c.Keeps calls s (if call.waits then { c.turnTo i .waiting with hub := c.hub ++ [call.waiter db i] }
      else c.turnTo i (.replied .nil)) True := by
  have hfits := hc.fits i _ _ hcall
  rw [hphase] at hfits
  obtain ⟨htook, hwoken, _⟩ := hfits
  have hout := hc.out (i := i) (by rw [hphase]; exact nofun) (by rw [hphase]; exact nofun)
  split
  · have hturn : c.Keeps calls s (c.turnTo i .waiting) True := by
      refine (Keeps.turnTo hc hcall (fun w hw h => absurd h (hout w hw)) ?_ ?_ ?_).congr ?_
      · exact .inl ⟨htook, by rw [hwoken], by rw [hwoken]⟩
      · rw [hphase, htook]
        rfl
      · rw [hphase]
        exact (brought_eq_zero (p := .waiting) nofun nofun).trans (brought_eq_zero (p := .trying _) nofun nofun).symm
      · exact ⟨fun _ => trivial, fun _ r hr => nomatch hr⟩
    refine hturn.trans (Keeps.addWaiter (c := c.turnTo i .waiting) hturn.coherent hcall ?_ ?_ ?_ hout)
    · exact Function.update_self ..
    · exact (Function.update_self ..).trans htook
    · exact congrArg Woken.done hwoken
  · refine (Keeps.turnTo hc hcall (fun w hw h => absurd h (hout w hw)) ?_ ?_ ?_).congr ?_
    · trivial
    · rw [hphase, htook]
      rfl
    · rw [hphase]
      exact (brought_eq_zero (p := .replied .nil) nofun nofun).trans (brought_eq_zero (p := .trying _) nofun nofun).symm
    · refine ⟨fun _ => trivial, ?_⟩
      rintro - r hr
      cases hr
      exact htook

/-- A waiter looks whether it was served and whether its time is up. -/
theorem Keeps.look (hc : c.Coherent calls) (hcall : calls[i]? = some (db, call)) (hphase : c.phase i = .waiting)
    (late : Bool) :
    c.Keeps calls s (if (c.woken i).done then c.turnTo i (.leaving true)
      else if late then c.turnTo i (.leaving false) else c) True := by
  have hfits := hc.fits i _ _ hcall
  rw [hphase] at hfits
  have hleave : ∀ done, (∀ w ∈ c.hub, w.client = i → BlockingPhase.leaving done = .leaving false ∧ c.took i = none) →
      c.Keeps calls s (c.turnTo i (.leaving done)) True := by
    intro done hout
    refine (Keeps.turnTo hc hcall hout hfits ?_ ?_).congr ?_
    · rw [hphase]
      rfl
    · rw [hphase]
      exact (brought_eq_zero (p := .leaving _) nofun nofun).trans (brought_eq_zero (p := .waiting) nofun nofun).symm
    · exact ⟨fun _ => trivial, fun _ r hr => nomatch hr⟩
  split
  · next hdone =>
    refine hleave true fun w hw hwi => ?_
    have hidle := (hc.registered w hw).idle
    rw [hwi, hdone] at hidle
    cases hidle
  · split
    · refine hleave false fun w hw hwi => ⟨rfl, ?_⟩
      have htook := (hc.registered w hw).took
      rw [hwi] at htook
      exact htook
    · exact Keeps.refl hc

theorem replied_iff {r : BlockingReply} :
    (∀ r', BlockingPhase.replied r = .replied r' → took = r'.element) ↔ took = r.element := by
  constructor
  · intro h
    exact h r rfl
  · rintro h r' hr'
    cases hr'
    exact h

theorem Keeps.leave (hc : c.Coherent calls) (hcall : calls[i]? = some (db, call)) {done : Bool}
    (hphase : c.phase i = .leaving done) (σ : Slots) :
    c.Keeps calls s ((c.leaveHub i).turnTo i (if done then answer call (c.woken i) else .replied .nil))
      (SafeAt σ db (c.took i) (c.woken i) (.leaving done) call) := by
  have hfits := hc.fits i _ _ hcall
  rw [hphase] at hfits
  have hleave : c.Keeps calls s (c.leaveHub i) True := Keeps.ofHub hc.leaveHub rfl rfl rfl
  refine hleave.trans ?_
  have hturn : ∀ p, Fits call.keys (c.took i) (c.woken i) p → inHand (c.took i) p = (c.took i).elim 0 ({·}) →
      brought p call = 0 →
      (c.leaveHub i).Keeps calls s ((c.leaveHub i).turnTo i p) (∀ r, p = .replied r → c.took i = r.element) := by
    intro p hp hhand hbrought
    refine Keeps.turnTo hc.leaveHub hcall (fun w hw h => absurd h (leaveHub_out w hw)) hp ?_ ?_
    · show inHand (c.took i) p = inHand (c.took i) (c.phase i)
      rw [hphase, hhand]
      rfl
    · show brought p call = brought (c.phase i) call
      rw [hphase, hbrought, brought_eq_zero (p := .leaving _) nofun nofun]
  have hnil := (hturn (.replied .nil) trivial rfl (brought_eq_zero nofun nofun)).congr replied_iff
  have hpair := (hturn (.replied (.pair (c.woken i).key (c.woken i).value)) trivial rfl
    (brought_eq_zero nofun nofun)).congr replied_iff
  -- the answer of BLPOP and BRPOP
  have hkey : (c.leaveHub i).Keeps calls s ((c.leaveHub i).turnTo i (if (c.woken i).key.isEmpty then .replied .nil
      else .replied (.pair (c.woken i).key (c.woken i).value))) (c.took i = none ∨ (c.woken i).key ≠ []) := by
    by_cases hk : (c.woken i).key = []
    · rw [if_pos (List.isEmpty_iff.mpr hk)]
      exact hnil.congr ⟨.inl, fun h => h.resolve_right (not_not.mpr hk)⟩
    · rw [if_neg (mt List.isEmpty_iff.mp hk)]
      exact hpair.congr ⟨fun _ => .inr hk, fun _ => hfits.resolve_left fun h => hk h.2.1⟩
  cases done with
  | false => exact hnil
  | true =>
    cases call with
    | push _ _ _ => exact hkey
    | pop _ _ _ => exact hkey
    | popPush src dst waits =>
      by_cases hv : (c.woken i).value = []
      · have hanswer : answer (.popPush src dst waits) (c.woken i) = .replied .nil := if_pos (List.isEmpty_iff.mpr hv)
        rw [if_pos rfl, hanswer]
        exact hnil.congr ⟨.inl, fun h => h.resolve_right (not_not.mpr hv)⟩
      · have hanswer : answer (.popPush src dst waits) (c.woken i) = .storing (c.woken i).value true :=
          if_neg (mt List.isEmpty_iff.mp hv)
        rw [if_pos rfl, hanswer]
        refine (hturn (.storing (c.woken i).value true) ?_ rfl (brought_eq_zero nofun nofun)).congr ?_
        · exact hfits.resolve_left fun h => hv h.2.2
        · exact ⟨fun _ => .inr hv, fun _ r hr => nomatch hr⟩

theorem Keeps.store (hc : c.Coherent calls) (hcall : calls[i]? = some (db, call)) {dst x : Bytes}
    (hk : dst ∈ call.keys) {announced : Bool} (hphase : c.phase i = .storing x announced) (env : Env) :
    let r := KvStore.listPush db dst [x] true env c.store
    c.Keeps calls s (c.moveTo i r.2 (c.took i) (afterPush r.1 (if announced then .stored x else .replied (.moved x))))
      (c.store.slots db dst ≠ .other) := by
  intro r
  have htook := hc.fits i _ _ hcall
  rw [hphase] at htook
  replace htook : c.took i = some x := htook
  have hout := hc.out (i := i) (by rw [hphase]; exact nofun) (by rw [hphase]; exact nofun)
  obtain ⟨htimeless, hcases⟩ := listPush_inLists hc.timeless (call_places hcall hk) env [x] true
  have hmove : ∀ p, Fits call.keys (c.took i) (c.woken i) p → _ → c.Keeps calls s (c.moveTo i r.2 (c.took i) p) _ :=
    fun p => Keeps.moveTo hc hcall (fun w hw h => absurd h (hout w hw)) htimeless
  rw [hphase, brought_eq_zero (p := .storing _ _) nofun nofun, htook] at hmove
  rw [htook]
  rcases hcases with ⟨hr, hother, hlists⟩ | ⟨n, hr, hother, hlists⟩
  · rw [hlists] at hmove
    rw [hr]
    refine (hmove (.replied .error) trivial ?_).congr (replied_iff.trans ?_)
    · rw [brought_eq_zero (p := .replied .error) nofun nofun]
      rfl
    · exact ⟨nofun, fun h => absurd hother h⟩
  · rw [hlists] at hmove
    rw [hr]
    have hsafe := hother (List.cons_ne_nil x [])
    have hgone : inLists (places calls) c.store.slots + (([x] : List Bytes) : Multiset Bytes) + 0 + 0 =
        inLists (places calls) c.store.slots + {x} + 0 := by
      rw [add_zero, add_zero]
      exact (add_zero _).symm
    cases announced with
    | true =>
      refine (hmove (.stored x) rfl ?_).congr ⟨fun _ => hsafe, fun _ r hr => nomatch hr⟩
      rw [brought_eq_zero (p := .stored _) nofun nofun]
      exact hgone
    | false =>
      refine (hmove (.replied (.moved x)) trivial ?_).congr (replied_iff.trans ⟨fun _ => hsafe, fun _ => rfl⟩)
      rw [brought_eq_zero (p := .replied (.moved x)) nofun nofun]
      exact hgone

theorem Keeps.told (hc : c.Coherent calls) (hcall : calls[i]? = some (db, call)) (hout : ∀ w ∈ c.hub, w.client ≠ i)
    (key : Bytes) (env : Env) {r : BlockingReply} (hhand : inHand (c.took i) (.replied r) = inHand (c.took i) (c.phase i))
    (hbrought : brought (.replied r) call = brought (c.phase i) call) (hshown : c.took i = r.element) :
    c.Keeps calls s ((c.announce db key env).turnTo i (.replied r)) True := by
  obtain ⟨hkeeps, hphase, hothers⟩ := @Keeps.announce F _ calls s c db hc key env
  obtain ⟨hout', htook, _⟩ := hothers i hout
  refine hkeeps.trans ((Keeps.turnTo hkeeps.coherent hcall (fun w hw h => absurd h (hout' w hw)) ?_ ?_ ?_).congr ?_)
  · trivial
  · rw [htook, hphase]
    exact hhand
  · rw [hphase]
    exact hbrought
  · rw [htook, replied_iff]
    exact ⟨fun _ => trivial, fun _ => hshown⟩

/-- The next section of a command keeps the accounts, and shows what was taken if it is safe. -/
theorem Keeps.advance (hc : c.Coherent calls) (hcall : calls[i]? = some (db, call)) (late : Bool) (env : Env) :
    c.Keeps calls s (c.advance i db call late env)
      (SafeAt c.store.slots db (c.took i) (c.woken i) (c.phase i) call) := by
  have hfits := hc.fits i db call hcall
  cases hphase : c.phase i with
  | ready =>
    cases call with
    | push key values left =>
      simp only [Crowd.advance, hphase]
      exact Keeps.push hc hcall hphase env
    | pop _ _ _ =>
      simp only [Crowd.advance, hphase]
      exact Keeps.refl hc
    | popPush src dst _ =>
      simp only [Crowd.advance, hphase]
      exact Keeps.trySource hc hcall List.mem_cons_self hphase env
  | pushed =>
    cases call with
    | push key values left =>
      simp only [Crowd.advance, hphase]
      rw [hphase] at hfits
      have hout := hc.out (i := i) (by rw [hphase]; exact nofun) (by rw [hphase]; exact nofun)
      refine Keeps.told hc hcall hout key env ?_ ?_ hfits.1
      · rw [hphase]
        rfl
      · rw [hphase]
        rfl
    | pop _ _ _ =>
      simp only [Crowd.advance, hphase]
      exact Keeps.refl hc
    | popPush _ _ _ =>
      simp only [Crowd.advance, hphase]
      exact Keeps.refl hc
  | trying keys =>
    cases keys with
    | nil =>
      simp only [Crowd.advance, hphase]
      exact Keeps.register hc hcall hphase
    | cons key keys =>
      cases call with
      | pop _ right _ =>
        simp only [Crowd.advance, hphase]
        exact Keeps.tryKey hc hcall hphase (!right) env
      | push _ _ _ =>
        simp only [Crowd.advance, hphase]
        exact Keeps.refl hc
      | popPush _ _ _ =>
        simp only [Crowd.advance, hphase]
        exact Keeps.refl hc
  | waiting =>
    simp only [Crowd.advance, hphase]
    exact Keeps.look hc hcall hphase late
  | leaving done =>
    simp only [Crowd.advance, hphase]
    exact Keeps.leave hc hcall hphase c.store.slots
  | storing x announced =>
    cases call with
    | popPush src dst _ =>
      simp only [Crowd.advance, hphase]
      exact Keeps.store hc hcall (List.mem_cons_of_mem _ List.mem_cons_self) hphase env
    | push _ _ _ =>
      simp only [Crowd.advance, hphase]
      exact Keeps.refl hc
    | pop _ _ _ =>
      simp only [Crowd.advance, hphase]
      exact Keeps.refl hc
  | stored x =>
    cases call with
    | popPush src dst _ =>
      simp only [Crowd.advance, hphase]
      rw [hphase] at hfits
      have hout := hc.out (i := i) (by rw [hphase]; exact nofun) (by rw [hphase]; exact nofun)
      refine Keeps.told hc hcall hout dst env ?_ ?_ hfits
      · rw [hphase]
        rfl
      · rfl
    | push _ _ _ =>
      simp only [Crowd.advance, hphase]
      exact Keeps.refl hc
    | pop _ _ _ =>
      simp only [Crowd.advance, hphase]
      exact Keeps.refl hc
  | replied r =>
    simp only [Crowd.advance, hphase]
    exact Keeps.refl hc

theorem Keeps.next (hc : c.Coherent calls) (t : ClientTurn) : c.Keeps calls s (c.next calls t) (c.Safe calls t) := by
  unfold Crowd.next Crowd.Safe
  cases hcall : calls[t.client]? with
  | none => exact Keeps.refl hc
  | some entry =>
    obtain ⟨db, call⟩ := entry
    cases t.doing with
    | cancel => exact Keeps.cancel hc
    | go late => exact Keeps.advance hc hcall late t.env

theorem start_coherent (ht : s.Timeless) : (start calls s).Coherent calls := by
  refine ⟨ht, List.nodup_nil, (fun w hw => nomatch hw), ?_⟩
  intro i db call hcall
  show Fits call.keys none {} (match calls[i]? with | some (_, .pop keys _ _) => .trying keys | _ => .ready)
  rw [hcall]
  cases call with
  | push _ _ _ => exact ⟨rfl, rfl⟩
  | pop keys _ _ => exact ⟨rfl, rfl, List.Subset.refl keys⟩
  | popPush _ _ _ => exact ⟨rfl, rfl⟩

theorem start_phase (calls : List (Int × BlockingCall)) (s : KvStore F) (i : Nat) :
    (start calls s).phase i = .ready ∨ ∃ keys, (start calls s).phase i = .trying keys := by
  simp only [start]
  split
  · exact .inr ⟨_, rfl⟩
  · exact .inl rfl

theorem start_accounted : (start calls s).Accounted calls s := by
  have hbrought : ∀ i, (calls[i]?.elim 0 fun call => brought ((start calls s).phase i) call.2) = 0 := by
    intro i
    cases calls[i]? with
    | none => rfl
    | some call =>
      rcases start_phase calls s i with h | ⟨keys, h⟩
      · rw [h]
        exact brought_eq_zero nofun nofun
      · rw [h]
        exact brought_eq_zero nofun nofun
  have hhand : ∀ i, inHand ((start calls s).took i) ((start calls s).phase i) = 0 := by
    intro i
    rcases start_phase calls s i with h | ⟨keys, h⟩ <;> rw [h] <;> rfl
  unfold Accounted
  simp only [hbrought, hhand, Finset.sum_const_zero]
  rfl

theorem start_shown : (start calls s).Shown := by
  intro i r hr
  rcases start_phase calls s i with h | ⟨keys, h⟩ <;> rw [h] at hr <;> cases hr

theorem along_kept_iff (hc : c.Coherent calls) (ha : c.Accounted calls s) (hs : c.Shown) (turns : List ClientTurn) :
    c.Along calls (KeptAfter calls s) turns ↔ c.Along calls (Safe calls) turns := by
  induction turns generalizing c with
  | nil => exact Iff.rfl
  | cons t turns ih =>
    have hkeeps := Keeps.next (s := s) hc t
    have ha' := hkeeps.accounted ha
    have hiff := hkeeps.shown hs
    constructor
    · rintro ⟨⟨_, hs'⟩, hrest⟩
      exact ⟨hiff.mp hs', (ih hkeeps.coherent ha' hs').mp hrest⟩
    · rintro ⟨hsafe, hrest⟩
      have hs' := hiff.mpr hsafe
      exact ⟨⟨ha', hs'⟩, (ih hkeeps.coherent ha' hs').mpr hrest⟩

end keeps

end Crowd

/-! ## Top theorem -/

/-- **Every element is in a list or with the one command that answers with it if and only if nobody
leaves late that was served, nobody is served an empty key or moves an empty value, and no destination is
of another type.** -/
theorem kept_iff_safe (calls : List (Int × BlockingCall)) (s : KvStore F) (ht : s.Timeless)
    (turns : List ClientTurn) :
    (Crowd.start calls s).Along calls (Crowd.KeptAfter calls s) turns ↔
      (Crowd.start calls s).Along calls (Crowd.Safe calls) turns :=
  Crowd.along_kept_iff (Crowd.start_coherent ht) Crowd.start_accounted Crowd.start_shown turns

/-- BLPOP and BRPOPLPUSH wait; LPUSH serves the first, and the second answers nil when its time is up. -/
theorem kept_served_and_late :
    let calls : List (Int × BlockingCall) :=
      [(0, .pop [lit "j", lit "k"] false true), (0, .popPush (lit "k") (lit "d") true),
        (0, .push (lit "k") [[]] true)]
    let turn : Nat → Bool → ClientTurn := fun i late => { client := i, env := { now := 1 }, doing := .go late }
    (Crowd.start calls (KvStore.empty : KvStore Int)).Along calls (Crowd.KeptAfter calls KvStore.empty)
      [turn 0 false, turn 0 false, turn 0 false, turn 1 false, turn 1 false, turn 2 false, turn 2 false,
        turn 0 true, turn 0 true, turn 1 true, turn 1 true] :=
  (kept_iff_safe _ _ KvStore.timeless_empty _).mpr (by decide)

/-- BLPOP waits for the empty key; LPUSH serves it, the answer is nil and the element is gone. -/
theorem empty_key_lost :
    let calls : List (Int × BlockingCall) := [(0, .pop [[]] false true), (0, .push [] [lit "x"] true)]
    let turn : Nat → ClientTurn := fun i => { client := i, env := { now := 1 }, doing := .go false }
    ¬(Crowd.start calls (KvStore.empty : KvStore Int)).Along calls (Crowd.KeptAfter calls KvStore.empty)
      [turn 0, turn 0, turn 1, turn 1, turn 0, turn 0] := by
  intro calls turn h
  obtain ⟨_, _, _, _, _, ⟨_, hshown⟩, _⟩ := h
  have htook := hshown 0 .nil (by decide)
  revert htook
  decide

end Kv
