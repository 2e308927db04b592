import ZeroFrameworks.Core.Timer

/-!
# Timers fire when they are due

What timers are for is said by an `Agenda`: which timers are active and when each is due.  `TimerManager`
keeps to it over every sequence of calls: its set has the active timers, each once, in the order of their
deadlines, and `listExpiredCb` gives the callbacks of those that are due.

    Admissible calls → Exact calls   (timers_exact)

The timers that are taken out of the set for a moment are `pending`: `Holds s a pending` is the invariant,
and every operation takes a timer out, changes it, and puts it back (`Holds.place`) or lets it go
(`Holds.drop`).
-/

namespace Core

variable {C : Type}

/-! ## Specification -/

structure Entry (C : Type) where
  deadline : Nat
  ms : Nat
  recurring : Bool
  cb : C

/-- The active timers, and the clock reading that `listExpiredCb` last took down. -/
structure Agenda (C : Type) where
  active : Nat → Option (Entry C)
  count : Nat
  lastSeen : Nat

inductive TimerOp (C : Type) where
  | addTimer (now ms : Nat) (cb : C) (recurring : Bool) (addr : Nat)
  | cancel (id : Nat)
  | refresh (id now : Nat)
  | reset (id ms : Nat) (fromNow : Bool) (now : Nat)
  | listExpiredCb (now addr : Nat)

namespace Agenda

def new (now : Nat) : Agenda C := ⟨fun _ => none, 0, now⟩

def set (id : Nat) (e : Option (Entry C)) (a : Agenda C) : Agenda C :=
  { a with active := Function.update a.active id e }

def change (id : Nat) (f : Entry C → Entry C) (a : Agenda C) : Agenda C := a.set id ((a.active id).map f)

/-- A timer is due at its deadline, and every timer is when the clock has gone back by more than an hour. -/
def Due (now : Nat) (a : Agenda C) (id : Nat) : Prop :=
  ∃ e, a.active id = some e ∧ (now + TimerManager.hour < a.lastSeen ∨ e.deadline ≤ now)

/-- What becomes of a timer that fires. -/
def after (now : Nat) (e : Entry C) : Option (Entry C) :=
  if e.recurring then some { e with deadline := now + e.ms } else none

open Classical in
noncomputable def step (a : Agenda C) : TimerOp C → Agenda C
  | .addTimer now ms cb recurring _ => { a.set a.count (some ⟨now + ms, ms, recurring, cb⟩) with count := a.count + 1 }
  | .cancel id => a.set id none
  | .refresh id now => a.change id fun e => { e with deadline := now + e.ms }
  | .reset id ms fromNow now =>
    a.change id fun e => { e with deadline := (if fromNow then now else e.deadline - e.ms) + ms, ms := ms }
  | .listExpiredCb now _ =>
    { a with
      active := fun id => if a.Due now id then (a.active id).bind (after now) else a.active id
      lastSeen := if ∃ id, a.active id ≠ none then now else a.lastSeen }

end Agenda

namespace TimerManager

def step (s : TimerManager C) : TimerOp C → TimerManager C
  | .addTimer now ms cb recurring addr => (s.addTimer now ms cb recurring addr).2
  | .cancel id => (s.cancel id).2
  | .refresh id now => (s.refresh id now).2
  | .reset id ms fromNow now => (s.reset id ms fromNow now).2
  | .listExpiredCb now addr => (s.listExpiredCb now addr).2

/-- Clock readings are of at least an hour, deadlines are below `2 ^ 64`, and a new timer is not where one of
the set is. -/
def Admissible (s : TimerManager C) (op : TimerOp C) : Prop :=
  match op with
  | .addTimer now ms _ _ addr =>
    hour ≤ now ∧ now + ms < 2 ^ 64 ∧ ∀ id ∈ s.timers, ∀ t, s.timer id = some t → t.addr ≠ addr
  | .cancel _ => True
  | .refresh id now => hour ≤ now ∧ ∀ t, s.timer id = some t → now + t.ms < 2 ^ 64
  | .reset id ms fromNow now =>
    hour ≤ now ∧ ∀ t, s.timer id = some t → (if fromNow then now else t.next - t.ms) + ms < 2 ^ 64
  | .listExpiredCb now _ =>
    hour ≤ now ∧ now < 2 ^ 64 ∧ ∀ id ∈ s.timers, ∀ t, s.timer id = some t → now + t.ms < 2 ^ 64

instance (s : TimerManager C) : (op : TimerOp C) → Decidable (s.Admissible op)
  | .addTimer now ms _ _ addr => inferInstanceAs
    (Decidable (hour ≤ now ∧ now + ms < 2 ^ 64 ∧ ∀ id ∈ s.timers, ∀ t ∈ s.timer id, t.addr ≠ addr))
  | .cancel _ => inferInstanceAs (Decidable True)
  | .refresh id now => inferInstanceAs (Decidable (hour ≤ now ∧ ∀ t ∈ s.timer id, now + t.ms < 2 ^ 64))
  | .reset id ms fromNow now => inferInstanceAs
    (Decidable (hour ≤ now ∧ ∀ t ∈ s.timer id, (if fromNow then now else t.next - t.ms) + ms < 2 ^ 64))
  | .listExpiredCb now _ => inferInstanceAs
    (Decidable (hour ≤ now ∧ now < 2 ^ 64 ∧ ∀ id ∈ s.timers, ∀ t ∈ s.timer id, now + t.ms < 2 ^ 64))

def Along (P : TimerManager C → TimerOp C → Prop) (s : TimerManager C) : List (TimerOp C) → Prop
  | [] => True
  | op :: ops => P s op ∧ Along P (s.step op) ops

instance Along.decidable (P : TimerManager C → TimerOp C → Prop) [∀ s op, Decidable (P s op)] :
    (ops : List (TimerOp C)) → (s : TimerManager C) → Decidable (s.Along P ops)
  | [], _ => inferInstanceAs (Decidable True)
  | _ :: ops, _ => @instDecidableAnd _ _ _ (Along.decidable P ops _)

end TimerManager

/-! ## Invariant -/

def Timer.Is (t : Timer C) (e : Entry C) : Prop :=
  t.next = e.deadline ∧ t.ms = e.ms ∧ t.recurring = e.recurring ∧ t.cb = some e.cb

/-- The manager keeps to the agenda, except for the set: the timers of `pending` are not in it. -/
structure Holds (s : TimerManager C) (a : Agenda C) (pending : List Nat) : Prop where
  sorted : OrderedSet.Sorted s.key s.timers
  members : ∀ id, id ∈ s.timers ↔ a.active id ≠ none ∧ id ∉ pending
  active : ∀ id e, a.active id = some e → (∃ t, s.timer id = some t ∧ t.Is e) ∧ e.ms ≤ e.deadline ∧ e.deadline < 2 ^ 64
  ended : ∀ id t, s.timer id = some t → a.active id = none → t.cb = none
  fresh : ∀ id, s.count ≤ id → s.timer id = none
  places : ∀ id id' t t', a.active id ≠ none → a.active id' ≠ none → s.timer id = some t → s.timer id' = some t' →
    t.addr = t'.addr → id = id'
  count : s.count = a.count
  clock : s.previouseTime = a.lastSeen ∧ TimerManager.hour ≤ a.lastSeen ∧ a.lastSeen < 2 ^ 64

/-! ## Lemmas -/

variable {t : Timer C} {e : Entry C}

namespace Holds

variable {s : TimerManager C} {a : Agenda C} {id : Nat} {pending : List Nat}

theorem timer_none (h : Holds s a pending) (hid : s.timer id = none) : a.active id = none := by
  cases ha : a.active id with
  | none => rfl
  | some e =>
    obtain ⟨⟨t, ht, -⟩, -⟩ := h.active id e ha
    rw [hid] at ht
    cases ht

theorem lt_count (h : Holds s a pending) (ht : s.timer id = some t) : id < s.count := by
  by_contra hge
  rw [h.fresh id (by omega)] at ht
  cases ht

theorem key_congr {s s' : TimerManager C} {id : Nat} (h : s'.timer id = s.timer id) : s'.key id = s.key id := by
  unfold TimerManager.key
  rw [h]

theorem sorted_setTimer (h : Holds s a pending) (hid : id ∉ s.timers) :
    OrderedSet.Sorted (s.setTimer id t).key s.timers := by
  refine h.sorted.congr ?_
  intro y hy
  have hne : y ≠ id := fun heq => hid (heq ▸ hy)
  exact key_congr (Function.update_of_ne hne ..)

theorem drop (h : Holds s a (id :: pending)) (ht : s.timer id = some t) :
    Holds (s.setTimer id { t with cb := none }) (a.set id none) pending := by
  have hid : id ∉ s.timers := fun hmem => ((h.members id).mp hmem).2 List.mem_cons_self
  have hother : ∀ y, y ≠ id → (s.setTimer id { t with cb := none }).timer y = s.timer y ∧
      (a.set id none).active y = a.active y :=
    fun y hy => ⟨Function.update_of_ne hy .., Function.update_of_ne hy ..⟩
  have hgone : (a.set id none).active id = none := Function.update_self ..
  constructor
  · exact h.sorted_setTimer hid
  · intro y
    show y ∈ s.timers ↔ _
    by_cases hy : y = id
    · subst hy
      exact ⟨fun hmem => absurd hmem hid, fun hact => absurd hgone hact.1⟩
    · rw [h.members y, (hother y hy).2, List.mem_cons, not_or]
      exact ⟨fun hm => ⟨hm.1, hm.2.2⟩, fun hm => ⟨hm.1, hy, hm.2⟩⟩
  · intro y e he
    by_cases hy : y = id
    · rw [hy, hgone] at he
      cases he
    · rw [(hother y hy).2] at he
      rw [(hother y hy).1]
      exact h.active y e he
  · intro y t' ht' hnone
    by_cases hy : y = id
    · subst hy
      have ht' : Function.update s.timer y (some { t with cb := none }) y = some t' := ht'
      rw [Function.update_self] at ht'
      cases ht'
      rfl
    · rw [(hother y hy).1] at ht'
      rw [(hother y hy).2] at hnone
      exact h.ended y t' ht' hnone
  · intro y hy
    have hne : y ≠ id := by
      rintro rfl
      rw [h.fresh y hy] at ht
      cases ht
    rw [(hother y hne).1]
    exact h.fresh y hy
  · intro y z ty tz hy hz hty htz haddr
    have hyid : y ≠ id := fun heq => hy (heq ▸ hgone)
    have hzid : z ≠ id := fun heq => hz (heq ▸ hgone)
    rw [(hother y hyid).1] at hty
    rw [(hother z hzid).1] at htz
    rw [(hother y hyid).2] at hy
    rw [(hother z hzid).2] at hz
    exact h.places y z ty tz hy hz hty htz haddr
  · exact h.count
  · exact h.clock

theorem place (h : Holds s a (id :: pending)) (hp : id ∉ pending) (hcount : id < s.count)
    (hte : t.Is e) (hms : e.ms ≤ e.deadline) (hlt : e.deadline < 2 ^ 64)
    (haddr : ∀ y ty, a.active y ≠ none → y ≠ id → s.timer y = some ty → ty.addr ≠ t.addr) :
    Holds ((s.setTimer id t).insertTimer id) (a.set id (some e)) pending := by
  have hid : id ∉ s.timers := fun hmem => ((h.members id).mp hmem).2 List.mem_cons_self
  have hsorted := h.sorted_setTimer (t := t) hid
  have hself : (s.setTimer id t).timer id = some t := Function.update_self ..
  have hset : (a.set id (some e)).active id = some e := Function.update_self ..
  have hother : ∀ y, y ≠ id → (s.setTimer id t).timer y = s.timer y ∧ (a.set id (some e)).active y = a.active y :=
    fun y hy => ⟨Function.update_of_ne hy .., Function.update_of_ne hy ..⟩
  have hfree : OrderedSet.Free (s.setTimer id t).key id s.timers := by
    intro y hy heq
    have hne : y ≠ id := fun hyid => hid (hyid ▸ hy)
    obtain ⟨hact, -⟩ := (h.members y).mp hy
    obtain ⟨ey, hey⟩ := Option.ne_none_iff_exists'.mp hact
    obtain ⟨⟨ty, hty, -⟩, -⟩ := h.active y ey hey
    unfold TimerManager.key at heq
    rw [(hother y hne).1, hty, hself] at heq
    have hpair := congrArg (fun k => (ofLex k).2) heq
    exact haddr y ty hact hne hty hpair
  constructor
  · exact hsorted.insert hfree
  · intro y
    show y ∈ OrderedSet.insert (s.setTimer id t).key id s.timers ↔ _
    rw [hsorted.mem_insert hfree]
    by_cases hy : y = id
    · subst hy
      exact ⟨fun _ => ⟨(by rw [hset]; exact (fun h => nomatch h)), hp⟩, fun _ => Or.inl rfl⟩
    · rw [h.members y, (hother y hy).2, List.mem_cons, not_or]
      constructor
      · rintro (heq | hm)
        · exact absurd heq hy
        · exact ⟨hm.1, hm.2.2⟩
      · intro hm
        exact Or.inr ⟨hm.1, hy, hm.2⟩
  · intro y e' he'
    show (∃ t', (s.setTimer id t).timer y = some t' ∧ _) ∧ _
    by_cases hy : y = id
    · rw [hy, hset] at he'
      cases he'
      rw [hy]
      exact ⟨⟨t, hself, hte⟩, hms, hlt⟩
    · rw [(hother y hy).2] at he'
      rw [(hother y hy).1]
      exact h.active y e' he'
  · intro y t' ht' hnone
    by_cases hy : y = id
    · rw [hy, hset] at hnone
      cases hnone
    · have ht' : (s.setTimer id t).timer y = some t' := ht'
      rw [(hother y hy).1] at ht'
      rw [(hother y hy).2] at hnone
      exact h.ended y t' ht' hnone
  · intro y hy
    have hy : s.count ≤ y := hy
    have hne : y ≠ id := by omega
    show (s.setTimer id t).timer y = none
    rw [(hother y hne).1]
    exact h.fresh y hy
  · intro y z ty tz hy hz hty htz heq
    have hty : (s.setTimer id t).timer y = some ty := hty
    have htz : (s.setTimer id t).timer z = some tz := htz
    by_cases hyid : y = id
    · by_cases hzid : z = id
      · rw [hyid, hzid]
      · rw [(hother z hzid).1] at htz
        rw [(hother z hzid).2] at hz
        rw [hyid, hself] at hty
        cases hty
        exact absurd heq.symm (haddr z tz hz hzid htz)
    · rw [(hother y hyid).1] at hty
      rw [(hother y hyid).2] at hy
      by_cases hzid : z = id
      · rw [hzid, hself] at htz
        cases htz
        exact absurd heq (haddr y ty hy hyid hty)
      · rw [(hother z hzid).1] at htz
        rw [(hother z hzid).2] at hz
        exact h.places y z ty tz hy hz hty htz heq
  · exact h.count
  · exact h.clock

theorem take (h : Holds s a pending) (hid : id ∈ s.timers) : Holds (s.eraseTimer id) a (id :: pending) where
  sorted := h.sorted.erase hid
  members y := by
    show y ∈ OrderedSet.erase s.key id s.timers ↔ _
    rw [h.sorted.mem_erase hid, h.members y, List.mem_cons, not_or]
    exact ⟨fun hm => ⟨hm.2.1, hm.1, hm.2.2⟩, fun hm => ⟨hm.2.1, hm.1, hm.2.2⟩⟩
  active := h.active
  ended := h.ended
  fresh := h.fresh
  places := h.places
  count := h.count
  clock := h.clock

theorem tickle (h : Holds s a pending) (b : Bool) : Holds { s with tickled := b } a pending :=
  ⟨h.sorted, h.members, h.active, h.ended, h.fresh, h.places, h.count, h.clock⟩

theorem mem_iff (h : Holds s a []) (id : Nat) : id ∈ s.timers ↔ a.active id ≠ none := by
  rw [h.members id]
  exact and_iff_left List.not_mem_nil

theorem addTimer (h : Holds s a []) {now ms : Nat} {cb : C} {recurring : Bool} {addr : Nat}
    (hadm : s.Admissible (.addTimer now ms cb recurring addr)) :
    Holds (s.addTimer now ms cb recurring addr).2 (a.step (.addTimer now ms cb recurring addr)) [] := by
  obtain ⟨-, hlt, haddr⟩ := hadm
  have hnone : a.active s.count = none := h.timer_none (h.fresh s.count (Nat.le_refl _))
  -- The timer with the next number is not active yet, so it counts as pending.
  have hready : Holds { s with count := s.count + 1 } { a with count := a.count + 1 } [s.count] := by
    refine ⟨h.sorted, ?_, h.active, h.ended, ?_, h.places, congrArg (· + 1) h.count, h.clock⟩
    · intro y
      show y ∈ s.timers ↔ a.active y ≠ none ∧ _
      rw [h.mem_iff y, List.mem_singleton]
      constructor
      · intro hact
        exact ⟨hact, fun heq => hact (heq ▸ hnone)⟩
      · exact fun hm => hm.1
    · intro y hy
      have hy : s.count + 1 ≤ y := hy
      exact h.fresh y (by omega)
  have hplaced := hready.place (t := ⟨recurring, ms, (now + ms) % 2 ^ 64, some cb, addr⟩)
    (e := ⟨now + ms, ms, recurring, cb⟩) List.not_mem_nil (Nat.lt_succ_self _)
    ⟨Nat.mod_eq_of_lt hlt, rfl, rfl, rfl⟩ (Nat.le_add_left _ _) hlt (by
      intro y ty hact _ hty
      exact haddr y ((h.mem_iff y).mpr hact) ty hty)
  have hagenda : a.step (.addTimer now ms cb recurring addr) =
      Agenda.set s.count (some ⟨now + ms, ms, recurring, cb⟩) { a with count := a.count + 1 } := by
    rw [h.count]
    rfl
  rw [hagenda]
  exact hplaced.tickle _

theorem entry_of_cb (h : Holds s a pending) (ht : s.timer id = some t) (hcb : t.cb.isSome = true) :
    ∃ e, a.active id = some e ∧ t.Is e := by
  cases ha : a.active id with
  | none =>
    rw [h.ended id t ht ha] at hcb
    cases hcb
  | some e =>
    obtain ⟨⟨t', ht', hte⟩, -⟩ := h.active id e ha
    rw [ht] at ht'
    cases ht'
    exact ⟨e, rfl, hte⟩

theorem inactive_of_cb (h : Holds s a pending) (ht : s.timer id = some t) (hcb : ¬ t.cb.isSome = true) :
    a.active id = none := by
  cases ha : a.active id with
  | none => rfl
  | some e =>
    obtain ⟨⟨t', ht', -, -, -, hcb'⟩, -⟩ := h.active id e ha
    rw [ht] at ht'
    cases ht'
    rw [hcb'] at hcb
    exact absurd rfl hcb

theorem set_none_of_inactive (hnone : a.active id = none) : a.set id none = a := by
  unfold Agenda.set
  rw [← hnone, Function.update_eq_self]

theorem change_of_inactive (hnone : a.active id = none) (f : Entry C → Entry C) : a.change id f = a := by
  unfold Agenda.change
  rw [hnone]
  exact set_none_of_inactive hnone

theorem cancel (h : Holds s a []) (id : Nat) : Holds (s.cancel id).2 (a.step (.cancel id)) [] := by
  show Holds (s.cancel id).2 (a.set id none) []
  unfold TimerManager.cancel
  split
  · next t ht =>
    split
    · next hcb =>
      obtain ⟨e, he, -⟩ := h.entry_of_cb ht hcb
      have hmem : id ∈ s.timers := (h.mem_iff id).mpr (by rw [he]; exact (fun h => nomatch h))
      -- The callback is not part of the key, so the timer is found after it has lost its callback.
      have hkey : (s.setTimer id { t with cb := none }).key = s.key := by
        funext y
        by_cases hy : y = id
        · subst hy
          simp [TimerManager.key, TimerManager.setTimer, ht]
        · exact key_congr (Function.update_of_ne hy ..)
      have hsame : (s.setTimer id { t with cb := none }).eraseTimer id =
          (s.eraseTimer id).setTimer id { t with cb := none } := by
        unfold TimerManager.eraseTimer
        rw [hkey]
        rfl
      rw [hsame]
      exact (h.take hmem).drop ht
    · next hcb =>
      rw [set_none_of_inactive (h.inactive_of_cb ht hcb)]
      exact h
  · next hnone =>
    rw [set_none_of_inactive (h.timer_none hnone)]
    exact h

theorem moved (h : Holds s a []) {t t' : Timer C} {e e' : Entry C} (ht : s.timer id = some t) (he : a.active id = some e)
    (hte : t'.Is e') (haddr : t'.addr = t.addr) (hms : e'.ms ≤ e'.deadline) (hlt : e'.deadline < 2 ^ 64) :
    Holds (((s.eraseTimer id).setTimer id t').insertTimer id) (a.set id (some e')) [] := by
  have hact : a.active id ≠ none := by
    rw [he]
    exact fun h => nomatch h
  have hcount : id < s.count := h.lt_count ht
  refine (h.take ((h.mem_iff id).mpr hact)).place List.not_mem_nil hcount hte hms hlt ?_
  intro y ty hy hne hty heq
  rw [haddr] at heq
  exact hne (h.places y id ty t hy hact hty ht heq)

theorem refresh (h : Holds s a []) {now : Nat} (hadm : s.Admissible (.refresh id now)) :
    Holds (s.refresh id now).2 (a.step (.refresh id now)) [] := by
  show Holds (s.refresh id now).2 (a.change id fun e => { e with deadline := now + e.ms }) []
  unfold TimerManager.refresh
  split
  · next t ht =>
    split
    · next hcb =>
      rw [change_of_inactive (h.inactive_of_cb ht (by simpa using hcb))]
      exact h
    · next hcb =>
      obtain ⟨e, he, hnext, hms, hrec, hcb'⟩ := h.entry_of_cb ht (by simpa [Option.isSome_iff_ne_none] using hcb)
      have hmem : id ∈ s.timers := (h.mem_iff id).mpr (by rw [he]; exact (fun h => nomatch h))
      have hlt := hadm.2 t ht
      rw [if_pos (h.sorted.contains_of_mem hmem)]
      have hchange : (a.change id fun e => { e with deadline := now + e.ms }) =
          a.set id (some { e with deadline := now + e.ms }) := by
        unfold Agenda.change
        rw [he]
        rfl
      rw [hchange]
      rw [hms] at hlt
      refine h.moved ht he ⟨?_, hms, hrec, hcb'⟩ rfl (Nat.le_add_left _ _) hlt
      show (now + t.ms) % 2 ^ 64 = now + e.ms
      rw [hms, Nat.mod_eq_of_lt hlt]
  · next hnone =>
    rw [change_of_inactive (h.timer_none hnone)]
    exact h

theorem reset (h : Holds s a []) {ms : Nat} {fromNow : Bool} {now : Nat}
    (hadm : s.Admissible (.reset id ms fromNow now)) :
    Holds (s.reset id ms fromNow now).2 (a.step (.reset id ms fromNow now)) [] := by
  show Holds (s.reset id ms fromNow now).2 (a.change id fun e =>
    { e with deadline := (if fromNow then now else e.deadline - e.ms) + ms, ms := ms }) []
  unfold TimerManager.reset
  split
  · next t ht =>
    split
    · next hsame =>
      -- The same period from the same start: nothing to do.
      obtain ⟨rfl, rfl⟩ := hsame
      have hchange : (a.change id fun e =>
          { e with deadline := (if false = true then now else e.deadline - e.ms) + t.ms, ms := t.ms }) = a := by
        cases ha : a.active id with
        | none => exact change_of_inactive ha _
        | some e =>
          obtain ⟨⟨t', ht', -, hms, -⟩, hle, -⟩ := h.active id e ha
          rw [ht] at ht'
          cases ht'
          unfold Agenda.change Agenda.set
          rw [ha]
          have hentry : (some { e with deadline := (if false = true then now else e.deadline - e.ms) + t.ms, ms := t.ms } :
              Option (Entry C)) = a.active id := by
            rw [ha, hms]
            simp only [Bool.false_eq_true, if_false, Nat.sub_add_cancel hle]
          rw [Option.map_some, hentry, Function.update_eq_self]
      rw [hchange]
      exact h
    · split
      · next hcb =>
        rw [change_of_inactive (h.inactive_of_cb ht (by simpa using hcb))]
        exact h
      · next hcb =>
        obtain ⟨e, he, hnext, hms, hrec, hcb'⟩ := h.entry_of_cb ht (by simpa [Option.isSome_iff_ne_none] using hcb)
        have hmem : id ∈ s.timers := (h.mem_iff id).mpr (by rw [he]; exact (fun h => nomatch h))
        obtain ⟨-, hle, hbound⟩ := h.active id e he
        have hlt := hadm.2 t ht
        rw [if_pos (h.sorted.contains_of_mem hmem)]
        have hchange : (a.change id fun e =>
            { e with deadline := (if fromNow then now else e.deadline - e.ms) + ms, ms := ms }) =
            a.set id (some { e with deadline := (if fromNow then now else e.deadline - e.ms) + ms, ms := ms }) := by
          unfold Agenda.change
          rw [he]
          rfl
        have hstart : (if fromNow then now else (t.next + (2 ^ 64 - t.ms)) % 2 ^ 64) =
            if fromNow then now else e.deadline - e.ms := by
          cases fromNow with
          | true => rfl
          | false =>
            simp only [Bool.false_eq_true, if_false]
            rw [hnext, hms]
            omega
        rw [hnext, hms] at hlt
        rw [hchange]
        simp only
        rw [hstart]
        have hte : Timer.Is { t with
              ms := ms
              next := ((if fromNow then now else e.deadline - e.ms) + ms) % 2 ^ 64 }
            { e with deadline := (if fromNow then now else e.deadline - e.ms) + ms, ms := ms } :=
          ⟨Nat.mod_eq_of_lt hlt, rfl, hrec, hcb'⟩
        exact (h.moved ht he hte rfl (Nat.le_add_left _ _) hlt).tickle _
  · next hnone =>
    rw [change_of_inactive (h.timer_none hnone)]
    exact h

/-! ### Expiry -/

theorem nextOf_eq (h : Holds s a pending) (he : a.active id = some e) : s.nextOf id = e.deadline := by
  obtain ⟨⟨t, ht, hte⟩, -⟩ := h.active id e he
  unfold TimerManager.nextOf
  rw [ht]
  exact hte.1

theorem detectClockRollover_eq (h : Holds s a pending) (now : Nat) :
    s.detectClockRollover now = decide (now + TimerManager.hour < a.lastSeen) := by
  obtain ⟨hprev, hlo, hhi⟩ := h.clock
  unfold TimerManager.detectClockRollover TimerManager.hour at *
  rw [hprev, ← Bool.decide_and, decide_eq_decide]
  omega

end Holds

section expired

variable {s : TimerManager C} {now : Nat}

theorem key_eq (s : TimerManager C) {id : Nat} (ht : s.timer id = some t) :
    s.key id = toLex (s.nextOf id, t.addr) := by
  unfold TimerManager.key TimerManager.nextOf
  rw [ht]
  rfl

/-- The search for a timer of its own and the loop over those that are due now find the first timer that is
due later. -/
theorem remaining_spec (addr : Nat) (hs : OrderedSet.Sorted s.key s.timers) (hlive : ∀ id ∈ s.timers, ∃ t, s.timer id = some t)
    (hroll : s.detectClockRollover now = false) :
    ∃ front, s.timers = front ++ s.remaining now addr ∧ (∀ id ∈ front, s.nextOf id ≤ now) ∧
      ∀ id ∈ s.remaining now addr, now < s.nextOf id := by
  have hremaining : s.remaining now addr =
      (OrderedSet.lowerBound s.key (toLex (now, addr)) s.timers).dropWhile fun id => decide (s.nextOf id = now) := by
    unfold TimerManager.remaining
    rw [hroll]
    rfl
  have hsplit := OrderedSet.before_append_lowerBound s.key (toLex (now, addr)) s.timers
  have hlater : ∀ id ∈ OrderedSet.lowerBound s.key (toLex (now, addr)) s.timers, now ≤ s.nextOf id := by
    intro id hid
    have hle := hs.le_of_mem_lowerBound hid
    obtain ⟨t, ht⟩ := hlive id ((List.dropWhile_sublist _).subset hid)
    rw [key_eq s ht, Prod.Lex.toLex_le_toLex] at hle
    obtain hlt | ⟨heq, -⟩ := hle
    · exact Nat.le_of_lt hlt
    · exact Nat.le_of_eq heq
  have hsorted : (OrderedSet.lowerBound s.key (toLex (now, addr)) s.timers).Pairwise
      fun x y => s.nextOf x ≤ s.nextOf y := by
    refine List.Pairwise.imp_of_mem ?_ (List.Pairwise.sublist (List.dropWhile_sublist _) hs)
    intro x y hx hy hxy
    obtain ⟨tx, htx⟩ := hlive x ((List.dropWhile_sublist _).subset hx)
    obtain ⟨ty, hty⟩ := hlive y ((List.dropWhile_sublist _).subset hy)
    rw [key_eq s htx, key_eq s hty, Prod.Lex.toLex_lt_toLex] at hxy
    obtain hlt | ⟨heq, -⟩ := hxy
    · exact Nat.le_of_lt hlt
    · exact Nat.le_of_eq heq
  rw [hremaining]
  generalize OrderedSet.lowerBound s.key (toLex (now, addr)) s.timers = later at *
  refine ⟨OrderedSet.before s.key (toLex (now, addr)) s.timers ++ later.takeWhile fun id => decide (s.nextOf id = now),
    ?_, ?_, ?_⟩
  · rw [List.append_assoc, List.takeWhile_append_dropWhile, hsplit]
  · intro id hid
    obtain hid | hid := List.mem_append.mp hid
    · have hlt := OrderedSet.lt_of_mem_before hid
      obtain ⟨t, ht⟩ := hlive id ((List.takeWhile_sublist _).subset hid)
      rw [key_eq s ht, Prod.Lex.toLex_lt_toLex] at hlt
      obtain hlt | ⟨heq, -⟩ := hlt
      · exact Nat.le_of_lt hlt
      · exact Nat.le_of_eq heq
    · have heq := List.mem_takeWhile_imp (p := fun id => decide (s.nextOf id = now)) hid
      exact Nat.le_of_eq (of_decide_eq_true heq)
  · intro id hid
    have hsub := List.dropWhile_sublist (p := fun id => decide (s.nextOf id = now)) (l := later)
    have hpairs := List.Pairwise.sublist hsub hsorted
    have hhead := List.head?_dropWhile_not (fun id => decide (s.nextOf id = now)) later
    cases hd : later.dropWhile fun id => decide (s.nextOf id = now) with
    | nil =>
      rw [hd] at hid
      cases hid
    | cons first rest =>
      rw [hd] at hid hpairs hhead
      have hfirst : now ≤ s.nextOf first := hlater first (hsub.subset (by rw [hd]; exact List.mem_cons_self))
      have hne : s.nextOf first ≠ now := by simpa using hhead
      obtain rfl | hid := List.mem_cons.mp hid
      · omega
      · have hle := (List.pairwise_cons.mp hpairs).1 id hid
        omega

/-- `listExpiredCb` takes the first timers of the set, fires them and notes the time. -/
theorem listExpiredCb_eq (now addr : Nat) (hs : OrderedSet.Sorted s.key s.timers) (hlive : ∀ id ∈ s.timers, ∃ t, s.timer id = some t)
    (hne : s.timers ≠ []) :
    ∃ rest, s.timers = s.expired now addr ++ rest ∧
      (∀ id ∈ s.timers, id ∈ s.expired now addr ↔ s.detectClockRollover now = true ∨ s.nextOf id ≤ now) ∧
      s.listExpiredCb now addr = ((s.expired now addr).map fun id => (s.timer id).bind Timer.cb,
        (s.expired now addr).foldl (TimerManager.fire now) { s with previouseTime := now, timers := rest }) := by
  obtain ⟨first, others, hcons⟩ := List.exists_cons_of_ne_nil hne
  by_cases hearly : (!s.detectClockRollover now && decide (now < s.nextOf first)) = true
  · have hexpired : s.expired now addr = [] := by
      unfold TimerManager.expired
      rw [hcons]
      simp only [hearly, if_true]
    simp only [Bool.and_eq_true, Bool.not_eq_true', decide_eq_true_eq] at hearly
    obtain ⟨hroll, hlt⟩ := hearly
    refine ⟨s.timers, by rw [hexpired, List.nil_append], ?_, ?_⟩
    · intro id hid
      rw [hexpired]
      refine ⟨fun h => absurd h List.not_mem_nil, ?_⟩
      -- The first timer is due later, so all are.
      obtain ⟨front, hfront, hdue, hlater⟩ := remaining_spec addr hs hlive hroll
      have hempty : front = [] := by
        cases front with
        | nil => rfl
        | cons x xs =>
          rw [hcons] at hfront
          have hx : first = x := (List.cons.inj hfront).1
          have := hdue x List.mem_cons_self
          rw [← hx] at this
          omega
      rw [hempty, List.nil_append] at hfront
      rintro (hr | hle)
      · rw [hroll] at hr
        cases hr
      · have := hlater id (hfront ▸ hid)
        omega
    · unfold TimerManager.listExpiredCb
      rw [hexpired, hcons]
      simp only [hroll, hlt, Bool.not_false, Bool.true_and, decide_true, if_true]
      rfl
  · have hexpired : s.expired now addr = s.timers.take (s.timers.length - (s.remaining now addr).length) := by
      unfold TimerManager.expired
      rw [hcons]
      simp only [hearly, Bool.false_eq_true, if_false]
    have hlist : s.listExpiredCb now addr = ((s.expired now addr).map fun id => (s.timer id).bind Timer.cb,
        (s.expired now addr).foldl (TimerManager.fire now)
          { s with previouseTime := now, timers := s.remaining now addr }) := by
      unfold TimerManager.listExpiredCb
      rw [hcons]
      simp only [hearly, Bool.false_eq_true, if_false]
    have hfront : ∃ front, s.timers = front ++ s.remaining now addr ∧
        ∀ id ∈ s.timers, id ∈ front ↔ s.detectClockRollover now = true ∨ s.nextOf id ≤ now := by
      cases hroll : s.detectClockRollover now with
      | true =>
        have hnone : s.remaining now addr = [] := by
          unfold TimerManager.remaining
          rw [hroll]
          rfl
        refine ⟨s.timers, by rw [hnone, List.append_nil], ?_⟩
        intro id hid
        exact ⟨fun _ => Or.inl rfl, fun _ => hid⟩
      | false =>
        obtain ⟨front, hfront, hdue, hlater⟩ := remaining_spec addr hs hlive hroll
        refine ⟨front, hfront, ?_⟩
        intro id hid
        refine ⟨fun h => Or.inr (hdue id h), ?_⟩
        rintro (h | hle)
        · cases h
        · rw [hfront] at hid
          obtain hid | hid := List.mem_append.mp hid
          · exact hid
          · have := hlater id hid
            omega
    obtain ⟨front, hsplit, hmem⟩ := hfront
    have htake : s.expired now addr = front := by
      rw [hexpired]
      have hlen : s.timers.length - (s.remaining now addr).length = front.length := by
        rw [hsplit, List.length_append]
        omega
      rw [hlen, hsplit, List.take_left]
    rw [← htake] at hsplit hmem
    exact ⟨s.remaining now addr, hsplit, hmem, hlist⟩

end expired

/-- A timer of the agenda fires. -/
def Agenda.fire (now : Nat) (a : Agenda C) (id : Nat) : Agenda C := a.set id ((a.active id).bind (Agenda.after now))

theorem Agenda.foldl_fire (now : Nat) {ids : List Nat} (hnodup : ids.Nodup) (a : Agenda C) :
    ids.foldl (Agenda.fire now) a =
      ⟨fun id => if id ∈ ids then (a.active id).bind (Agenda.after now) else a.active id, a.count, a.lastSeen⟩ := by
  induction ids generalizing a with
  | nil => simp
  | cons first ids ih =>
    obtain ⟨hnotin, hnodup⟩ := List.nodup_cons.mp hnodup
    rw [List.foldl_cons, ih hnodup]
    unfold Agenda.fire Agenda.set
    congr 1
    funext id
    simp only
    by_cases hid : id = first
    · subst hid
      rw [if_neg hnotin, Function.update_self, if_pos List.mem_cons_self]
    · rw [Function.update_of_ne hid]
      simp [hid]

namespace Holds

variable {s : TimerManager C} {a : Agenda C} {id : Nat} {pending : List Nat}

theorem fire (h : Holds s a (id :: pending)) (hp : id ∉ pending) (he : a.active id = some e) {now : Nat}
    (hlt : now + e.ms < 2 ^ 64) : Holds (s.fire now id) (a.fire now id) pending := by
  obtain ⟨⟨t, ht, hnext, hms, hrec, hcb⟩, -⟩ := h.active id e he
  have hact : a.active id ≠ none := by
    rw [he]
    exact fun h => nomatch h
  have hcount : id < s.count := h.lt_count ht
  unfold TimerManager.fire Agenda.fire Agenda.after
  rw [ht, he]
  simp only [Option.bind_some]
  by_cases hr : e.recurring = true
  · rw [if_pos (hrec.trans hr), if_pos hr]
    refine h.place hp hcount ⟨?_, hms, hrec, hcb⟩ (Nat.le_add_left _ _) hlt ?_
    · show (now + t.ms) % 2 ^ 64 = now + e.ms
      rw [hms, Nat.mod_eq_of_lt hlt]
    · intro y ty hy hne hty heq
      exact hne (h.places y id ty t hy hact hty ht heq)
  · rw [if_neg (hrec ▸ hr), if_neg hr]
    exact h.drop ht

theorem foldl_fire {now : Nat} {ids : List Nat} (hnodup : ids.Nodup) (h : Holds s a ids)
    (hids : ∀ id ∈ ids, ∃ e, a.active id = some e ∧ now + e.ms < 2 ^ 64) :
    Holds (ids.foldl (TimerManager.fire now) s) (ids.foldl (Agenda.fire now) a) [] := by
  induction ids generalizing s a with
  | nil => exact h
  | cons first ids ih =>
    obtain ⟨hnotin, hnodup⟩ := List.nodup_cons.mp hnodup
    obtain ⟨e, he, hlt⟩ := hids first List.mem_cons_self
    refine ih hnodup (h.fire hnotin he hlt) ?_
    intro id hid
    have hne : id ≠ first := fun heq => hnotin (heq ▸ hid)
    obtain ⟨e', he', hlt'⟩ := hids id (List.mem_cons_of_mem _ hid)
    refine ⟨e', ?_, hlt'⟩
    show Function.update a.active first _ id = some e'
    rw [Function.update_of_ne hne]
    exact he'

theorem live (h : Holds s a []) : ∀ id ∈ s.timers, ∃ t, s.timer id = some t := by
  intro id hid
  obtain ⟨e, he⟩ := Option.ne_none_iff_exists'.mp ((h.mem_iff id).mp hid)
  obtain ⟨⟨t, ht, -⟩, -⟩ := h.active id e he
  exact ⟨t, ht⟩

theorem mem_expired (h : Holds s a []) (now addr id : Nat) : id ∈ s.expired now addr ↔ a.Due now id := by
  by_cases hne : s.timers = []
  · have hexpired : s.expired now addr = [] := by
      unfold TimerManager.expired
      rw [hne]
    rw [hexpired]
    refine ⟨fun hm => absurd hm List.not_mem_nil, ?_⟩
    rintro ⟨e, he, -⟩
    have hmem := (h.mem_iff id).mpr (by rw [he]; exact (fun h => nomatch h))
    rw [hne] at hmem
    exact hmem
  · obtain ⟨rest, hsplit, hmem, -⟩ := listExpiredCb_eq now addr h.sorted h.live hne
    rw [h.detectClockRollover_eq] at hmem
    constructor
    · intro hid
      have hin : id ∈ s.timers := by
        rw [hsplit]
        exact List.mem_append_left _ hid
      obtain ⟨e, he⟩ := Option.ne_none_iff_exists'.mp ((h.mem_iff id).mp hin)
      have hdue := (hmem id hin).mp hid
      rw [h.nextOf_eq he, decide_eq_true_eq] at hdue
      exact ⟨e, he, hdue⟩
    · rintro ⟨e, he, hdue⟩
      have hin : id ∈ s.timers := (h.mem_iff id).mpr (by rw [he]; exact (fun h => nomatch h))
      refine (hmem id hin).mpr ?_
      rw [h.nextOf_eq he, decide_eq_true_eq]
      exact hdue

theorem expired_sublist (h : Holds s a []) (now addr : Nat) : (s.expired now addr).Sublist s.timers := by
  by_cases hne : s.timers = []
  · unfold TimerManager.expired
    rw [hne]
  · obtain ⟨rest, hsplit, -⟩ := listExpiredCb_eq now addr h.sorted h.live hne
    rw [hsplit]
    exact List.sublist_append_left _ _

theorem listExpiredCb (h : Holds s a []) {now addr : Nat} (hadm : s.Admissible (.listExpiredCb now addr)) :
    Holds (s.listExpiredCb now addr).2 (a.step (.listExpiredCb now addr)) [] := by
  obtain ⟨hhour, hnow, hlt⟩ := hadm
  have hnodup : (s.expired now addr).Nodup := (h.expired_sublist now addr).nodup h.sorted.nodup
  have hdue : ∀ id, id ∈ s.expired now addr ↔ a.Due now id := h.mem_expired now addr
  by_cases hne : s.timers = []
  · have hnone : ∀ id, a.active id = none := by
      intro id
      by_contra hact
      have hmem := (h.mem_iff id).mpr hact
      rw [hne] at hmem
      exact List.not_mem_nil hmem
    have hsame : (s.listExpiredCb now addr).2 = s := by
      unfold TimerManager.listExpiredCb
      rw [hne]
    have hagenda : a.step (.listExpiredCb now addr) = a := by
      have hno : ¬ ∃ id, a.active id ≠ none := fun ⟨id, hid⟩ => hid (hnone id)
      simp only [Agenda.step, if_neg hno, hnone, Option.bind_none, ite_self]
      have hactive : a.active = fun _ => none := funext hnone
      rw [← hactive]
    rw [hsame, hagenda]
    exact h
  · obtain ⟨rest, hsplit, -, heq⟩ := listExpiredCb_eq now addr h.sorted h.live hne
    rw [heq]
    have hsome : ∃ id, a.active id ≠ none := by
      obtain ⟨first, hfirst⟩ := List.exists_mem_of_ne_nil _ hne
      exact ⟨first, (h.mem_iff first).mp hfirst⟩
    have hagenda : a.step (.listExpiredCb now addr) =
        (s.expired now addr).foldl (Agenda.fire now) { a with lastSeen := now } := by
      rw [Agenda.foldl_fire now hnodup]
      unfold Agenda.step
      simp only [if_pos hsome]
      congr 1
      funext id
      by_cases hid : a.Due now id
      · rw [if_pos hid, if_pos ((hdue id).mpr hid)]
      · rw [if_neg hid, if_neg fun hmem => hid ((hdue id).mp hmem)]
    rw [hagenda]
    refine foldl_fire hnodup ?_ ?_
    · -- The expired timers are out of the set and the rest is in order.
      refine ⟨?_, ?_, h.active, h.ended, h.fresh, h.places, h.count, rfl, hhour, hnow⟩
      · have hsub : rest.Sublist s.timers := by
          rw [hsplit]
          exact List.sublist_append_right _ _
        exact List.Pairwise.sublist hsub h.sorted
      · intro id
        show id ∈ rest ↔ a.active id ≠ none ∧ id ∉ s.expired now addr
        rw [← h.mem_iff id]
        have hall := h.sorted.nodup
        rw [hsplit] at hall
        constructor
        · intro hid
          refine ⟨by rw [hsplit]; exact List.mem_append_right _ hid, ?_⟩
          intro hexp
          exact (List.nodup_append.mp hall).2.2 id hexp id hid rfl
        · rintro ⟨hid, hnot⟩
          rw [hsplit] at hid
          exact (List.mem_append.mp hid).resolve_left hnot
    · intro id hid
      obtain ⟨e, he, -⟩ := (hdue id).mp hid
      obtain ⟨⟨t, ht, hte⟩, -⟩ := h.active id e he
      have hin := (h.expired_sublist now addr).subset hid
      have hbound := hlt id hin t ht
      rw [hte.2.1] at hbound
      exact ⟨e, he, hbound⟩

theorem step (h : Holds s a []) {op : TimerOp C} (hadm : s.Admissible op) : Holds (s.step op) (a.step op) [] := by
  cases op with
  | addTimer now ms cb recurring addr => exact h.addTimer hadm
  | cancel id => exact h.cancel id
  | refresh id now => exact h.refresh hadm
  | reset id ms fromNow now => exact h.reset hadm
  | listExpiredCb now addr => exact h.listExpiredCb hadm

end Holds

/-! ## Runs -/

section runs

variable (start : Nat) (ops : List (TimerOp C))

/-- The manager after the first `n` calls. -/
def managerAt (n : Nat) : TimerManager C := (ops.take n).foldl TimerManager.step (TimerManager.new start)

/-- The agenda after the first `n` calls. -/
noncomputable def agendaAt (n : Nat) : Agenda C := (ops.take n).foldl Agenda.step (Agenda.new start)

/-- Call `n` makes timer `id` fire. -/
def Fires (n id : Nat) : Prop :=
  ∃ now addr, ops[n]? = some (.listExpiredCb now addr) ∧ id ∈ (managerAt start ops n).expired now addr

/-- The set has the active timers, each once, in the order of their deadlines. -/
structure InSet (s : TimerManager C) (a : Agenda C) : Prop where
  once : s.timers.Nodup
  members : ∀ id, id ∈ s.timers ↔ a.active id ≠ none
  inOrder : s.timers.Pairwise fun x y => ∀ ex ey, a.active x = some ex → a.active y = some ey →
    ex.deadline ≤ ey.deadline

/-- What `listExpiredCb` gives at `now`, and the agenda `a'` after it. -/
structure FiresDue (now addr : Nat) (s : TimerManager C) (a a' : Agenda C) : Prop where
  once : (s.expired now addr).Nodup
  due : ∀ id, id ∈ s.expired now addr ↔ a.Due now id
  inOrder : (s.expired now addr).Pairwise fun x y => ∀ ex ey, a.active x = some ex → a.active y = some ey →
    ex.deadline ≤ ey.deadline
  callbacks : (s.listExpiredCb now addr).1 = (s.expired now addr).map fun id => (a.active id).map Entry.cb
  again : ∀ id e, a.Due now id → a.active id = some e →
    a'.active id = if e.recurring then some { e with deadline := now + e.ms } else none

structure Exact : Prop where
  set : ∀ n, InSet (managerAt start ops n) (agendaAt start ops n)
  expired : ∀ n now addr, ops[n]? = some (.listExpiredCb now addr) →
    FiresDue now addr (managerAt start ops n) (agendaAt start ops n) (agendaAt start ops (n + 1))
  oneShot : ∀ m n id e, Fires start ops m id → (agendaAt start ops m).active id = some e → e.recurring = false →
    m < n → ¬ Fires start ops n id
  cancelled : ∀ m n id, ops[m]? = some (.cancel id) → ((managerAt start ops m).cancel id).1 = true → m ≤ n →
    ¬ Fires start ops n id

end runs

namespace Holds

variable {s : TimerManager C} {a : Agenda C}

theorem inSet (h : Holds s a []) : InSet s a where
  once := h.sorted.nodup
  members := h.mem_iff
  inOrder := by
    refine List.Pairwise.imp_of_mem ?_ h.sorted
    intro x y hx hy hxy ex ey hex hey
    obtain ⟨tx, htx⟩ := h.live x hx
    obtain ⟨ty, hty⟩ := h.live y hy
    rw [key_eq s htx, key_eq s hty, h.nextOf_eq hex, h.nextOf_eq hey, Prod.Lex.toLex_lt_toLex] at hxy
    obtain hlt | ⟨heq, -⟩ := hxy
    · exact Nat.le_of_lt hlt
    · exact Nat.le_of_eq heq

theorem firesDue (h : Holds s a []) (now addr : Nat) :
    FiresDue now addr s a (a.step (.listExpiredCb now addr)) where
  once := (h.expired_sublist now addr).nodup h.sorted.nodup
  due := h.mem_expired now addr
  inOrder := List.Pairwise.sublist (h.expired_sublist now addr) h.inSet.inOrder
  callbacks := by
    by_cases hne : s.timers = []
    · unfold TimerManager.listExpiredCb TimerManager.expired
      rw [hne]
      rfl
    · obtain ⟨rest, -, -, heq⟩ := listExpiredCb_eq now addr h.sorted h.live hne
      rw [heq]
      refine List.map_congr_left ?_
      intro id hid
      obtain ⟨e, he, -⟩ := (h.mem_expired now addr id).mp hid
      obtain ⟨⟨t, ht, -, -, -, hcb⟩, -⟩ := h.active id e he
      rw [ht, he]
      exact hcb
  again id e hdue he := by
    unfold Agenda.step
    simp only [if_pos hdue]
    rw [he]
    rfl

theorem run (h : Holds s a []) {ops : List (TimerOp C)} (hadm : s.Along TimerManager.Admissible ops) (n : Nat) :
    Holds ((ops.take n).foldl TimerManager.step s) ((ops.take n).foldl Agenda.step a) [] := by
  induction ops generalizing s a n with
  | nil =>
    rw [List.take_nil]
    exact h
  | cons op ops ih =>
    cases n with
    | zero => exact h
    | succ n => exact ih (h.step hadm.1) hadm.2 n

theorem new {start : Nat} (hlo : TimerManager.hour ≤ start) (hhi : start < 2 ^ 64) :
    Holds (TimerManager.new start : TimerManager C) (Agenda.new start) [] where
  sorted := List.Pairwise.nil
  members _ := ⟨fun h => absurd h List.not_mem_nil, fun h => absurd rfl h.1⟩
  active _ _ he := nomatch he
  ended _ _ ht := nomatch ht
  fresh _ _ := rfl
  places _ _ _ _ h := absurd rfl h
  count := rfl
  clock := ⟨rfl, hlo, hhi⟩

end Holds

theorem Agenda.inactive_step {a : Agenda C} {id : Nat} (hcount : id < a.count) (hnone : a.active id = none)
    (op : TimerOp C) : id < (a.step op).count ∧ (a.step op).active id = none := by
  have hset : ∀ id' (f : Entry C → Entry C), (a.change id' f).active id = none := by
    intro id' f
    show Function.update a.active id' _ id = none
    by_cases hid : id = id'
    · subst hid
      rw [Function.update_self, hnone]
      rfl
    · rw [Function.update_of_ne hid]
      exact hnone
  cases op with
  | addTimer now ms cb recurring addr =>
    refine ⟨Nat.lt_succ_of_lt hcount, ?_⟩
    show Function.update a.active a.count _ id = none
    rw [Function.update_of_ne (Nat.ne_of_lt hcount)]
    exact hnone
  | cancel id' =>
    refine ⟨hcount, ?_⟩
    show Function.update a.active id' none id = none
    by_cases hid : id = id'
    · rw [hid, Function.update_self]
    · rw [Function.update_of_ne hid]
      exact hnone
  | refresh id' now => exact ⟨hcount, hset id' _⟩
  | reset id' ms fromNow now => exact ⟨hcount, hset id' _⟩
  | listExpiredCb now addr =>
    refine ⟨hcount, ?_⟩
    unfold Agenda.step
    simp only [hnone, Option.bind_none, ite_self]

section runs

variable {start : Nat} {ops : List (TimerOp C)}

theorem agendaAt_succ {n : Nat} {op : TimerOp C} (h : ops[n]? = some op) :
    agendaAt start ops (n + 1) = (agendaAt start ops n).step op := by
  unfold agendaAt
  rw [List.take_add_one, h, List.foldl_append]
  rfl

theorem inactive_forever {m n id : Nat} (hmn : m ≤ n) (hcount : id < (agendaAt start ops m).count)
    (hnone : (agendaAt start ops m).active id = none) :
    id < (agendaAt start ops n).count ∧ (agendaAt start ops n).active id = none := by
  induction n, hmn using Nat.le_induction with
  | base => exact ⟨hcount, hnone⟩
  | succ n _ ih =>
    cases hop : ops[n]? with
    | none =>
      have hsame : agendaAt start ops (n + 1) = agendaAt start ops n := by
        unfold agendaAt
        rw [List.take_add_one, hop]
        simp
      rw [hsame]
      exact ih
    | some op =>
      rw [agendaAt_succ hop]
      exact Agenda.inactive_step ih.1 ih.2 op

end runs

/-! ## Top theorem -/

/-- **Timers fire when they are due.** -/
theorem timers_exact (start : Nat) (ops : List (TimerOp C)) (hlo : TimerManager.hour ≤ start) (hhi : start < 2 ^ 64)
    (hadm : (TimerManager.new start).Along TimerManager.Admissible ops) : Exact start ops := by
  have hholds : ∀ n, Holds (managerAt start ops n) (agendaAt start ops n) [] :=
    (Holds.new hlo hhi).run hadm
  have hcount : ∀ n id, (agendaAt start ops n).active id ≠ none → id < (agendaAt start ops n).count := by
    intro n id hact
    by_contra hge
    rw [← (hholds n).count] at hge
    exact hact ((hholds n).timer_none ((hholds n).fresh id (by omega)))
  have hfires : ∀ n id, Fires start ops n id → (agendaAt start ops n).active id ≠ none := by
    rintro n id ⟨now, addr, -, hid⟩
    obtain ⟨e, he, -⟩ := ((hholds n).mem_expired now addr id).mp hid
    rw [he]
    exact fun h => nomatch h
  constructor
  · intro n
    exact (hholds n).inSet
  · intro n now addr hop
    rw [agendaAt_succ hop]
    exact (hholds n).firesDue now addr
  · rintro m n id e ⟨now, addr, hop, hid⟩ he hshot hmn hagain
    have hdue := ((hholds m).mem_expired now addr id).mp hid
    have hgone := ((hholds m).firesDue now addr).again id e hdue he
    rw [hshot, ← agendaAt_succ hop] at hgone
    have hlt := hcount m id (by rw [he]; exact (fun h => nomatch h))
    have hlt' : id < (agendaAt start ops (m + 1)).count := by
      rw [agendaAt_succ hop]
      exact hlt
    exact hfires n id hagain (inactive_forever hmn hlt' hgone).2
  · intro m n id hop hcancel hmn hfire
    have hne : m ≠ n := by
      rintro rfl
      obtain ⟨now, addr, hop', -⟩ := hfire
      rw [hop] at hop'
      cases hop'
    have hlt : id < (agendaAt start ops m).count := by
      by_contra hge
      rw [← (hholds m).count] at hge
      unfold TimerManager.cancel at hcancel
      rw [(hholds m).fresh id (by omega)] at hcancel
      cases hcancel
    have hgone : (agendaAt start ops (m + 1)).active id = none := by
      rw [agendaAt_succ hop]
      show Function.update (agendaAt start ops m).active id none id = none
      rw [Function.update_self]
    have hlt' : id < (agendaAt start ops (m + 1)).count := by
      rw [agendaAt_succ hop]
      exact hlt
    exact hfires n id hfire (inactive_forever (by omega) hlt' hgone).2

/-- Both timers fire at the second call of `listExpiredCb`; the recurring one is reset and fires again. -/
def twoTimers : List (TimerOp String) :=
  [.addTimer 4000000 60 "once" false 16, .addTimer 4000000 60 "again" true 32, .listExpiredCb 4000059 48,
    .listExpiredCb 4000060 48, .cancel 0, .reset 1 30 true 4000070, .listExpiredCb 4000100 64]

theorem timers_exact_two : Exact 4000000 twoTimers ∧
    ((managerAt 4000000 twoTimers 3).listExpiredCb 4000060 48).1 = [some "once", some "again"] :=
  ⟨timers_exact 4000000 twoTimers (by decide) (by decide) (by decide), by decide⟩

end Core
