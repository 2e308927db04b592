import ZeroFrameworks.Kv.Cluster.SlotClaims
import ZeroFrameworks.Lib.Runs

/-!
# Owners of slots

Over any sequence of local commands and of messages of other masters a slot should be in the set of one known master
at most.  `addSlots` and the end of a migration do not look at the other masters, `finishMigration` does not look for
its target either, and `handlePingPong` stores the epoch of a message before the message is compared with it.  So the
owners stay apart, stale messages change nothing and migrations end with their targets exactly in the runs in which
each step is spared this:

    every step of the run keeps its promise ↔ every step of the run is `Allowed`   (slots_owned_iff)
-/

namespace Kv

namespace Cluster

open ClusterManager

/-! ## Algorithm -/

inductive Event where
  | addSlots (slots : List Int)
  | setSlotOwner (slot : Int) (nodeId : Bytes) (epoch : UInt64)
  | setSlotMigrating (slot : Int) (targetNodeId : Bytes)
  | setSlotImporting (slot : Int) (sourceNodeId : Bytes)
  | setSlotStable (slot : Int)
  | finishMigration (slot : Int)
  | message (env : Env) (msg : MasterMessage)

def Event.apply (s : ClusterManager) : Event → ClusterManager
  | .addSlots slots => s.addSlots slots
  | .setSlotOwner slot nodeId epoch => (s.setSlotOwner slot nodeId epoch).2
  | .setSlotMigrating slot target => (s.setSlotMigrating slot target).2
  | .setSlotImporting slot source => (s.setSlotImporting slot source).2
  | .setSlotStable slot => (s.setSlotStable slot).2
  | .finishMigration slot => (s.finishMigration slot).2
  | .message env msg => ClusterBus.onMessage env msg.toClusterMessage s

/-! ## Specification -/

/-- An older message than those known of its sender changes nothing, and a migration that is finished has brought
the slot to its target. -/
def Event.Promise (s : ClusterManager) (e : Event) : Prop :=
  match e with
  | .message _ msg => ∀ n, s.getNode msg.senderId = some n → msg.configEpoch < n.configEpoch →
      ((e.apply s).getNode msg.senderId).map (·.configEpoch) = some n.configEpoch ∧
        ∀ id, ((e.apply s).getNode id).map (·.slots) = (s.getNode id).map (·.slots)
  | .finishMigration slot => (s.finishMigration slot).1 = true →
      ∃ t, slot? slot = some t ∧ (e.apply s).holds (s.slotStates t).targetNodeId t = true
  | _ => True

/-- `addSlots` with free slots; the end of a migration to a known master, of a slot that no third one has; a message
that is not stale and claims no slot of a master with an empty id. -/
def Event.Allowed (s : ClusterManager) : Event → Prop
  | .addSlots slots => ∀ t ∈ slots.filterMap slot?, ∀ id, s.holds id t = true → id = s.myNodeId
  | .finishMigration slot => ∀ t, slot? slot = some t → (s.slotStates t).type = .migrating →
      (s.slotStates t).targetNodeId ≠ [] → (s.getNode (s.slotStates t).targetNodeId).isSome ∧
        ∀ id, s.holds id t = true → id = s.myNodeId ∨ id = (s.slotStates t).targetNodeId
  | .message _ msg => msg.senderId ≠ s.myNodeId →
      (∀ n, s.getNode msg.senderId = some n → n.configEpoch ≤ msg.configEpoch) ∧
        (msg.senderId ≠ [] → ∀ t ∈ msg.claimed, s.holds [] t = false)
  | _ => True

/-- What the code should keep in a step. -/
def Kept (s : ClusterManager) (e : Event) : Prop := OwnedOnce (e.apply s) ∧ e.Promise s

/-! ## Lemmas -/

variable {s : ClusterManager}

/-- The state of one slot is changed at most. -/
def Marked (s s' : ClusterManager) : Prop := s' = s ∨ ∃ slot st, s' = s.setState slot st

theorem Marked.masters {s' : ClusterManager} (hm : Marked s s') (h : Masters s) : Masters s' := by
  rcases hm with rfl | ⟨slot, st, rfl⟩
  · exact h
  · exact h.setState slot st

theorem Marked.ownedOnce {s' : ClusterManager} (hm : Marked s s') (ho : OwnedOnce s) : OwnedOnce s' := by
  rcases hm with rfl | ⟨slot, st, rfl⟩
  · exact ho
  · exact ho

theorem marked_setSlotMigrating (slot : Int) (target : Bytes) (s : ClusterManager) :
    Marked s (s.setSlotMigrating slot target).2 := by
  unfold setSlotMigrating
  split
  · exact .inl rfl
  · split
    · exact .inl rfl
    · exact .inr ⟨_, _, rfl⟩

theorem marked_setSlotImporting (slot : Int) (source : Bytes) (s : ClusterManager) :
    Marked s (s.setSlotImporting slot source).2 := by
  unfold setSlotImporting
  split
  · exact .inl rfl
  · split
    · exact .inl rfl
    · exact .inr ⟨_, _, rfl⟩

theorem marked_setSlotStable (slot : Int) (s : ClusterManager) : Marked s (s.setSlotStable slot).2 := by
  unfold setSlotStable
  split
  · exact .inl rfl
  · exact .inr ⟨_, _, rfl⟩

theorem masters_apply (h : Masters s) (ho : OwnedOnce s) (e : Event) : Masters (e.apply s) := by
  cases e with
  | addSlots slots => exact (addSlots_spec slots h).1
  | setSlotOwner slot nodeId epoch => exact (setSlotOwner_spec slot nodeId epoch h).1
  | setSlotMigrating slot target => exact (marked_setSlotMigrating slot target s).masters h
  | setSlotImporting slot source => exact (marked_setSlotImporting slot source s).masters h
  | setSlotStable slot => exact (marked_setSlotStable slot s).masters h
  | finishMigration slot => exact (finishMigration_spec slot h).1
  | message env msg =>
    show Masters (ClusterBus.onMessage env msg.toClusterMessage s)
    unfold ClusterBus.onMessage
    by_cases hne : msg.senderId = s.myNodeId
    · rw [if_pos hne]
      exact h
    · rw [if_neg hne]
      exact (handlePingPong_spec env msg h ho hne).1

theorem kept_addSlots (h : Masters s) (ho : OwnedOnce s) (slots : List Int) :
    Kept s (.addSlots slots) ↔ (Event.addSlots slots).Allowed s := by
  obtain ⟨-, hh⟩ := addSlots_spec slots h
  constructor
  · rintro ⟨hone, -⟩ t ht id hid
    exact hone t id s.myNodeId ((hh id t).mpr (.inr hid)) ((hh s.myNodeId t).mpr (.inl ⟨rfl, ht⟩))
  · intro hfree
    refine ⟨fun t a b ha hb => ?_, trivial⟩
    rcases (hh a t).mp ha with ⟨rfl, hta⟩ | hold
    · rcases (hh b t).mp hb with ⟨rfl, -⟩ | hold
      · rfl
      · exact (hfree t hta b hold).symm
    · rcases (hh b t).mp hb with ⟨rfl, htb⟩ | hold'
      · exact hfree t htb a hold
      · exact ho t a b hold hold'

theorem kept_setSlotOwner (h : Masters s) (ho : OwnedOnce s) (slot : Int) (nodeId : Bytes) (epoch : UInt64) :
    Kept s (.setSlotOwner slot nodeId epoch) := by
  obtain ⟨-, heq | ⟨t0, hh⟩⟩ := setSlotOwner_spec slot nodeId epoch h
  · refine ⟨?_, trivial⟩
    show OwnedOnce (s.setSlotOwner slot nodeId epoch).2
    rwa [heq]
  · refine ⟨fun t a b ha hb => ?_, trivial⟩
    have ha' := (hh a t).symm.trans ha
    have hb' := (hh b t).symm.trans hb
    split at ha'
    next ht =>
      rw [if_pos ht] at hb'
      exact (of_decide_eq_true ha').trans (of_decide_eq_true hb').symm
    next ht =>
      rw [if_neg ht] at hb'
      exact ho t a b ha' hb'

theorem kept_finishMigration (h : Masters s) (ho : OwnedOnce s) (slot : Int) :
    Kept s (.finishMigration slot) ↔ (Event.finishMigration slot).Allowed s := by
  obtain ⟨-, ⟨heq, hno⟩ | ⟨t0, hslot, htype, htarget, htrue, hh⟩⟩ := finishMigration_spec slot h
  · constructor
    · intro _ t ht hm hne
      exact absurd (hno t ht hm) hne
    · intro _
      refine ⟨?_, fun htrue => ?_⟩
      · show OwnedOnce (s.finishMigration slot).2
        rwa [heq]
      · rw [heq] at htrue
        cases htrue
  · have hthis : ∀ t, slot? slot = some t → t = t0 := fun t ht => Option.some.inj (ht.symm.trans hslot)
    constructor
    · rintro ⟨hone, hpromise⟩ t ht _ _
      obtain rfl := hthis t ht
      obtain ⟨t', ht', hat⟩ := hpromise htrue
      obtain rfl := hthis t' ht'
      have hat' := (hh _ t').symm.trans hat
      rw [if_pos rfl, if_pos rfl] at hat'
      refine ⟨hat', fun id hid => ?_⟩
      by_contra hthird
      rw [not_or] at hthird
      refine hthird.2 (hone t' id _ ((hh id t').trans ?_) hat)
      rw [if_pos rfl, if_neg hthird.2, hid]
      simp [hthird.1]
    · intro hallowed
      obtain ⟨hknown, hothers⟩ := hallowed t0 hslot htype htarget
      have hat : (s.finishMigration slot).2.holds (s.slotStates t0).targetNodeId t0 = true := by
        rw [hh, if_pos rfl, if_pos rfl, hknown]
      refine ⟨fun t a b ha hb => ?_, fun _ => ⟨t0, hslot, hat⟩⟩
      have ha' := (hh a t).symm.trans ha
      have hb' := (hh b t).symm.trans hb
      by_cases ht : t = t0
      · subst ht
        rw [if_pos rfl] at ha' hb'
        have hmine : ∀ id, (if id = (s.slotStates t).targetNodeId then (s.getNode id).isSome
            else decide (id ≠ s.myNodeId) && s.holds id t) = true → id = (s.slotStates t).targetNodeId := by
          intro id hid
          by_contra hne
          rw [if_neg hne, Bool.and_eq_true, decide_eq_true_eq] at hid
          exact (hothers id hid.2).elim hid.1 hne
        exact (hmine a ha').trans (hmine b hb').symm
      · rw [if_neg ht] at ha' hb'
        exact ho t a b ha' hb'

theorem kept_message (h : Masters s) (ho : OwnedOnce s) (env : Env) (msg : MasterMessage) :
    Kept s (.message env msg) ↔ (Event.message env msg).Allowed s := by
  by_cases hne : msg.senderId = s.myNodeId
  · have heq : (Event.message env msg).apply s = s := if_pos hne
    refine ⟨fun _ hno => absurd hne hno, fun _ => ⟨?_, fun n hn _ => ?_⟩⟩
    · rwa [heq]
    · rw [heq, hn]
      exact ⟨rfl, fun _ => rfl⟩
  · have heq : (Event.message env msg).apply s = ClusterBus.handlePingPong env msg.toClusterMessage s := if_neg hne
    obtain ⟨-, hepoch, hone⟩ := handlePingPong_spec env msg h ho hne
    constructor
    · rintro ⟨howned, hpromise⟩ _
      rw [heq] at howned
      refine ⟨fun n hn => ?_, hone.mp howned⟩
      by_contra hlt
      have hkept := (hpromise n hn (UInt64.not_le.mp hlt)).1
      rw [heq, hepoch, Option.some.injEq] at hkept
      exact hlt (UInt64.le_of_eq hkept.symm)
    · intro hallowed
      obtain ⟨hfresh, hempty⟩ := hallowed hne
      refine ⟨?_, fun n hn hlt => ?_⟩
      · rw [heq]
        exact hone.mpr hempty
      · exact absurd (hfresh n hn) (UInt64.not_le.mpr hlt)

theorem kept_iff (h : Masters s) (ho : OwnedOnce s) (e : Event) : Kept s e ↔ e.Allowed s := by
  cases e with
  | addSlots slots => exact kept_addSlots h ho slots
  | setSlotOwner slot nodeId epoch => exact ⟨fun _ => trivial, fun _ => kept_setSlotOwner h ho slot nodeId epoch⟩
  | setSlotMigrating slot target =>
    exact ⟨fun _ => trivial, fun _ => ⟨(marked_setSlotMigrating slot target s).ownedOnce ho, trivial⟩⟩
  | setSlotImporting slot source =>
    exact ⟨fun _ => trivial, fun _ => ⟨(marked_setSlotImporting slot source s).ownedOnce ho, trivial⟩⟩
  | setSlotStable slot =>
    exact ⟨fun _ => trivial, fun _ => ⟨(marked_setSlotStable slot s).ownedOnce ho, trivial⟩⟩
  | finishMigration slot => exact kept_finishMigration h ho slot
  | message env msg => exact kept_message h ho env msg

theorem along_kept_iff (events : List Event) (h : Masters s) (ho : OwnedOnce s) :
    Runs.Along Event.apply Kept s events ↔ Runs.Along Event.apply (fun s e => e.Allowed s) s events := by
  have hkeep : ∀ s e, Masters s ∧ OwnedOnce s → Kept s e → Masters (Event.apply s e) ∧ OwnedOnce (Event.apply s e) :=
    fun s e hs hk => ⟨masters_apply hs.1 hs.2 e, hk.1⟩
  exact Runs.along_iff (fun s e hs => kept_iff hs.1 hs.2 e) hkeep ⟨h, ho⟩

theorem start_spec (myNodeId bindIp announceIp fresh : Bytes) (port clusterPort announcePort now : Int) :
    let s := init myNodeId bindIp port clusterPort announceIp announcePort fresh now {}
    Masters s ∧ OwnedOnce s := by
  intro s
  have hnode : ∀ id n, s.getNode id = some n →
      n.flags = (ClusterNodeFlag.myself ||| ClusterNodeFlag.master) ∧ n.slots = fun _ => false := by
    intro id n hn
    by_cases hid : id = s.myNodeId
    · subst hid
      have hself := Option.some.inj (hn.symm.trans (AList.lookup_insert ∅))
      rw [hself]
      exact ⟨rfl, rfl⟩
    · have hnone : s.getNode id = none := AList.lookup_insert_ne hid
      rw [hnone] at hn
      cases hn
  have hm : Masters s := by
    refine ⟨fun id n hn => ?_, ?_⟩
    · unfold ClusterNode.hasFlag
      rw [(hnode id n hn).1]
      decide
    · exact congrArg Option.isSome (AList.lookup_insert ∅)
  refine ⟨hm, fun t a b ha => ?_⟩
  rw [hm.holds_eq] at ha
  obtain ⟨n, hn, hslot⟩ := (Option.any_eq_true ..).mp ha
  rw [(hnode a n hn).2] at hslot
  cases hslot

/-! ## Top theorem -/

/-- On any run of a node from its start, each slot has one owner at most after every step, stale messages change
nothing and finished migrations are with their targets, exactly if every step is `Allowed` in the state before it. -/
theorem slots_owned_iff (myNodeId bindIp announceIp fresh : Bytes) (port clusterPort announcePort now : Int)
    (events : List Event) :
    let s := init myNodeId bindIp port clusterPort announceIp announcePort fresh now {}
    OwnedOnce s ∧ (Runs.Along Event.apply Kept s events ↔ Runs.Along Event.apply (fun s e => e.Allowed s) s events) := by
  intro s
  obtain ⟨hm, ho⟩ := start_spec myNodeId bindIp announceIp fresh port clusterPort announcePort now
  exact ⟨ho, along_kept_iff events hm ho⟩

/-- A message of the master `b`, which claims no slot. -/
def helloFrom (epoch : UInt64) : Event :=
  .message { now := 1 }
    { senderId := lit "b", flags := ClusterNodeFlag.master, configEpoch := epoch, master := by decide }

theorem claimed_hello (epoch : UInt64) :
    ({ senderId := lit "b", flags := ClusterNodeFlag.master, configEpoch := epoch } : ClusterMessage).claimed = [] := by
  refine List.filter_eq_nil_iff.mpr fun slot _ h => ?_
  have hno : ({ senderId := lit "b", flags := ClusterNodeFlag.master, configEpoch := epoch } : ClusterMessage).recvSlots slot =
      false := rfl
  exact Bool.false_ne_true (hno.symm.trans h)

/-- A slot that is added where another master has it, an epoch that goes back, and a migration to nowhere. -/
theorem slots_not_owned :
    let s := init (lit "a") [] 0 0 [] 0 [] 0 {}
    let both := [helloFrom 5, .setSlotOwner 0 (lit "b") 0, .addSlots [0]].foldl Event.apply s
    let stale := [helloFrom 5, helloFrom 3].foldl Event.apply s
    let gone := [Event.addSlots [1], .setSlotMigrating 1 (lit "x")].foldl Event.apply s
    (both.holds (lit "a") ⟨0, by decide⟩ = true ∧ both.holds (lit "b") ⟨0, by decide⟩ = true) ∧
      (stale.getNode (lit "b")).map (·.configEpoch) = some 3 ∧
      (gone.finishMigration 1).1 = true ∧ (gone.finishMigration 1).2.holds (lit "x") ⟨1, by decide⟩ = false := by
  simp only [List.foldl_cons, List.foldl_nil, helloFrom, Event.apply, ClusterBus.onMessage, ClusterBus.handlePingPong,
    claimed_hello, List.map_nil]
  decide

end Cluster

end Kv
