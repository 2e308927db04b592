import ZeroFrameworks.Kv.Cluster.ClusterBus

/-!
# Slots changing hands

What the operations on the view of the cluster do to the owners of slots, where all that a node knows are masters.

    addSlots, setSlotOwner, finishMigration: who holds which slot afterwards   (the lemmas named _spec)
    a message: the slots keep one owner each ↔ it claims none of a master with an empty id   (handlePingPong_spec)
-/

namespace Kv

namespace Cluster

open ClusterManager

/-! ## Specification -/

/-- A message of a master. -/
structure MasterMessage extends ClusterMessage where
  master : flags &&& ClusterNodeFlag.slave = 0

/-- No slot is in the sets of two known masters. -/
def OwnedOnce (s : ClusterManager) : Prop :=
  ∀ slot a b, s.holds a slot = true → s.holds b slot = true → a = b

/-- All that a node knows are masters, itself among them. -/
structure Masters (s : ClusterManager) : Prop where
  master : ∀ id n, s.getNode id = some n → n.hasFlag ClusterNodeFlag.slave = false
  known : (s.getNode s.myNodeId).isSome

/-! ## Lemmas -/

variable {s : ClusterManager}

namespace Masters

theorem holds_eq (h : Masters s) (id : Bytes) (t : Slot) : s.holds id t = (s.getNode id).any (·.slots t) := by
  unfold ClusterManager.holds
  cases hn : s.getNode id with
  | none => rfl
  | some n => simp [h.master id n hn]

theorem any_master (h : Masters s) (id : Bytes) :
    ((s.getNode id).any fun n => !n.hasFlag ClusterNodeFlag.slave) = (s.getNode id).isSome := by
  cases hn : s.getNode id with
  | none => rfl
  | some n => simp [h.master id n hn]

theorem mapNodes (h : Masters s) {f : Bytes → ClusterNode → ClusterNode}
    (hf : ∀ id n, (f id n).hasFlag ClusterNodeFlag.slave = n.hasFlag ClusterNodeFlag.slave) :
    Masters (s.mapNodes f) := by
  refine ⟨fun id n hn => ?_, ?_⟩
  · rw [getNode_mapNodes] at hn
    obtain ⟨m, hm, rfl⟩ := Option.map_eq_some_iff.mp hn
    rw [hf]
    exact h.master id m hm
  · rw [getNode_mapNodes, Option.isSome_map]
    exact h.known

theorem modify (h : Masters s) {f : ClusterNode → ClusterNode}
    (hf : ∀ n, (f n).hasFlag ClusterNodeFlag.slave = n.hasFlag ClusterNodeFlag.slave) (id : Bytes) :
    Masters (s.modify id f) := by
  refine h.mapNodes fun i n => ?_
  split
  · exact hf n
  · rfl

theorem setState (h : Masters s) (slot : Slot) (st : SlotState) : Masters (s.setState slot st) :=
  ⟨h.master, h.known⟩

theorem putSlot (h : Masters s) (id : Bytes) (slot : Slot) (v : Bool) : Masters (s.modify id (.putSlot slot v)) :=
  h.modify (f := .putSlot slot v) (fun _ => rfl) id

theorem holds_put (h : Masters s) {i : Bytes} (hi : (s.getNode i).isSome) (slot : Slot) (v : Bool) (id : Bytes)
    (t : Slot) : (s.modify i (.putSlot slot v)).holds id t = if id = i ∧ t = slot then v else s.holds id t := by
  rw [holds_putSlot, h.any_master]
  by_cases heq : id = i ∧ t = slot
  · rw [if_pos heq, if_pos heq, heq.1, hi, Bool.and_true]
  · rw [if_neg heq, if_neg heq]

theorem congr {s' : ClusterManager} (h : Masters s) (hs : Same s s') : Masters s' := by
  refine ⟨fun id n hn => ?_, ?_⟩
  · have hslave := hs.slave id
    rw [hn] at hslave
    obtain ⟨m, hm, heq⟩ := Option.map_eq_some_iff.mp hslave.symm
    exact heq.symm.trans (h.master id m hm)
  · have hslots := congrArg Option.isSome (hs.slots s.myNodeId)
    rw [Option.isSome_map, Option.isSome_map] at hslots
    rw [hs.myNodeId, hslots]
    exact h.known

end Masters

theorem foldl_addSlot (slots : List Slot) (h : Masters s) :
    Masters (slots.foldl addSlot s) ∧ (slots.foldl addSlot s).myNodeId = s.myNodeId ∧
      ∀ id t, (slots.foldl addSlot s).holds id t = true ↔ (id = s.myNodeId ∧ t ∈ slots) ∨ s.holds id t = true := by
  induction slots generalizing s with
  | nil => exact ⟨h, rfl, fun id t => by simp⟩
  | cons slot slots ih =>
    have hnext : Masters (s.addSlot slot) := (h.putSlot s.myNodeId slot true).setState slot _
    obtain ⟨hm, hid, hh⟩ := ih hnext
    refine ⟨hm, hid, fun id t => ?_⟩
    have hput : (s.addSlot slot).holds id t =
        if id = s.myNodeId ∧ t = slot then true else s.holds id t := h.holds_put h.known slot true id t
    have hmy : (s.addSlot slot).myNodeId = s.myNodeId := rfl
    rw [List.foldl_cons, hh, hput, hmy, List.mem_cons]
    split <;> grind

theorem addSlots_spec (slots : List Int) (h : Masters s) :
    Masters (s.addSlots slots) ∧ ∀ id t, (s.addSlots slots).holds id t = true ↔
      (id = s.myNodeId ∧ t ∈ slots.filterMap slot?) ∨ s.holds id t = true := by
  have hknown : ¬(s.getNode s.myNodeId).isNone := by
    obtain ⟨n, hn⟩ := Option.isSome_iff_exists.mp h.known
    rw [hn]
    exact Bool.false_ne_true
  obtain ⟨hm, -, hh⟩ := foldl_addSlot (slots.filterMap slot?) h
  unfold ClusterManager.addSlots
  rw [if_neg hknown]
  exact ⟨hm, hh⟩

theorem setSlotOwner_spec (slot : Int) (nodeId : Bytes) (epoch : UInt64) (h : Masters s) :
    Masters (s.setSlotOwner slot nodeId epoch).2 ∧
      ((s.setSlotOwner slot nodeId epoch).2 = s ∨
        ∃ t0, ∀ id t, (s.setSlotOwner slot nodeId epoch).2.holds id t =
          if t = t0 then decide (id = nodeId) else s.holds id t) := by
  unfold ClusterManager.setSlotOwner
  cases slot? slot with
  | none => exact ⟨h, .inl rfl⟩
  | some t0 =>
    cases htarget : s.getNode nodeId with
    | none => exact ⟨h, .inl rfl⟩
    | some target =>
      have hmaster := h.master nodeId target htarget
      simp only [hmaster, Bool.false_eq_true, if_false]
      have hcleared : Masters (s.mapNodes fun id n =>
          if n.hasFlag ClusterNodeFlag.slave ∨ id = nodeId then n else n.putSlot t0 false) :=
        h.mapNodes fun id n => by split <;> rfl
      have hset := (hcleared.putSlot nodeId t0 true).setState t0 {}
      refine ⟨⟨hset.master, hset.known⟩, .inr ⟨t0, fun id t => ?_⟩⟩
      show ((s.mapNodes _).modify nodeId (.putSlot t0 true)).holds id t = _
      rw [hcleared.holds_put (by rw [getNode_mapNodes, htarget]; rfl), hcleared.holds_eq, h.holds_eq, getNode_mapNodes]
      cases hn : s.getNode id with
      | none =>
        have hne : id ≠ nodeId := fun he => by rw [he, htarget] at hn; cases hn
        simp [hne]
      | some n =>
        have hslave := h.master id n hn
        by_cases hid : id = nodeId
        · by_cases ht : t = t0 <;> simp [hid, ht]
        · by_cases ht : t = t0 <;> simp [hid, ht, hslave, ClusterNode.putSlot]

/-- The slot leaves this node and is put into the set of the target, if that is known. -/
theorem finishMigration_spec (slot : Int) (h : Masters s) :
    Masters (s.finishMigration slot).2 ∧
      ((s.finishMigration slot = (false, s) ∧
          ∀ t, slot? slot = some t → (s.slotStates t).type = .migrating → (s.slotStates t).targetNodeId = []) ∨
        ∃ t0, slot? slot = some t0 ∧ (s.slotStates t0).type = .migrating ∧ (s.slotStates t0).targetNodeId ≠ [] ∧
          (s.finishMigration slot).1 = true ∧
          ∀ id t, (s.finishMigration slot).2.holds id t =
            if t = t0 then
              if id = (s.slotStates t0).targetNodeId then (s.getNode id).isSome
              else decide (id ≠ s.myNodeId) && s.holds id t0
            else s.holds id t) := by
  unfold ClusterManager.finishMigration
  cases hslot : slot? slot with
  | none => exact ⟨h, .inl ⟨rfl, fun t ht => by cases ht⟩⟩
  | some t0 =>
    simp only
    by_cases htype : (s.slotStates t0).type = .migrating
    · by_cases htarget : (s.slotStates t0).targetNodeId = []
      · rw [if_neg (not_not_intro htype), if_pos htarget]
        refine ⟨h, .inl ⟨rfl, fun t ht _ => ?_⟩⟩
        obtain rfl := Option.some.inj ht
        exact htarget
      · rw [if_neg (not_not_intro htype), if_neg htarget]
        have hleft := h.putSlot s.myNodeId t0 false
        refine ⟨(hleft.putSlot _ t0 true).setState t0 {}, .inr ⟨t0, rfl, htype, htarget, rfl, fun id t => ?_⟩⟩
        show ((s.modify s.myNodeId (.putSlot t0 false)).modify _ (.putSlot t0 true)).holds id t = _
        rw [holds_putSlot, hleft.any_master, h.holds_put h.known, isSome_getNode_modify]
        by_cases ht : t = t0
        · subst ht
          by_cases hid : id = (s.slotStates t).targetNodeId
          · simp [hid]
          · by_cases hmy : id = s.myNodeId <;> simp [hid, hmy]
        · simp [ht]
    · rw [if_pos htype]
      refine ⟨h, .inl ⟨rfl, fun t ht hm => ?_⟩⟩
      obtain rfl := Option.some.inj ht
      exact absurd hm htype

/-! ## Messages -/

section
variable {env : Env} {nodeId : Bytes} {epoch : UInt64}

/-- The two outcomes of a claim: the slot goes to the claimant, from the owner if there is one with an id; or the
owner keeps it. -/
theorem claimSlot_cases (env : Env) (nodeId : Bytes) (epoch : UInt64) (s : ClusterManager) (slot : Slot) :
    (claimSlot env nodeId epoch s slot = s.modify nodeId (.putSlot slot true) ∧
        ∀ id, s.holds id slot = true → id = nodeId ∨ s.holds [] slot = true) ∨
      ∃ owner, s.holds owner slot = true ∧ owner ≠ nodeId ∧ owner ≠ [] ∧
        (claimSlot env nodeId epoch s slot =
            (s.modify owner (.putSlot slot false)).modify nodeId (.putSlot slot true) ∨
          claimSlot env nodeId epoch s slot = s) := by
  unfold claimSlot
  cases hfind : (env.order s.nodes.keys).find? fun id => id != nodeId && s.holds id slot with
  | none =>
    refine .inl ⟨rfl, fun id hid => .inl ?_⟩
    have hall := List.find?_eq_none.mp hfind id ((env.order_perm _).mem_iff.mpr (mem_keys_of_holds hid))
    by_contra hne
    exact hall (by simp [hne, hid])
  | some owner =>
    have howner := List.find?_some hfind
    rw [Bool.and_eq_true, bne_iff_ne] at howner
    simp only
    by_cases hempty : owner = []
    · subst hempty
      rw [if_pos rfl]
      exact .inl ⟨rfl, fun id _ => .inr howner.2⟩
    · rw [if_neg hempty]
      refine .inr ⟨owner, howner.2, howner.1, hempty, ?_⟩
      split
      · exact .inl rfl
      · exact .inr rfl

variable {slot : Slot}

theorem holds_takeOver (h : Masters s) (hn : (s.getNode nodeId).isSome) {owner : Bytes}
    (howner : s.holds owner slot = true) (id : Bytes) (t : Slot) :
    ((s.modify owner (.putSlot slot false)).modify nodeId (.putSlot slot true)).holds id t =
      if id = nodeId ∧ t = slot then true else if id = owner ∧ t = slot then false else s.holds id t := by
  rw [(h.putSlot owner slot false).holds_put (by rwa [isSome_getNode_modify]), h.holds_put (known_of_holds howner)]

/-- A claim keeps to its slot, which no other node gains, and leaves the epochs alone. -/
structure Claims (nodeId : Bytes) (slot : Slot) (s s' : ClusterManager) : Prop where
  masters : Masters s'
  myNodeId : s'.myNodeId = s.myNodeId
  configEpoch : ∀ id, (s'.getNode id).map (·.configEpoch) = (s.getNode id).map (·.configEpoch)
  frame : ∀ id t, t ≠ slot → s'.holds id t = s.holds id t
  loses : ∀ id, id ≠ nodeId → s'.holds id slot = true → s.holds id slot = true
  keeps : s.holds nodeId slot = true → s'.holds nodeId slot = true

theorem Claims.known {s' : ClusterManager} (h : Claims nodeId slot s s')
    (hn : (s.getNode nodeId).isSome) : (s'.getNode nodeId).isSome := by
  have hsome := congrArg Option.isSome (h.configEpoch nodeId)
  rw [Option.isSome_map, Option.isSome_map] at hsome
  rwa [hsome]

theorem claims_claimSlot (h : Masters s) (hn : (s.getNode nodeId).isSome) (slot : Slot) :
    Claims nodeId slot s (claimSlot env nodeId epoch s slot) := by
  have hepoch : ∀ (s : ClusterManager) (i : Bytes) (v : Bool) (id : Bytes),
      ((s.modify i (.putSlot slot v)).getNode id).map (·.configEpoch) = (s.getNode id).map (·.configEpoch) := by
    intro s i v id
    rw [getNode_modify]
    split
    · rw [Option.map_map]
      rfl
    · rfl
  rcases claimSlot_cases env nodeId epoch s slot with ⟨heq, -⟩ | ⟨owner, howner, hne, -, heq | heq⟩
  · rw [heq]
    refine ⟨h.putSlot nodeId slot true, rfl, hepoch s nodeId true, fun id t ht => ?_, fun id hid hh => ?_, fun _ => ?_⟩
    · rw [h.holds_put hn, if_neg fun hc => ht hc.2]
    · rwa [h.holds_put hn, if_neg fun hc => hid hc.1] at hh
    · rw [h.holds_put hn, if_pos ⟨rfl, rfl⟩]
  · rw [heq]
    refine ⟨(h.putSlot owner slot false).putSlot nodeId slot true, rfl,
      fun id => (hepoch _ nodeId true id).trans (hepoch s owner false id), fun id t ht => ?_, fun id hid hh => ?_,
      fun _ => ?_⟩
    · rw [holds_takeOver h hn howner, if_neg fun hc => ht hc.2, if_neg fun hc => ht hc.2]
    · rw [holds_takeOver h hn howner, if_neg fun hc => hid hc.1] at hh
      split at hh
      · cases hh
      · exact hh
    · rw [holds_takeOver h hn howner, if_pos ⟨rfl, rfl⟩]
  · rw [heq]
    exact ⟨h, rfl, fun _ => rfl, fun _ _ _ => rfl, fun _ _ hh => hh, fun hh => hh⟩

/-- If no master with an empty id stands in the way, the claim leaves the slot with one owner. -/
theorem ownedOnce_claimSlot (h : Masters s) (hn : (s.getNode nodeId).isSome) (ho : OwnedOnce s)
    (hempty : nodeId ≠ [] → s.holds [] slot = false) : OwnedOnce (claimSlot env nodeId epoch s slot) := by
  intro t a b ha hb
  have hclaims : Claims nodeId slot s (claimSlot env nodeId epoch s slot) := claims_claimSlot h hn slot
  by_cases ht : t = slot
  · subst ht
    rcases claimSlot_cases env nodeId epoch s t with ⟨heq, hall⟩ | ⟨owner, howner, -, -, heq | heq⟩
    · have hmine : ∀ id, (claimSlot env nodeId epoch s t).holds id t = true → id = nodeId := by
        intro id hid
        by_contra hne
        rcases hall id (hclaims.loses id hne hid) with he | he
        · exact hne he
        · by_cases hnil : nodeId = []
          · exact hne ((ho t id [] (hclaims.loses id hne hid) he).trans hnil.symm)
          · rw [hempty hnil] at he
            cases he
      exact (hmine a ha).trans (hmine b hb).symm
    · have hmine : ∀ id, (claimSlot env nodeId epoch s t).holds id t = true → id = nodeId := by
        intro id hid
        by_contra hne
        have hold := ho t id owner (hclaims.loses id hne hid) howner
        rw [heq, holds_takeOver h hn howner, if_neg fun hc => hne hc.1, if_pos ⟨hold, rfl⟩] at hid
        cases hid
      exact (hmine a ha).trans (hmine b hb).symm
    · rw [heq] at ha hb
      exact ho t a b ha hb
  · rw [hclaims.frame a t ht] at ha
    rw [hclaims.frame b t ht] at hb
    exact ho t a b ha hb

variable (env epoch) in
theorem foldl_claimSlot (slots : List Slot) (h : Masters s) (hn : (s.getNode nodeId).isSome) :
    let s' := slots.foldl (claimSlot env nodeId epoch) s
    Masters s' ∧ s'.myNodeId = s.myNodeId ∧
      (∀ id, (s'.getNode id).map (·.configEpoch) = (s.getNode id).map (·.configEpoch)) ∧
      (OwnedOnce s → (nodeId ≠ [] → ∀ t ∈ slots, s.holds [] t = false) → OwnedOnce s') := by
  induction slots generalizing s with
  | nil => exact ⟨h, rfl, fun _ => rfl, fun ho _ => ho⟩
  | cons slot slots ih =>
    have hclaims : Claims nodeId slot s (claimSlot env nodeId epoch s slot) := claims_claimSlot h hn slot
    have hn' := hclaims.known hn
    obtain ⟨hm, hid, hepoch, hone⟩ := ih hclaims.masters hn'
    refine ⟨hm, hid.trans hclaims.myNodeId, fun id => (hepoch id).trans (hclaims.configEpoch id), fun ho hempty => ?_⟩
    refine hone (ownedOnce_claimSlot h hn ho fun hnil => hempty hnil slot List.mem_cons_self) fun hnil t ht => ?_
    have hfree := hempty hnil t (List.mem_cons_of_mem slot ht)
    rw [Bool.eq_false_iff] at hfree ⊢
    intro hh
    by_cases heq : t = slot
    · subst heq
      exact hfree (hclaims.loses [] (Ne.symm hnil) hh)
    · rw [hclaims.frame [] t heq] at hh
      exact hfree hh

variable (env epoch) in
theorem both_hold (slots : List Slot) {t : Slot} (h : Masters s) (hn : (s.getNode nodeId).isSome)
    (hnil : nodeId ≠ []) (hheld : s.holds [] t = true) (honly : ∀ id, id ≠ nodeId → s.holds id t = true → id = [])
    (ht : t ∈ slots ∨ s.holds nodeId t = true) :
    (slots.foldl (claimSlot env nodeId epoch) s).holds [] t = true ∧
      (slots.foldl (claimSlot env nodeId epoch) s).holds nodeId t = true := by
  induction slots generalizing s with
  | nil => exact ⟨hheld, ht.resolve_left List.not_mem_nil⟩
  | cons slot slots ih =>
    have hclaims : Claims nodeId slot s (claimSlot env nodeId epoch s slot) := claims_claimSlot h hn slot
    have hn' := hclaims.known hn
    by_cases heq : t = slot
    · subst heq
      have hput : claimSlot env nodeId epoch s t = s.modify nodeId (.putSlot t true) := by
        rcases claimSlot_cases env nodeId epoch s t with ⟨heq, -⟩ | ⟨owner, howner, hne, hempty, -⟩
        · exact heq
        · exact absurd (honly owner hne howner) hempty
      refine ih hclaims.masters hn' ?_ (fun id hid hh => honly id hid (hclaims.loses id hid hh)) (.inr ?_)
      · rw [hput, h.holds_put hn, if_neg fun hc => hnil hc.1.symm]
        exact hheld
      · rw [hput, h.holds_put hn, if_pos ⟨rfl, rfl⟩]
    · refine ih hclaims.masters hn' ?_ (fun id hid hh => ?_) ?_
      · rw [hclaims.frame [] t heq]
        exact hheld
      · rw [hclaims.frame id t heq] at hh
        exact honly id hid hh
      · rw [hclaims.frame nodeId t heq]
        exact ht.imp (fun hm => (List.mem_cons.mp hm).resolve_left heq) fun hh => hh

end

theorem stored_spec (env : Env) (msg : MasterMessage) (h : Masters s) (hne : msg.senderId ≠ s.myNodeId) :
    let s' := msg.stored env s
    Masters s' ∧ s'.myNodeId = s.myNodeId ∧
      (s'.getNode msg.senderId).map (·.configEpoch) = some msg.configEpoch ∧
      ∀ id t, s'.holds id t = if id = msg.senderId then false else s.holds id t := by
  intro s'
  have hnode : ∀ id, s'.getNode id =
      if id = msg.senderId then
        some { msg.describe env.now ((s.getNode msg.senderId).getD {}) with slots := fun _ => false }
      else s.getNode id := by
    intro id
    show ((s.addNode _ _).modify _ _).getNode id = _
    rw [getNode_modify, getNode_addNode]
    split
    · rw [Option.map_some]
      congr 2
      exact if_neg (UInt64.lt_irrefl _)
    · rfl
  have hm : Masters s' := by
    refine ⟨fun id n hn => ?_, ?_⟩
    · rw [hnode] at hn
      split at hn
      · obtain rfl := Option.some.inj hn
        exact describe_master msg.master env.now ((s.getNode msg.senderId).getD {})
      · exact h.master id n hn
    · show (s'.getNode s.myNodeId).isSome
      rw [hnode, if_neg (Ne.symm hne)]
      exact h.known
  refine ⟨hm, rfl, ?_, fun id t => ?_⟩
  · rw [hnode, if_pos rfl]
    rfl
  · rw [hm.holds_eq, h.holds_eq, hnode]
    split
    · rfl
    · rfl

/-- What a message leaves: its own epoch as that of its sender, and one owner for each slot unless a master with an
empty id has one that is claimed. -/
theorem handlePingPong_spec (env : Env) (msg : MasterMessage) (h : Masters s) (ho : OwnedOnce s)
    (hne : msg.senderId ≠ s.myNodeId) :
    let s' := ClusterBus.handlePingPong env msg.toClusterMessage s
    Masters s' ∧ (s'.getNode msg.senderId).map (·.configEpoch) = some msg.configEpoch ∧
      (OwnedOnce s' ↔ (msg.senderId ≠ [] → ∀ t ∈ msg.claimed, s.holds [] t = false)) := by
  intro s'
  have hsame := same_handlePingPong env msg.master s
  obtain ⟨hm, -, hepoch, hh⟩ := stored_spec env msg h hne
  have hn : ((msg.stored env s).getNode msg.senderId).isSome := by
    obtain ⟨n, hn, -⟩ := Option.map_eq_some_iff.mp hepoch
    exact Option.isSome_iff_exists.mpr ⟨n, hn⟩
  have hstored : OwnedOnce (msg.stored env s) := by
    intro t a b ha hb
    rw [hh] at ha hb
    split at ha
    · cases ha
    · split at hb
      · cases hb
      · exact ho t a b ha hb
  obtain ⟨hm', -, hepoch', hone⟩ := foldl_claimSlot env msg.configEpoch msg.claimed hm hn
  refine ⟨hm'.congr hsame, (hsame.configEpoch _).trans ((hepoch' _).trans hepoch), ?_⟩
  have hholds : OwnedOnce s' ↔
      OwnedOnce (msg.claimed.foldl (claimSlot env msg.senderId msg.configEpoch) (msg.stored env s)) := by
    unfold OwnedOnce
    rw [hsame.holds]
  rw [hholds]
  constructor
  · intro howned hnil t ht
    rw [Bool.eq_false_iff]
    intro hheld
    have hheld' : (msg.stored env s).holds [] t = true := by
      rw [hh, if_neg (Ne.symm hnil)]
      exact hheld
    obtain ⟨hboth, hmine⟩ := both_hold env msg.configEpoch msg.claimed hm hn hnil hheld'
      (fun id _ hid => hstored t id [] hid hheld') (.inl ht)
    exact hnil (howned t [] msg.senderId hboth hmine).symm
  · intro hempty
    refine hone hstored fun hnil t ht => ?_
    rw [hh, if_neg (Ne.symm hnil)]
    exact hempty hnil t ht

end Cluster

end Kv
