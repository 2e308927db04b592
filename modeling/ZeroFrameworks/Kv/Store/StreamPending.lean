import ZeroFrameworks.Kv.Store.StreamDelivery

/-!
# The pending entries of a group

What is pending in a group is a map from ids to the consumer that has the id and to its delivery
(`Pel`).  The source keeps it twice for each consumer, as a list of ids and as a map of deliveries, and
`Records consumers p` says that these are the one map `p`.  Every operation on a group does to `p` what
it is for (`Pel.deliver`, `Pel.ack`, `Pel.claim`) and keeps the copies alike, with one exception:
`xreadGroup` appends to the list what is there already, or what another consumer has.  Along any run
whose XREADGROUPs hand out entries that are not pending in the group,

    FreshReads db key s calls → PendingAlong db key s calls
-/

namespace Kv

variable {F : Type} [Platform F]

/-! ## Abstract model -/

/-- The pending ids of a group, each with its consumer and its delivery. -/
def Pel := Bytes → Option (Bytes × StreamPendingMeta)

/-- Pending for long enough to be claimed. -/
def Ripe (now minIdleMs : Int) (force : Bool) (d : StreamPendingMeta) : Prop :=
  force = true ∨ minIdleMs ≤ now - d.deliveryMs

instance (now minIdleMs : Int) (force : Bool) (d : StreamPendingMeta) : Decidable (Ripe now minIdleMs force d) :=
  inferInstanceAs (Decidable (_ ∨ _))

namespace Pel

/-- The id becomes pending for the consumer. -/
def give (consumer id : Bytes) (d : StreamPendingMeta) (p : Pel) : Pel := fun id' =>
  if id' = id then some (consumer, d) else p id'

def deliver (now : Int) (consumer : Bytes) (ids : List Bytes) (p : Pel) : Pel :=
  ids.foldl (fun p id => p.give consumer id { deliveryMs := now, deliveryCount := 1 }) p

def ack (ids : List Bytes) (p : Pel) : Pel := fun id => if id ∈ ids then none else p id

/-- The id goes to the consumer, with one more delivery. -/
def claim (now : Int) (consumer : Bytes) (minIdleMs : Int) (force : Bool) (p : Pel) (id : Bytes) : Pel :=
  match p id with
  | none => p
  | some (_, d) =>
    if Ripe now minIdleMs force d then
      p.give consumer id { deliveryMs := now, deliveryCount := d.deliveryCount + 1 }
    else p

end Pel

/-! ## The pending lists of the source -/

/-- What a group has of a consumer; nothing before it is named. -/
def stateOf (consumers : BMap StreamConsumerState) (c : Bytes) : StreamConsumerState := consumers[c]?.getD {}

/-- The lists and the maps of all consumers are the one map `p`. -/
structure Records (consumers : BMap StreamConsumerState) (p : Pel) : Prop where
  nodup : ∀ c, (stateOf consumers c).pending.Nodup
  listed : ∀ c id, id ∈ (stateOf consumers c).pending ↔ ∃ d, p id = some (c, d)
  dated : ∀ c id d, (stateOf consumers c).pendingMeta[id]? = some d ↔ p id = some (c, d)

/-- No duplicates, the ids of the list are the keys of the map, and no id is pending twice. -/
structure PendingOk (consumers : BMap StreamConsumerState) : Prop where
  nodup : ∀ c, (stateOf consumers c).pending.Nodup
  keys : ∀ c id, id ∈ (stateOf consumers c).pending ↔ id ∈ (stateOf consumers c).pendingMeta
  single : ∀ c c' id, id ∈ (stateOf consumers c).pending → id ∈ (stateOf consumers c').pending → c = c'

def GroupsOk (v : Option StreamObj) : Prop :=
  ∀ st ∈ v, ∀ (g : Bytes) (gs : StreamGroupState), st.groups[g]? = some gs → PendingOk gs.consumers

/-- Where XREADGROUP with `id` starts. -/
def StreamGroupState.startOf (gs : StreamGroupState) (consumer id : Bytes) : Bytes :=
  if id ≠ lit ">" ∧ id ≠ [] then id else if gs.lastOf consumer = [] then gs.lastId else gs.lastOf consumer

/-- The ids pending in a group. -/
def pendingIds (consumers : BMap StreamConsumerState) : List Bytes :=
  consumers.toList.flatMap fun cs => cs.2.pending

/-- What XREADGROUP hands out. -/
def picksOf (gs : StreamGroupState) (consumer id : Bytes) (count : Int) (entries : List StreamEntry) :
    List StreamEntry :=
  takeWhere (fun e => !idLe e.id (gs.startOf consumer id)) count entries

/-- XREADGROUP hands out entries that are not pending, and none twice. -/
def FreshRead (v : Option StreamObj) (group consumer id : Bytes) (count : Int) : Prop :=
  ∀ st ∈ v, ∀ gs ∈ st.groups[group]?, ((picksOf gs consumer id count st.entries).map (·.id)).Nodup ∧
    ∀ e ∈ picksOf gs consumer id count st.entries, e.id ∉ pendingIds gs.consumers

instance (v : Option StreamObj) (group consumer id : Bytes) (count : Int) :
    Decidable (FreshRead v group consumer id count) :=
  inferInstanceAs (Decidable (∀ st ∈ v, ∀ gs ∈ st.groups[group]?,
    ((picksOf gs consumer id count st.entries).map (·.id)).Nodup ∧
      ∀ e ∈ picksOf gs consumer id count st.entries, e.id ∉ pendingIds gs.consumers))

/-- What XACK answers and what XCLAIM does, for the group as it was before and as it is after. -/
def PendingStep (env : Env) (op : StreamOp) (v v' : Option StreamObj) (reply : StreamReply) : Prop :=
  match op with
  | .ack group ids => ∀ st ∈ v, ∀ gs ∈ st.groups[group]?,
      ids.Nodup → (∀ id ∈ ids, ∃ c, id ∈ (stateOf gs.consumers c).pending) → reply = .count ids.length
  | .claim group consumer minIdleMs ids force => ∀ st ∈ v, ∀ gs ∈ st.groups[group]?,
      ∃ st' ∈ v', ∃ gs' ∈ st'.groups[group]?, ∀ p, Records gs.consumers p →
        Records gs'.consumers (ids.foldl (Pel.claim env.now consumer minIdleMs force) p)
  | _ => True

/-- In every state of a run the copies agree, and every XACK and XCLAIM does what it should. -/
def PendingAlong (db : Int) (key : Bytes) (s : KvStore F) : List (Env × StreamOp) → Prop
  | [] => GroupsOk (s.streamOf db key)
  | (env, op) :: calls =>
    let r := op.run db key env s
    GroupsOk (s.streamOf db key) ∧
      PendingStep env op (s.streamOf db key) (r.2.streamOf db key) r.1 ∧ PendingAlong db key r.2 calls

def FreshAt (v : Option StreamObj) (op : StreamOp) : Prop :=
  match op with
  | .readGroup group consumer id count => FreshRead v group consumer id count
  | _ => True

instance (v : Option StreamObj) : ∀ op, Decidable (FreshAt v op)
  | .readGroup group consumer id count => inferInstanceAs (Decidable (FreshRead v group consumer id count))
  | .evict | .add _ _ | .del _ | .trim _ | .read _ _ | .groupCreate _ _ _ | .groupDestroy _ | .ack _ _
  | .claim _ _ _ _ _ => inferInstanceAs (Decidable True)

def FreshReads (db : Int) (key : Bytes) (s : KvStore F) : List (Env × StreamOp) → Prop
  | [] => True
  | (env, op) :: calls =>
    FreshAt (s.streamOf db key) op ∧ FreshReads db key (op.run db key env s).2 calls

instance (db : Int) (key : Bytes) : ∀ (calls : List (Env × StreamOp)) (s : KvStore F),
    Decidable (FreshReads db key s calls)
  | [], _ => inferInstanceAs (Decidable True)
  | (env, op) :: calls, s =>
    @instDecidableAnd _ _ _ (instDecidableFreshReads db key calls (op.run db key env s).2)

/-! ## Lemmas -/

section copies

variable {consumers : BMap StreamConsumerState} {p : Pel}

theorem stateOf_insert (consumers : BMap StreamConsumerState) (k : Bytes) (cs : StreamConsumerState) (c : Bytes) :
    stateOf (consumers.insert k cs) c = if c = k then cs else stateOf consumers c := by
  unfold stateOf
  rw [Std.ExtTreeMap.getElem?_insert]
  by_cases h : c = k
  · subst h
    simp
  · rw [if_neg h, if_neg (by simpa using fun he => h he.symm)]

theorem Records.ok (h : Records consumers p) : PendingOk consumers := by
  refine ⟨h.nodup, ?_, ?_⟩
  · intro c id
    rw [h.listed, Std.ExtTreeMap.mem_iff_isSome_getElem?, Option.isSome_iff_exists]
    simp only [h.dated]
  · intro c c' id hc hc'
    obtain ⟨d, hd⟩ := (h.listed c id).mp hc
    obtain ⟨d', hd'⟩ := (h.listed c' id).mp hc'
    rw [hd] at hd'
    exact (Prod.mk.inj (Option.some.inj hd')).1

/-- Copies that agree are the copies of some map. -/
theorem PendingOk.records (h : PendingOk consumers) : ∃ p, Records consumers p := by
  have hmap : ∀ id : Bytes, ∃ o : Option (Bytes × StreamPendingMeta), ∀ c d,
      (stateOf consumers c).pendingMeta[id]? = some d ↔ o = some (c, d) := by
    intro id
    by_cases hex : ∃ c d, (stateOf consumers c).pendingMeta[id]? = some d
    · obtain ⟨c, d, hd⟩ := hex
      refine ⟨some (c, d), ?_⟩
      intro c' d'
      constructor
      · intro hd'
        have hin : ∀ {c d}, (stateOf consumers c).pendingMeta[id]? = some d →
            id ∈ (stateOf consumers c).pending := by
          intro c d hd
          rw [h.keys, Std.ExtTreeMap.mem_iff_isSome_getElem?, hd]
          rfl
        obtain rfl : c = c' := h.single c c' id (hin hd) (hin hd')
        rw [hd] at hd'
        cases hd'
        rfl
      · intro heq
        cases heq
        exact hd
    · refine ⟨none, ?_⟩
      intro c d
      constructor
      · intro hd
        exact absurd ⟨c, d, hd⟩ hex
      · intro heq
        cases heq
  obtain ⟨q, hq⟩ := Classical.skolem.mp hmap
  refine ⟨q, h.nodup, ?_, fun c id d => hq id c d⟩
  intro c id
  rw [h.keys, Std.ExtTreeMap.mem_iff_isSome_getElem?, Option.isSome_iff_exists]
  simp only [hq]

theorem Records.of_stateOf (h : Records consumers p) {consumers' : BMap StreamConsumerState}
    (heq : ∀ c, stateOf consumers' c = stateOf consumers c) : Records consumers' p := by
  refine ⟨?_, ?_, ?_⟩
  · intro c
    rw [heq]
    exact h.nodup c
  · intro c id
    rw [heq]
    exact h.listed c id
  · intro c id d
    rw [heq]
    exact h.dated c id d

variable {cs : StreamConsumerState}

theorem Records.give (h : Records consumers p) {consumer id : Bytes} {d : StreamPendingMeta}
    (hfree : p id = none)
    (hlist : cs.pending = (stateOf consumers consumer).pending ++ [id])
    (hmap : cs.pendingMeta = (stateOf consumers consumer).pendingMeta.insert id d) :
    Records (consumers.insert consumer cs) (p.give consumer id d) := by
  have hnowhere : ∀ c, id ∉ (stateOf consumers c).pending := by
    intro c hin
    obtain ⟨d, hd⟩ := (h.listed c id).mp hin
    rw [hfree] at hd
    cases hd
  have hdates : ∀ x, cs.pendingMeta[x]? = if x = id then some d else (stateOf consumers consumer).pendingMeta[x]? := by
    intro x
    rw [hmap, Std.ExtTreeMap.getElem?_insert]
    by_cases hx : x = id
    · subst hx
      simp
    · rw [if_neg hx, if_neg (by simpa using fun he => hx he.symm)]
  constructor
  · intro c
    rw [stateOf_insert]
    split
    · rw [hlist]
      refine List.nodup_append.mpr ⟨h.nodup consumer, List.nodup_singleton id, ?_⟩
      rintro a ha b hb rfl
      rw [List.mem_singleton.mp hb] at ha
      exact hnowhere consumer ha
    · exact h.nodup c
  · intro c x
    rw [stateOf_insert]
    unfold Pel.give
    by_cases hx : x = id
    · subst hx
      rw [if_pos rfl]
      by_cases hc : c = consumer
      · rw [if_pos hc, hlist, hc]
        exact ⟨fun _ => ⟨d, rfl⟩, fun _ => List.mem_append_right _ (List.mem_singleton.mpr rfl)⟩
      · rw [if_neg hc]
        refine ⟨fun hin => absurd hin (hnowhere c), ?_⟩
        rintro ⟨d', hd'⟩
        exact absurd (Prod.mk.inj (Option.some.inj hd')).1.symm hc
    · rw [if_neg hx, ← h.listed]
      by_cases hc : c = consumer
      · rw [if_pos hc, hlist, hc]
        simp [hx]
      · rw [if_neg hc]
  · intro c x d'
    rw [stateOf_insert]
    unfold Pel.give
    by_cases hc : c = consumer
    · rw [if_pos hc, hdates, hc]
      by_cases hx : x = id
      · simp [hx]
      · rw [if_neg hx, if_neg hx, h.dated]
    · rw [if_neg hc, h.dated]
      by_cases hx : x = id
      · rw [if_pos hx, hx, hfree]
        simp [Ne.symm hc]
      · rw [if_neg hx]

/-! ### XREADGROUP -/

/-- Entries that are not pending are handed out and become pending. -/
theorem Records.deliver (now : Int) (consumer : Bytes) (picked : List StreamEntry)
    {consumers : BMap StreamConsumerState} {p : Pel} (h : Records consumers p)
    (hnodup : (picked.map (·.id)).Nodup) (hfresh : ∀ e ∈ picked, p e.id = none) :
    Records (consumers.insert consumer ((stateOf consumers consumer).deliver now picked))
      (p.deliver now consumer (picked.map (·.id))) := by
  induction picked generalizing consumers p with
  | nil =>
    refine h.of_stateOf ?_
    intro c
    rw [stateOf_insert]
    split
    · next hc => rw [hc]; rfl
    · rfl
  | cons e picked ih =>
    obtain ⟨hnot, hrest⟩ := List.nodup_cons.mp hnodup
    let cs : StreamConsumerState :=
      { lastId := e.id
        pending := (stateOf consumers consumer).pending ++ [e.id]
        pendingMeta := (stateOf consumers consumer).pendingMeta.insert e.id
          { deliveryMs := now, deliveryCount := 1 } }
    have hfirst : Records (consumers.insert consumer cs) _ := h.give (hfresh e List.mem_cons_self) rfl rfl
    have hlater := ih hfirst hrest (by
      intro e' he'
      have hne : e'.id ≠ e.id := by
        intro heq
        exact hnot (List.mem_map.mpr ⟨e', he', heq⟩)
      unfold Pel.give
      rw [if_neg hne]
      exact hfresh e' (List.mem_cons_of_mem e he'))
    refine hlater.of_stateOf ?_
    intro c
    rw [stateOf_insert, stateOf_insert, stateOf_insert, stateOf_insert, if_pos rfl]
    by_cases hc : c = consumer
    · rw [if_pos hc, if_pos hc]
      rfl
    · rw [if_neg hc, if_neg hc, if_neg hc]

/-! ### XACK -/

/-- The consumer without the id. -/
def StreamConsumerState.drop (cs : StreamConsumerState) (id : Bytes) : StreamConsumerState :=
  { cs with pending := cs.pending.erase id, pendingMeta := cs.pendingMeta.erase id }

theorem ack_cons (cs : StreamConsumerState) (id : Bytes) (ids : List Bytes) :
    cs.ack (id :: ids) =
      if id ∈ cs.pending then (((cs.drop id).ack ids).1, ((cs.drop id).ack ids).2 + 1) else cs.ack ids := by
  have hshift : ∀ (ids : List Bytes) (cs : StreamConsumerState) (n : Int),
      ids.foldl (fun a id => if id ∈ a.1.pending then (a.1.drop id, a.2 + 1) else a) (cs, n) =
        ((cs.ack ids).1, (cs.ack ids).2 + n) := by
    intro ids
    induction ids with
    | nil =>
      intro cs n
      show (cs, n) = (cs, 0 + n)
      rw [Int.zero_add]
    | cons id ids ih =>
      intro cs n
      have hack : cs.ack (id :: ids) = ids.foldl
          (fun a id => if id ∈ a.1.pending then (a.1.drop id, a.2 + 1) else a)
          (if id ∈ cs.pending then (cs.drop id, 0 + 1) else (cs, 0)) := rfl
      rw [List.foldl_cons, hack]
      by_cases hin : id ∈ cs.pending
      · simp only [if_pos hin]
        rw [ih, ih]
        simp only [Prod.mk.injEq, true_and]
        omega
      · simp only [if_neg hin]
        rw [ih, ih]
        simp
  show ids.foldl (fun a id => if id ∈ a.1.pending then (a.1.drop id, a.2 + 1) else a)
    (if id ∈ cs.pending then (cs.drop id, 0 + 1) else (cs, 0)) = _
  by_cases hin : id ∈ cs.pending
  · rw [if_pos hin, if_pos hin, hshift]
    rfl
  · rw [if_neg hin, if_neg hin, hshift, Int.add_zero]

theorem ack_pending (ids : List Bytes) (h : cs.pending.Nodup) :
    (cs.ack ids).1.pending = cs.pending.filter (fun id => decide (id ∉ ids)) := by
  induction ids generalizing cs with
  | nil => simp [StreamConsumerState.ack]
  | cons id ids ih =>
    rw [ack_cons]
    by_cases hin : id ∈ cs.pending
    · rw [if_pos hin]
      show ((cs.drop id).ack ids).1.pending = _
      rw [ih (h.erase id)]
      show (cs.pending.erase id).filter _ = _
      rw [h.erase_eq_filter, List.filter_filter]
      apply List.filter_congr
      intro x _
      by_cases hx : x = id
      · simp [hx]
      · simp [hx]
    · rw [if_neg hin, ih h]
      apply List.filter_congr
      intro x hx
      have hne : x ≠ id := by
        rintro rfl
        exact hin hx
      simp [hne]

theorem ack_pendingMeta (ids : List Bytes)
    (hkeys : ∀ id ∉ cs.pending, cs.pendingMeta[id]? = none) (h : cs.pending.Nodup) (x : Bytes) :
    (cs.ack ids).1.pendingMeta[x]? = if x ∈ ids then none else cs.pendingMeta[x]? := by
  induction ids generalizing cs with
  | nil => rfl
  | cons id ids ih =>
    rw [ack_cons]
    by_cases hin : id ∈ cs.pending
    · rw [if_pos hin]
      show ((cs.drop id).ack ids).1.pendingMeta[x]? = _
      have hdrop : ∀ y, (cs.drop id).pendingMeta[y]? = if y = id then none else cs.pendingMeta[y]? := by
        intro y
        show (cs.pendingMeta.erase id)[y]? = _
        rw [Std.ExtTreeMap.getElem?_erase]
        by_cases hy : y = id
        · subst hy
          simp
        · rw [if_neg hy, if_neg (by simpa using fun he => hy he.symm)]
      have hkeys' : ∀ y ∉ (cs.drop id).pending, (cs.drop id).pendingMeta[y]? = none := by
        intro y hy
        rw [hdrop]
        by_cases hyid : y = id
        · exact if_pos hyid
        · rw [if_neg hyid]
          exact hkeys y fun hmem => hy ((List.mem_erase_of_ne hyid).mpr hmem)
      rw [ih hkeys' (h.erase id), hdrop]
      by_cases hx : x = id
      · simp [hx]
      · simp [hx]
    · rw [if_neg hin, ih hkeys h]
      by_cases hx : x = id
      · subst hx
        rw [hkeys x hin]
        simp
      · simp [hx]

theorem ack_count {ids : List Bytes} (hids : ids.Nodup) (cs : StreamConsumerState) (h : cs.pending.Nodup) :
    (cs.ack ids).2 = (ids.countP fun id => decide (id ∈ cs.pending) : Nat) := by
  induction ids generalizing cs with
  | nil => rfl
  | cons id ids ih =>
    obtain ⟨hnot, hrest⟩ := List.nodup_cons.mp hids
    rw [ack_cons]
    by_cases hin : id ∈ cs.pending
    · rw [if_pos hin, List.countP_cons_of_pos (by simpa using hin)]
      show ((cs.drop id).ack ids).2 + 1 = _
      rw [ih hrest _ (h.erase id)]
      have hsame : ids.countP (fun x => decide (x ∈ (cs.drop id).pending)) =
          ids.countP fun x => decide (x ∈ cs.pending) := by
        apply List.countP_congr
        intro x hx
        have hne : x ≠ id := by
          rintro rfl
          exact hnot hx
        show decide (x ∈ cs.pending.erase id) = true ↔ _
        rw [decide_eq_true_iff, decide_eq_true_iff, List.mem_erase_of_ne hne]
      rw [hsame]
      rfl
    · rw [if_neg hin, ih hrest cs h, List.countP_cons_of_neg (by simpa using hin)]

theorem stateOf_map_ack (consumers : BMap StreamConsumerState) (ids : List Bytes) (c : Bytes) :
    stateOf (consumers.map fun _ cs => (cs.ack ids).1) c = ((stateOf consumers c).ack ids).1 := by
  unfold stateOf
  rw [Std.ExtTreeMap.getElem?_map]
  cases consumers[c]? with
  | none =>
    show {} = (StreamConsumerState.ack ids {}).1
    induction ids with
    | nil => rfl
    | cons id ids ih =>
      rw [ack_cons, if_neg (by simp)]
      exact ih
  | some cs => rfl

theorem Records.none_of_not_listed (h : Records consumers p) {c id : Bytes}
    (hid : id ∉ (stateOf consumers c).pending) : (stateOf consumers c).pendingMeta[id]? = none := by
  cases hd : (stateOf consumers c).pendingMeta[id]? with
  | none => rfl
  | some d => exact absurd ((h.listed c id).mpr ⟨d, (h.dated c id d).mp hd⟩) hid

theorem Records.ack (h : Records consumers p) (ids : List Bytes) :
    Records (consumers.map fun _ cs => (cs.ack ids).1) (p.ack ids) := by
  constructor
  · intro c
    rw [stateOf_map_ack, ack_pending ids (h.nodup c)]
    exact (h.nodup c).filter _
  · intro c id
    rw [stateOf_map_ack, ack_pending ids (h.nodup c), List.mem_filter, h.listed]
    unfold Pel.ack
    by_cases hid : id ∈ ids
    · simp [hid]
    · simp [hid]
  · intro c id d
    rw [stateOf_map_ack, ack_pendingMeta ids (fun _ hid => h.none_of_not_listed hid) (h.nodup c)]
    unfold Pel.ack
    by_cases hid : id ∈ ids
    · simp [hid]
    · rw [if_neg hid, if_neg hid, h.dated]

/-- One of several things with different names. -/
theorem countP_eq_one {α β : Type} (name : α → β) {q : α → Bool} {l : List α}
    (hdistinct : l.Pairwise fun a b => name a ≠ name b) (hex : ∃ a ∈ l, q a = true)
    (hone : ∀ a ∈ l, ∀ b ∈ l, q a = true → q b = true → name a = name b) : l.countP q = 1 := by
  induction l with
  | nil =>
    obtain ⟨a, ha, -⟩ := hex
    cases ha
  | cons a l ih =>
    obtain ⟨hne, hrest⟩ := List.pairwise_cons.mp hdistinct
    by_cases ha : q a = true
    · have hzero : l.countP q = 0 := by
        rw [List.countP_eq_zero]
        intro b hb hq
        exact hne b hb (hone a List.mem_cons_self b (List.mem_cons_of_mem a hb) ha hq)
      rw [List.countP_cons_of_pos ha, hzero]
    · rw [List.countP_cons_of_neg ha]
      refine ih hrest ?_ ?_
      · obtain ⟨b, hb, hq⟩ := hex
        rcases List.mem_cons.mp hb with rfl | hb
        · exact absurd hq ha
        · exact ⟨b, hb, hq⟩
      · intro b hb b' hb'
        exact hone b (List.mem_cons_of_mem a hb) b' (List.mem_cons_of_mem a hb')

theorem sum_countP_cons {α β : Type} (q : α → β → Bool) (b : β) (bs : List β) (l : List α) :
    (l.map fun a => (((b :: bs).countP (q a) : Nat) : Int)).sum =
      (l.countP (fun a => q a b) : Nat) + (l.map fun a => ((bs.countP (q a) : Nat) : Int)).sum := by
  induction l with
  | nil => rfl
  | cons a l ih =>
    rw [List.map_cons, List.sum_cons, ih, List.map_cons, List.sum_cons, List.countP_cons, List.countP_cons]
    by_cases hq : q a b = true
    · rw [if_pos hq]
      omega
    · rw [if_neg hq]
      omega

theorem stateOf_of_mem_toList {cs : Bytes × StreamConsumerState} (h : cs ∈ consumers.toList) :
    stateOf consumers cs.1 = cs.2 := by
  unfold stateOf
  rw [Std.ExtTreeMap.mem_toList_iff_getElem?_eq_some.mp h]
  rfl

/-- XACK counts every one of several pending ids once. -/
theorem Records.acked (h : Records consumers p) {ids : List Bytes} (hids : ids.Nodup)
    (hpending : ∀ id ∈ ids, ∃ c, id ∈ (stateOf consumers c).pending) :
    (consumers.toList.map fun cs => (cs.2.ack ids).2).sum = ids.length := by
  have hcount : consumers.toList.map (fun cs => (cs.2.ack ids).2) =
      consumers.toList.map fun cs => ((ids.countP fun id => decide (id ∈ cs.2.pending) : Nat) : Int) := by
    apply List.map_congr_left
    intro cs hcs
    rw [ack_count hids]
    rw [← stateOf_of_mem_toList hcs]
    exact h.nodup cs.1
  rw [hcount]
  clear hcount hids
  induction ids with
  | nil => simp
  | cons id ids ih =>
    have hrest := ih fun x hx => hpending x (List.mem_cons_of_mem id hx)
    have hone : consumers.toList.countP (fun cs => decide (id ∈ cs.2.pending)) = 1 := by
      refine countP_eq_one Prod.fst ?_ ?_ ?_
      · exact Std.ExtTreeMap.distinct_keys_toList.imp fun hne => by simpa using hne
      · obtain ⟨c, hc⟩ := hpending id List.mem_cons_self
        unfold stateOf at hc
        cases hcs : consumers[c]? with
        | none =>
          rw [hcs] at hc
          cases hc
        | some cs =>
          rw [hcs] at hc
          exact ⟨(c, cs), Std.ExtTreeMap.mem_toList_iff_getElem?_eq_some.mpr hcs, by simpa using hc⟩
      · intro a ha b hb hqa hqb
        rw [decide_eq_true_iff] at hqa hqb
        rw [← stateOf_of_mem_toList ha] at hqa
        rw [← stateOf_of_mem_toList hb] at hqb
        exact h.ok.single a.1 b.1 id hqa hqb
    rw [sum_countP_cons (fun (cs : Bytes × StreamConsumerState) x => decide (x ∈ cs.2.pending)), hone, hrest,
      List.length_cons]
    omega

/-! ### XCLAIM -/

theorem Records.drop (h : Records consumers p) {name id : Bytes} {d : StreamPendingMeta}
    (hid : p id = some (name, d)) :
    Records (consumers.insert name ((stateOf consumers name).drop id)) (p.ack [id]) := by
  have hother : ∀ {c}, c ≠ name → id ∉ (stateOf consumers c).pending := by
    intro c hc hin
    obtain ⟨d', hd'⟩ := (h.listed c id).mp hin
    rw [hid] at hd'
    exact hc (Prod.mk.inj (Option.some.inj hd')).1.symm
  constructor
  · intro c
    rw [stateOf_insert]
    split
    · exact (h.nodup name).erase id
    · exact h.nodup c
  · intro c x
    rw [stateOf_insert]
    unfold Pel.ack
    simp only [List.mem_singleton]
    by_cases hc : c = name
    · rw [if_pos hc, hc]
      show x ∈ (stateOf consumers name).pending.erase id ↔ _
      rw [(h.nodup name).mem_erase_iff, h.listed]
      by_cases hx : x = id
      · simp [hx]
      · simp [hx]
    · rw [if_neg hc]
      by_cases hx : x = id
      · rw [if_pos hx, hx]
        simp [hother hc]
      · rw [if_neg hx, h.listed]
  · intro c x d'
    rw [stateOf_insert]
    unfold Pel.ack
    simp only [List.mem_singleton]
    by_cases hc : c = name
    · rw [if_pos hc, hc]
      show ((stateOf consumers name).pendingMeta.erase id)[x]? = some d' ↔ _
      rw [Std.ExtTreeMap.getElem?_erase]
      by_cases hx : x = id
      · simp [hx]
      · rw [if_neg (by simpa using fun he => hx he.symm), if_neg hx, h.dated]
    · rw [if_neg hc]
      by_cases hx : x = id
      · rw [if_pos hx, hx, h.none_of_not_listed (hother hc)]
        simp
      · rw [if_neg hx, h.dated]

theorem Records.holds_iff (h : Records consumers p) (now minIdleMs : Int) (force : Bool) (id name : Bytes) :
    (consumers[name]?.any fun c =>
        decide (id ∈ c.pending) && (force || decide (minIdleMs ≤ c.idle now id))) = true ↔
      ∃ d, p id = some (name, d) ∧ Ripe now minIdleMs force d := by
  have hidle : ∀ {cs d}, consumers[name]? = some cs → p id = some (name, d) →
      cs.idle now id = now - d.deliveryMs := by
    intro cs d hcs hd
    have hstate : stateOf consumers name = cs := by
      unfold stateOf
      rw [hcs]
      rfl
    have hdate := (h.dated name id d).mpr hd
    rw [hstate] at hdate
    unfold StreamConsumerState.idle
    rw [hdate]
    rfl
  have hlisted := h.listed name id
  unfold stateOf at hlisted
  unfold Ripe
  cases hcs : consumers[name]? with
  | none =>
    rw [hcs] at hlisted
    simp only [Option.any_none, Bool.false_eq_true, false_iff]
    rintro ⟨d, hd, -⟩
    exact absurd (hlisted.mpr ⟨d, hd⟩) (by simp)
  | some cs =>
    rw [hcs] at hlisted
    simp only [Option.any_some, Bool.and_eq_true, Bool.or_eq_true, decide_eq_true_eq]
    constructor
    · rintro ⟨hin, hripe⟩
      obtain ⟨d, hd⟩ := hlisted.mp hin
      rw [hidle hcs hd] at hripe
      exact ⟨d, hd, hripe⟩
    · rintro ⟨d, hd, hripe⟩
      rw [hidle hcs hd]
      exact ⟨hlisted.mpr ⟨d, hd⟩, hripe⟩

theorem Records.claimOne (h : Records consumers p) (env : Env) (consumer : Bytes) (minIdleMs : Int) (force : Bool)
    (id : Bytes) : Records ((claimOne env consumer minIdleMs force consumers id).getD consumers)
      (p.claim env.now consumer minIdleMs force id) := by
  unfold Kv.claimOne
  cases hholder : (env.order consumers.keys).find? fun name => consumers[name]?.any fun c =>
      decide (id ∈ c.pending) && (force || decide (minIdleMs ≤ c.idle env.now id)) with
  | none =>
    have hnobody : p.claim env.now consumer minIdleMs force id = p := by
      unfold Pel.claim
      cases hid : p id with
      | none => rfl
      | some held =>
        obtain ⟨name, d⟩ := held
        by_cases hripe : Ripe env.now minIdleMs force d
        · -- the one that has it would have been found
          have hholds := (h.holds_iff env.now minIdleMs force id name).mpr ⟨d, hid, hripe⟩
          have hkey : name ∈ env.order consumers.keys := by
            rw [(env.order_perm _).mem_iff, Std.ExtTreeMap.mem_keys, Std.ExtTreeMap.mem_iff_isSome_getElem?]
            cases hcs : consumers[name]? with
            | none =>
              rw [hcs] at hholds
              cases hholds
            | some cs => rfl
          exact absurd hholds (List.find?_eq_none.mp hholder name hkey)
        · exact if_neg hripe
    rw [hnobody]
    exact h
  | some name =>
    have hfound := List.find?_some hholder
    obtain ⟨d, hid, hripe⟩ := (h.holds_iff env.now minIdleMs force id name).mp hfound
    have hclaim : p.claim env.now consumer minIdleMs force id =
        (p.ack [id]).give consumer id { deliveryMs := env.now, deliveryCount := d.deliveryCount + 1 } := by
      unfold Pel.claim
      rw [hid]
      show (if _ then _ else _) = _
      rw [if_pos hripe]
      funext x
      unfold Pel.give Pel.ack
      simp only [List.mem_singleton]
      split <;> rfl
    cases hcs : consumers[name]? with
    | none =>
      rw [hcs] at hfound
      cases hfound
    | some cs =>
      have hstate : stateOf consumers name = cs := by
        unfold stateOf
        rw [hcs]
        rfl
      have hdate := (h.dated name id d).mpr hid
      have hrest := h.drop hid
      rw [hstate] at hdate hrest
      simp only [Option.bind_some, hcs, Option.map_some, hdate, Option.getD_some]
      rw [hclaim]
      refine hrest.give ?_ rfl rfl
      exact if_pos (List.mem_singleton.mpr rfl)

theorem Records.claimAll (env : Env) (consumer : Bytes) (minIdleMs : Int) (force : Bool)
    (entries : List StreamEntry) (ids : List Bytes) {consumers : BMap StreamConsumerState} {p : Pel}
    (h : Records consumers p) :
    Records (claimAll env consumer minIdleMs force entries ids consumers).1
      (ids.foldl (Pel.claim env.now consumer minIdleMs force) p) := by
  induction ids generalizing consumers p with
  | nil => exact h
  | cons id ids ih =>
    have hone := h.claimOne env consumer minIdleMs force id
    unfold Kv.claimAll
    rw [List.foldl_cons]
    cases hnext : Kv.claimOne env consumer minIdleMs force consumers id with
    | none =>
      rw [hnext] at hone
      exact ih hone
    | some next =>
      rw [hnext] at hone
      exact ih hone

theorem mem_pendingIds {id : Bytes} :
    id ∈ pendingIds consumers ↔ ∃ c, id ∈ (stateOf consumers c).pending := by
  unfold pendingIds
  rw [List.mem_flatMap]
  constructor
  · rintro ⟨cs, hcs, hid⟩
    exact ⟨cs.1, (stateOf_of_mem_toList hcs).symm ▸ hid⟩
  · rintro ⟨c, hc⟩
    unfold stateOf at hc
    cases hcs : consumers[c]? with
    | none =>
      rw [hcs] at hc
      cases hc
    | some cs =>
      rw [hcs] at hc
      exact ⟨(c, cs), Std.ExtTreeMap.mem_toList_iff_getElem?_eq_some.mpr hcs, hc⟩

theorem pendingOk_empty : PendingOk ∅ := by
  have hstate : ∀ c, stateOf ∅ c = {} := by
    intro c
    unfold stateOf
    rw [Std.ExtTreeMap.getElem?_empty]
    rfl
  constructor
  · intro c
    rw [hstate]
    exact List.nodup_nil
  · intro c id
    rw [hstate]
    simp
  · intro c c' id hc
    rw [hstate] at hc
    cases hc

end copies

/-! ### One step -/

namespace GroupsOk

variable {v : Option StreamObj} {st : StreamObj}

theorem gone : GroupsOk none := fun _ h => nomatch h

theorem of_groups (h : GroupsOk v) (hgroups : st.groups = (v.getD {}).groups) : GroupsOk (some st) := by
  intro st' hst' g gs hgs
  cases hst'
  rw [hgroups] at hgs
  cases v with
  | none =>
    rw [show ((none : Option StreamObj).getD {}).groups = ∅ from rfl, Std.ExtTreeMap.getElem?_empty] at hgs
    cases hgs
  | some st => exact h st rfl g gs hgs

theorem insert (h : GroupsOk v) {group : Bytes} {gs : StreamGroupState} (hgs : PendingOk gs.consumers)
    (hgroups : st.groups = (v.getD {}).groups.insert group gs) : GroupsOk (some st) := by
  intro st' hst' g gs' hgs'
  cases hst'
  rw [hgroups, Std.ExtTreeMap.getElem?_insert] at hgs'
  split at hgs'
  · cases hgs'
    exact hgs
  · exact h.of_groups rfl (v.getD {}) rfl g gs' hgs'

theorem erase (h : GroupsOk v) {group : Bytes} (hgroups : st.groups = (v.getD {}).groups.erase group) :
    GroupsOk (some st) := by
  intro st' hst' g gs' hgs'
  cases hst'
  rw [hgroups, Std.ExtTreeMap.getElem?_erase] at hgs'
  split at hgs'
  · cases hgs'
  · exact h.of_groups rfl (v.getD {}) rfl g gs' hgs'

end GroupsOk

theorem pending_readGroup {st : StreamObj} (h : GroupsOk (some st)) {group consumer id : Bytes} {count : Int}
    (hfresh : FreshRead (some st) group consumer id count) (env : Env) :
    GroupsOk ((StreamOp.readGroup group consumer id count).step env (some st)).1 := by
  simp only [StreamOp.step, readGroup]
  cases hgs : st.groups[group]? with
  | none => exact h
  | some gs =>
    obtain ⟨hnodup, hnew⟩ := hfresh st rfl gs hgs
    obtain ⟨p, hp⟩ := (h st rfl group gs hgs).records
    have hfree : ∀ e ∈ picksOf gs consumer id count st.entries, p e.id = none := by
      intro e he
      cases hheld : p e.id with
      | none => rfl
      | some held => exact absurd (mem_pendingIds.mpr ⟨held.1, (hp.listed _ _).mpr ⟨held.2, hheld⟩⟩) (hnew e he)
    exact h.insert (hp.deliver env.now consumer _ hnodup hfree).ok rfl

theorem pending_ack {st : StreamObj} (h : GroupsOk (some st)) (group : Bytes) (ids : List Bytes) (env : Env) :
    let r := (StreamOp.ack group ids).step env (some st)
    GroupsOk r.1 ∧ PendingStep env (.ack group ids) (some st) r.1 r.2 := by
  intro r
  cases hgs : st.groups[group]? with
  | none =>
    have hr : r = (some st, .error noGroup) := by
      show Option.elim _ _ _ = _
      rw [hgs]
      rfl
    rw [hr]
    refine ⟨h, ?_⟩
    intro st1 hst1 gs hgs1
    cases hst1
    rw [hgs] at hgs1
    cases hgs1
  | some gs =>
    let gs' : StreamGroupState := { gs with consumers := gs.consumers.map fun _ cs => (cs.ack ids).1 }
    have hr : r = (some { st with groups := st.groups.insert group gs' },
        .count (gs.consumers.toList.map fun c => (c.2.ack ids).2).sum) := by
      show Option.elim _ _ _ = _
      rw [hgs]
      rfl
    rw [hr]
    obtain ⟨p, hp⟩ := (h st rfl group gs hgs).records
    refine ⟨h.insert (hp.ack ids).ok rfl, ?_⟩
    intro st1 hst1 gs1 hgs1 hids hpending
    cases hst1
    rw [hgs] at hgs1
    cases hgs1
    rw [hp.acked hids hpending]

theorem pending_claim {st : StreamObj} (h : GroupsOk (some st)) (group consumer : Bytes) (minIdleMs : Int)
    (ids : List Bytes) (force : Bool) (env : Env) :
    let r := (StreamOp.claim group consumer minIdleMs ids force).step env (some st)
    GroupsOk r.1 ∧ PendingStep env (.claim group consumer minIdleMs ids force) (some st) r.1 r.2 := by
  intro r
  cases hgs : st.groups[group]? with
  | none =>
    have hr : r = (some st, .error noGroup) := by
      show Option.elim _ _ _ = _
      rw [hgs]
      rfl
    rw [hr]
    refine ⟨h, ?_⟩
    intro st1 hst1 gs hgs1
    cases hst1
    rw [hgs] at hgs1
    cases hgs1
  | some gs =>
    let named := gs.consumers.insert consumer (gs.consumers[consumer]?.getD {})
    let claimed := claimAll env consumer minIdleMs force st.entries ids named
    have hr : r = (some { st with groups := st.groups.insert group { gs with consumers := claimed.1 } },
        .entries claimed.2) := by
      show Option.elim _ _ _ = _
      rw [hgs]
      rfl
    -- naming the consumer changes nothing that is pending
    have hnamed : ∀ c, stateOf named c = stateOf gs.consumers c := by
      intro c
      rw [stateOf_insert]
      split
      · next hc => rw [hc]; rfl
      · rfl
    have hmoved : ∀ p, Records gs.consumers p →
        Records claimed.1 (ids.foldl (Pel.claim env.now consumer minIdleMs force) p) := by
      intro p hp
      exact (hp.of_stateOf hnamed).claimAll env consumer minIdleMs force st.entries ids
    rw [hr]
    obtain ⟨p, hp⟩ := (h st rfl group gs hgs).records
    refine ⟨h.insert (hmoved p hp).ok rfl, ?_⟩
    intro st1 hst1 gs1 hgs1
    cases hst1
    rw [hgs] at hgs1
    cases hgs1
    exact ⟨_, rfl, _, Std.ExtTreeMap.getElem?_insert_self, hmoved⟩

theorem GroupsOk.step {v : Option StreamObj} (h : GroupsOk v) (env : Env) (op : StreamOp) (hfresh : FreshAt v op) :
    GroupsOk (op.step env v).1 ∧ PendingStep env op v (op.step env v).1 (op.step env v).2 := by
  cases op with
  | evict => exact ⟨h, trivial⟩
  | add id fields =>
    refine ⟨?_, trivial⟩
    rw [StreamOp.step_add]
    split
    · exact h
    · split
      · exact h.of_groups rfl
      · exact h.of_groups rfl
  | del ids =>
    refine ⟨?_, trivial⟩
    cases v with
    | none => exact h
    | some st =>
      show GroupsOk (if _ then _ else _)
      split
      · exact gone
      · exact h.of_groups rfl
  | trim maxlen =>
    refine ⟨?_, trivial⟩
    simp only [StreamOp.step]
    split
    · exact h
    · cases v with
      | none => exact h
      | some st =>
        simp only
        split
        · exact h
        · exact h.of_groups rfl
  | read id count => exact ⟨h, trivial⟩
  | groupCreate group id mkstream =>
    refine ⟨?_, trivial⟩
    simp only [StreamOp.step]
    split
    · exact h
    · split
      · exact h
      · exact h.insert pendingOk_empty rfl
  | groupDestroy group =>
    refine ⟨?_, trivial⟩
    cases v with
    | none => exact h
    | some st =>
      simp only [StreamOp.step]
      split
      · exact h.erase rfl
      · exact h
  | readGroup group consumer id count =>
    refine ⟨?_, trivial⟩
    cases v with
    | none => exact h
    | some st => exact pending_readGroup h hfresh env
  | ack group ids =>
    cases v with
    | none =>
      refine ⟨h, ?_⟩
      intro st hst
      cases hst
    | some st => exact pending_ack h group ids env
  | claim group consumer minIdleMs ids force =>
    cases v with
    | none =>
      refine ⟨h, ?_⟩
      intro st hst
      cases hst
    | some st => exact pending_claim h group consumer minIdleMs ids force env

/-! ## Top theorem -/

/-- **The pending lists stay consistent as long as XREADGROUP hands out what is not pending yet.** -/
theorem pending_consistent (db : Int) (key : Bytes) (s : KvStore F) (v : Option StreamObj)
    (calls : List (Env × StreamOp)) (hs : StreamAt db key s v) (h : GroupsOk v)
    (hfresh : FreshReads db key s calls) : PendingAlong db key s calls := by
  induction calls generalizing s v with
  | nil =>
    show GroupsOk (s.streamOf db key)
    rw [hs.streamOf]
    exact h
  | cons call calls ih =>
    obtain ⟨env, op⟩ := call
    obtain ⟨hnow, hlater⟩ := hfresh
    rw [hs.streamOf] at hnow
    refine ⟨hs.streamOf ▸ h, ?_⟩
    rw [hs.streamOf]
    rcases streamAt_run hs op env with htakes | ⟨rfl, htakes⟩
    · obtain ⟨hok, hstep⟩ := h.step env op hnow
      refine ⟨?_, ih _ _ htakes.2 hok hlater⟩
      rw [htakes.2.streamOf, htakes.1]
      exact hstep
    · exact ⟨trivial, ih _ _ htakes.2 GroupsOk.gone hlater⟩

/-- Entries read by two consumers in turn, one acknowledged and one claimed. -/
theorem pending_two_consumers :
    let add : Env × StreamOp := ({ now := 1 }, .add (lit "*") [(lit "f", lit "v")])
    PendingAlong 0 (lit "s") (KvStore.empty : KvStore Int)
      [add, ({ now := 2 }, .groupCreate (lit "g") (lit "0") false),
        ({ now := 3 }, .readGroup (lit "g") (lit "a") (lit ">") 0), add,
        ({ now := 4 }, .readGroup (lit "g") (lit "b") (lit "1-0") 0),
        ({ now := 5 }, .ack (lit "g") [lit "1-0"]),
        ({ now := 9 }, .claim (lit "g") (lit "a") 5 [lit "1-1"] false), ({ now := 9 }, .del [lit "1-0"])] :=
  pending_consistent 0 (lit "s") _ none _ (show KvStore.item _ _ _ = none by decide) GroupsOk.gone
    (by decide)

/-- A consumer reads its entry again with an explicit id: the id is in its list twice. -/
theorem pending_twice :
    ¬PendingAlong 0 (lit "s") (KvStore.empty : KvStore Int)
      [({ now := 1 }, .add (lit "*") [(lit "f", lit "v")]),
        ({ now := 2 }, .groupCreate (lit "g") (lit "0") false),
        ({ now := 3 }, .readGroup (lit "g") (lit "a") (lit ">") 0),
        ({ now := 4 }, .readGroup (lit "g") (lit "a") (lit "0") 0)] := by
  rintro ⟨-, -, -, -, -, -, -, -, hlast⟩
  have hnodup := (hlast _ rfl (lit "g") _ rfl).nodup (lit "a")
  revert hnodup
  decide

end Kv
