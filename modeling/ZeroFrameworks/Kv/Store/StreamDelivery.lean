import ZeroFrameworks.Kv.Store.StreamReads

/-!
# Who receives what from a group

`xreadGroup` with `>` starts after the last id of the *consumer*, and after that of the group where the
consumer has none.  It never moves the group's.  So every consumer begins with the same entry, the
first one after the group's id, and entries reach one consumer only as long as one consumer only reads
when there are entries after it:

    Exclusive (run calls).delivered ↔ all of (run calls).readers are the same
-/

namespace Kv

variable {F : Type} [Platform F]

/-! ## Runs of a group -/

inductive GroupCall where
  | add (id : Bytes) (fields : List (Bytes × Bytes))
  | read (consumer : Bytes) (count : Int)

/-- There are entries after the group's last id. -/
def StreamObj.HasNews (group : Bytes) (st : StreamObj) : Prop :=
  ∃ gs ∈ st.groups[group]?, ∃ e ∈ st.entries, idLe e.id gs.lastId = false

instance (group : Bytes) (st : StreamObj) : Decidable (st.HasNews group) :=
  match h : st.groups[group]? with
  | none => .isFalse (by
      rintro ⟨gs, hgs, -⟩
      rw [h] at hgs
      cases hgs)
  | some gs => decidable_of_iff (∃ e ∈ st.entries, idLe e.id gs.lastId = false) (by
      unfold StreamObj.HasNews
      rw [h]
      simp)

/-- The store, the entries the group's consumers were handed through `>`, and the consumers that have
read while there was something after the group's last id. -/
structure GroupLog (F : Type) [Platform F] where
  store : KvStore F
  delivered : List (Bytes × Bytes)
  readers : List Bytes

namespace GroupLog

variable (db : Int) (key group : Bytes)

def next (g : GroupLog F) (c : Env × GroupCall) : GroupLog F :=
  match c.2 with
  | .add id fields => { g with store := (KvStore.xadd db key id fields c.1 g.store).2 }
  | .read consumer count =>
    let r := (StreamOp.readGroup group consumer (lit ">") count).run db key c.1 g.store
    { store := r.2
      delivered := g.delivered ++ r.1.received.map fun e => (consumer, e.id)
      readers := if ∃ st ∈ g.store.streamOf db key, st.HasNews group then g.readers ++ [consumer]
        else g.readers }

def run (g : GroupLog F) (calls : List (Env × GroupCall)) : GroupLog F := calls.foldl (next db key group) g

end GroupLog

/-- No entry is handed to two consumers. -/
def Exclusive (delivered : List (Bytes × Bytes)) : Prop :=
  ∀ p ∈ delivered, ∀ q ∈ delivered, p.2 = q.2 → p.1 = q.1

instance (delivered : List (Bytes × Bytes)) : Decidable (Exclusive delivered) :=
  inferInstanceAs (Decidable (∀ p ∈ delivered, ∀ q ∈ delivered, p.2 = q.2 → p.1 = q.1))

/-! ## Lemmas -/

/-- The first entry after an id. -/
def firstAfter (id : Bytes) (entries : List StreamEntry) : Option StreamEntry :=
  entries.find? fun e => !idLe e.id id

theorem hasNews_iff {group : Bytes} {st : StreamObj} {gs : StreamGroupState} (h : st.groups[group]? = some gs) :
    st.HasNews group ↔ (firstAfter gs.lastId st.entries).isSome = true := by
  unfold StreamObj.HasNews firstAfter
  rw [h, List.find?_isSome]
  simp

theorem mem_takeWhere_of_first {id : Bytes} {entries : List StreamEntry} {e : StreamEntry} (count : Int)
    (h : firstAfter id entries = some e) : e ∈ takeWhere (fun e => !idLe e.id id) count entries := by
  unfold firstAfter at h
  rw [← List.head?_filter] at h
  obtain ⟨rest, hrest⟩ := List.head?_eq_some_iff.mp h
  rw [takeWhere_eq, hrest]
  unfold upTo
  split
  · rw [show count.toNat = count.toNat - 1 + 1 by omega]
    exact List.mem_cons_self
  · exact List.mem_cons_self

/-- A group that is there after XADD was there before, in a stream with fewer entries. -/
theorem StreamAt.xadd_groups {db : Int} {key : Bytes} {s : KvStore F} {v : Option StreamObj}
    (h : StreamAt db key s v) (env : Env) (id : Bytes) (fields : List (Bytes × Bytes)) (group : Bytes) :
    ∃ v', StreamAt db key (KvStore.xadd db key id fields env s).2 v' ∧
      ∀ st' ∈ v', ∀ gs ∈ st'.groups[group]?,
        ∃ st ∈ v, gs ∈ st.groups[group]? ∧ ∃ new, st'.entries = st.entries ++ new := by
  by_cases hf : fields = []
  · subst hf
    refine ⟨v, h, ?_⟩
    intro st hst gs hgs
    exact ⟨st, hst, hgs, [], (List.append_nil _).symm⟩
  have hne : ¬fields.isEmpty = true := by simpa using hf
  rw [(StreamOp.xadd_eq db key id fields hf env s).2]
  -- what the eviction leaves: the stream, or nothing
  obtain ⟨kept, hkept, hsame⟩ : ∃ kept, StreamAt db key (StreamOp.evict.run db key env s).2 kept ∧
      (kept = v ∨ kept = none) := by
    rcases h.evict env with hstays | hgone
    · exact ⟨v, hstays, .inl rfl⟩
    · exact ⟨none, hgone, .inr rfl⟩
  have htakes := takes_add hkept env id fields
  rw [StreamOp.step_add, if_neg hne] at htakes
  have hgrown : ∃ st' new, ((if id = lit "*" then
        let next := (kept.getD {}).nextId env.now
        (some ((kept.getD {}).push next.1 next.2 fields), StreamReply.id (formatStreamId next.1 next.2))
      else (some (kept.getD {}), .error (lit "ERR invalid stream ID"))) : Option StreamObj × StreamReply).1 =
        some st' ∧ st'.groups = (kept.getD {}).groups ∧ st'.entries = (kept.getD {}).entries ++ new := by
    by_cases hid : id = lit "*"
    · rw [if_pos hid]
      exact ⟨_, _, rfl, rfl, rfl⟩
    · rw [if_neg hid]
      exact ⟨_, [], rfl, rfl, (List.append_nil _).symm⟩
  obtain ⟨st', new, hst', hgroups, hentries⟩ := hgrown
  refine ⟨some st', ?_, ?_⟩
  · rw [← hst']
    exact htakes.2
  · intro st hst gs hgs
    cases hst
    rw [hgroups] at hgs
    cases kept with
    | none =>
      have hempty : (({} : StreamObj).groups)[group]? = none := Std.ExtTreeMap.getElem?_empty
      rw [Option.getD_none, hempty] at hgs
      cases hgs
    | some st => exact ⟨st, (hsame.resolve_right (by simp)).symm, hgs, new, hentries⟩

/-- Whoever has read beside news was handed the first entry after the group's last id. -/
structure Delivering (db : Int) (key group : Bytes) (g : GroupLog F) : Prop where
  stream : ∃ v, StreamAt db key g.store v ∧ ∀ st ∈ v, ∀ gs ∈ st.groups[group]?,
    (∀ c, gs.lastOf c ≠ [] → c ∈ g.readers) ∧
    ∀ c ∈ g.readers, ∃ e ∈ firstAfter gs.lastId st.entries, (c, e.id) ∈ g.delivered
  known : ∀ p ∈ g.delivered, p.1 ∈ g.readers
  shared : g.readers = [] ∨ ∃ id, ∀ c ∈ g.readers, (c, id) ∈ g.delivered

namespace Delivering

variable {db : Int} {key group : Bytes} {g : GroupLog F}

theorem add (h : Delivering db key group g) (env : Env) (id : Bytes) (fields : List (Bytes × Bytes)) :
    Delivering db key group (g.next db key group (env, .add id fields)) := by
  obtain ⟨v, hv, hled⟩ := h.stream
  obtain ⟨v', hv', hback⟩ := hv.xadd_groups env id fields group
  refine ⟨⟨v', hv', ?_⟩, h.known, h.shared⟩
  intro st' hst' gs hgs
  obtain ⟨st, hst, hgs, new, hentries⟩ := hback st' hst' gs hgs
  obtain ⟨hlast, hfirst⟩ := hled st hst gs hgs
  refine ⟨hlast, ?_⟩
  intro c hc
  obtain ⟨e, he, hdelivered⟩ := hfirst c hc
  refine ⟨e, ?_, hdelivered⟩
  unfold firstAfter at he ⊢
  rw [hentries, List.find?_append, he]
  rfl

theorem read_none (h : Delivering db key group g) {v : Option StreamObj} (hv : StreamAt db key g.store v)
    (hgone : ∀ st ∈ v, st.groups[group]? = none) (env : Env) (consumer : Bytes) (count : Int) :
    Delivering db key group (g.next db key group (env, .read consumer count)) := by
  have hstep : ∃ r, (StreamOp.readGroup group consumer (lit ">") count).step env v = (v, r) ∧
      r.received = [] := by
    cases v with
    | none => exact ⟨_, rfl, rfl⟩
    | some st =>
      refine ⟨.error noGroup, ?_, rfl⟩
      show Option.elim (readGroup env.now group consumer (lit ">") count st) _ _ = _
      unfold readGroup
      rw [hgone st rfl]
      rfl
  obtain ⟨r, hr, hempty⟩ := hstep
  have htakes := takes_readGroup hv env group consumer (lit ">") count
  rw [hr] at htakes
  have hnews : ¬∃ st ∈ g.store.streamOf db key, st.HasNews group := by
    rw [hv.streamOf]
    rintro ⟨st, hst, gs, hgs, -⟩
    rw [hgone st hst] at hgs
    cases hgs
  have hdelivered : (g.next db key group (env, .read consumer count)).delivered = g.delivered := by
    show g.delivered ++ List.map _ (StreamReply.received _) = _
    rw [htakes.1, hempty, List.map_nil, List.append_nil]
  have hreaders : (g.next db key group (env, .read consumer count)).readers = g.readers := if_neg hnews
  refine ⟨⟨v, htakes.2, ?_⟩, ?_, ?_⟩
  · intro st hst gs hgs
    rw [hgone st hst] at hgs
    cases hgs
  · rw [hdelivered, hreaders]
    exact h.known
  · rw [hdelivered, hreaders]
    exact h.shared

theorem read_some (h : Delivering db key group g) {st : StreamObj} {gs : StreamGroupState}
    (hv : StreamAt db key g.store (some st)) (hgs : st.groups[group]? = some gs)
    (hlast : ∀ c, gs.lastOf c ≠ [] → c ∈ g.readers)
    (hfirst : ∀ c ∈ g.readers, ∃ e ∈ firstAfter gs.lastId st.entries, (c, e.id) ∈ g.delivered)
    (env : Env) (consumer : Bytes) (count : Int) :
    Delivering db key group (g.next db key group (env, .read consumer count)) := by
  obtain ⟨st', gs', hstep, hentries, hgs', hid, hlast'⟩ :=
    step_readGroup env consumer count hgs
  have htakes := takes_readGroup hv env group consumer (lit ">") count
  rw [hstep] at htakes
  generalize hstart : (if gs.lastOf consumer = [] then gs.lastId else gs.lastOf consumer) = start at *
  generalize hpicked : takeWhere (fun e => !idLe e.id start) count st.entries = picked at *
  have hdelivered : (g.next db key group (env, .read consumer count)).delivered =
      g.delivered ++ picked.map fun e => (consumer, e.id) := by
    show g.delivered ++ List.map _ (StreamReply.received _) = _
    rw [htakes.1]
    rfl
  have hnews : (∃ s ∈ g.store.streamOf db key, s.HasNews group) ↔
      (firstAfter gs.lastId st.entries).isSome = true := by
    rw [hv.streamOf, ← hasNews_iff hgs]
    simp
  have hreaders : (g.next db key group (env, .read consumer count)).readers =
      if (firstAfter gs.lastId st.entries).isSome = true then g.readers ++ [consumer] else g.readers := by
    show (if _ then _ else _) = _
    simp only [hnews]
  have hstream : StreamAt db key (g.next db key group (env, .read consumer count)).store (some st') := htakes.2
  cases hnew : firstAfter gs.lastId st.entries with
  | some e =>
    rw [hnew, Option.isSome_some, if_pos rfl] at hreaders
    have hall : ∀ c ∈ g.readers ++ [consumer], (c, e.id) ∈ g.delivered ++ picked.map fun e => (consumer, e.id) := by
      intro c hc
      by_cases hold : c ∈ g.readers
      · obtain ⟨e', he', hin⟩ := hfirst c hold
        rw [hnew] at he'
        cases he'
        exact List.mem_append_left _ hin
      · obtain rfl : c = consumer := by simpa [hold] using hc
        -- it has read nothing yet, so it starts where the group does
        have hnothing : gs.lastOf c = [] := not_not.mp fun hne => hold (hlast c hne)
        rw [if_pos hnothing] at hstart
        subst hstart
        apply List.mem_append_right
        rw [← hpicked]
        exact List.mem_map_of_mem (mem_takeWhere_of_first count hnew)
    refine ⟨⟨some st', hstream, ?_⟩, ?_, ?_⟩
    · intro st1 hst1 gs1 hgs1
      cases hst1
      rw [hgs'] at hgs1
      cases hgs1
      rw [hreaders, hdelivered, hid, hentries]
      refine ⟨?_, fun c hc => ⟨e, hnew, hall c hc⟩⟩
      intro c hne
      by_cases hc : c = consumer
      · exact List.mem_append_right _ (List.mem_singleton.mpr hc)
      · rw [hlast' c, if_neg hc] at hne
        exact List.mem_append_left _ (hlast c hne)
    · rw [hdelivered, hreaders]
      intro p hp
      rcases List.mem_append.mp hp with hp | hp
      · exact List.mem_append_left _ (h.known p hp)
      · obtain ⟨e, -, rfl⟩ := List.mem_map.mp hp
        exact List.mem_append_right _ (List.mem_singleton.mpr rfl)
    · rw [hdelivered, hreaders]
      exact .inr ⟨e.id, hall⟩
  | none =>
    rw [hnew] at hreaders hfirst
    have hreaders : (g.next db key group (env, .read consumer count)).readers = g.readers := hreaders
    have hnobody : ∀ c, gs.lastOf c = [] := by
      intro c
      by_contra hne
      obtain ⟨e, he, -⟩ := hfirst c (hlast c hne)
      cases he
    rw [if_pos (hnobody consumer)] at hstart
    subst hstart
    have hempty : picked = [] := by
      rw [← hpicked, takeWhere_eq, List.filter_eq_nil_iff.mpr (List.find?_eq_none.mp hnew)]
      unfold upTo
      split
      · exact List.take_nil
      · rfl
    subst hempty
    rw [List.map_nil, List.append_nil] at hdelivered
    refine ⟨⟨some st', hstream, ?_⟩, ?_, ?_⟩
    · intro st1 hst1 gs1 hgs1
      cases hst1
      rw [hgs'] at hgs1
      cases hgs1
      rw [hreaders, hdelivered]
      refine ⟨?_, ?_⟩
      · intro c hne
        rw [hlast' c] at hne
        refine absurd ?_ hne
        split
        · exact hnobody consumer
        · exact hnobody c
      · intro c hc
        obtain ⟨e, he, -⟩ := hfirst c hc
        cases he
    · rw [hdelivered, hreaders]
      exact h.known
    · rw [hdelivered, hreaders]
      exact h.shared

theorem next (h : Delivering db key group g) (c : Env × GroupCall) :
    Delivering db key group (g.next db key group c) := by
  obtain ⟨env, call⟩ := c
  cases call with
  | add id fields => exact h.add env id fields
  | read consumer count =>
    obtain ⟨v, hv, hled⟩ := h.stream
    cases v with
    | none => exact h.read_none hv (fun st hst => nomatch hst) env consumer count
    | some st =>
      cases hgs : st.groups[group]? with
      | none =>
        refine h.read_none hv ?_ env consumer count
        intro st1 hst1
        cases hst1
        exact hgs
      | some gs =>
        obtain ⟨hlast, hfirst⟩ := hled st rfl gs hgs
        exact h.read_some hv hgs hlast hfirst env consumer count

theorem run (h : Delivering db key group g) (calls : List (Env × GroupCall)) :
    Delivering db key group (g.run db key group calls) := by
  induction calls generalizing g with
  | nil => exact h
  | cons c calls ih => exact ih (h.next c)

end Delivering

/-! ## Top theorem -/

/-- **Entries of a new group reach one consumer each if and only if one consumer alone reads while
there are entries after the group's last id.** -/
theorem exclusive_iff (db : Int) (key group : Bytes) (s : KvStore F) (st : StreamObj) (gs : StreamGroupState)
    (calls : List (Env × GroupCall)) (hs : StreamAt db key s (some st)) (hgs : st.groups[group]? = some gs)
    (hnew : gs.consumers = ∅) :
    Exclusive (GroupLog.run db key group ⟨s, [], []⟩ calls).delivered ↔
      ∀ a ∈ (GroupLog.run db key group ⟨s, [], []⟩ calls).readers,
        ∀ b ∈ (GroupLog.run db key group ⟨s, [], []⟩ calls).readers, a = b := by
  have hstart : Delivering db key group (⟨s, [], []⟩ : GroupLog F) := by
    refine ⟨⟨some st, hs, ?_⟩, (fun p hp => nomatch hp), .inl rfl⟩
    intro st1 hst1 gs1 hgs1
    cases hst1
    rw [hgs] at hgs1
    cases hgs1
    refine ⟨?_, fun c hc => nomatch hc⟩
    intro c hne
    unfold StreamGroupState.lastOf at hne
    rw [hnew, Std.ExtTreeMap.getElem?_empty] at hne
    exact absurd rfl hne
  have hrun := hstart.run calls
  constructor
  · intro hex a ha b hb
    rcases hrun.shared with hnone | ⟨id, hid⟩
    · rw [hnone] at ha
      cases ha
    · exact hex _ (hid a ha) _ (hid b hb) rfl
  · intro hone p hp q hq _
    exact hone p.1 (hrun.known p hp) q.1 (hrun.known q hq)

/-- Two reads of one consumer, and one of another while nothing is new to the group. -/
theorem exclusive_single_reader :
    let s := StreamOp.runAll 0 (lit "s") (KvStore.empty : KvStore Int)
      [({ now := 1 }, .groupCreate (lit "g") (lit "$") true)]
    Exclusive (GroupLog.run 0 (lit "s") (lit "g") ⟨s, [], []⟩ [({ now := 2 }, .read (lit "b") 0),
      ({ now := 3 }, .add (lit "*") [(lit "f", lit "v")]), ({ now := 4 }, .read (lit "a") 0),
      ({ now := 5 }, .add (lit "*") [(lit "f", lit "v")]), ({ now := 6 }, .read (lit "a") 1)]).delivered :=
  (exclusive_iff 0 (lit "s") (lit "g") _ { groups := (∅ : BMap _).insert (lit "g") { lastId := lit "0-0" } } _ _
    ⟨_, rfl, rfl, rfl, by decide⟩ Std.ExtTreeMap.getElem?_insert_self rfl).mpr (by decide +kernel)

/-- Two consumers of a group read one after the other: both are handed the one entry. -/
theorem both_handed :
    let s := StreamOp.runAll 0 (lit "s") (KvStore.empty : KvStore Int)
      [({ now := 1 }, .add (lit "*") [(lit "f", lit "v")]),
        ({ now := 2 }, .groupCreate (lit "g") (lit "0") false)]
    ¬Exclusive (GroupLog.run 0 (lit "s") (lit "g") ⟨s, [], []⟩
      [({ now := 3 }, .read (lit "a") 0), ({ now := 4 }, .read (lit "b") 0)]).delivered := by
  decide +kernel

end Kv
