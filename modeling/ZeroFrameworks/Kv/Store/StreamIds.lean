import ZeroFrameworks.Kv.Store.StreamOps

/-!
# The ids of a stream only grow, until the sequence number wraps

`*` is the only id `xadd` takes: it makes `(now, 0)` when the clock is ahead of the last id and
counts the sequence number up otherwise.  The number is a `uint64_t`, and after `2^64 - 1` comes `0`.
Nothing else assigns ids, and XDEL and XTRIM leave the last id where it is.  So along any run on one
key, from the time it is made to the time it is gone,

    NeverWraps db key s calls → Grows db key [] s calls

where `Grows` says of every state that its entries are strictly increasing and of every call that the
id it assigns is above all the ids the stream ever held, deleted ones included.
-/

namespace Kv

variable {F : Type} [Platform F]

/-! ## Ids as pairs of numbers -/

/-- The `(ms, seq)` an id text stands for. -/
def readId (id : Bytes) : Nat × Nat :=
  (natOf (id.takeWhile (· != 45)), natOf ((id.dropWhile (· != 45)).drop 1))

def IdLt (p q : Nat × Nat) : Prop := p.1 < q.1 ∨ p.1 = q.1 ∧ p.2 < q.2

instance (p q : Nat × Nat) : Decidable (IdLt p q) := inferInstanceAs (Decidable (_ ∨ _))

/-- Entries strictly increasing in `(ms, seq)`. -/
def Increasing (entries : List StreamEntry) : Prop :=
  entries.Pairwise fun a b => IdLt (readId a.id) (readId b.id)

instance (entries : List StreamEntry) : Decidable (Increasing entries) :=
  inferInstanceAs (Decidable (entries.Pairwise _))

theorem formatStreamId_eq (ms seq : Nat) : formatStreamId ms seq = printNat ms ++ 45 :: printNat seq := by
  unfold formatStreamId
  rw [List.append_assoc]
  rfl

theorem readId_format (ms seq : Nat) : readId (formatStreamId ms seq) = (ms, seq) := by
  obtain ⟨-, hdigits, hms⟩ := printNat_spec ms
  obtain ⟨-, -, hseq⟩ := printNat_spec seq
  have hne : ∀ d ∈ printNat ms, (d != 45) = true := by
    intro d hd
    simpa using (isDigit_not_sign d (hdigits d hd)).1
  unfold readId
  rw [formatStreamId_eq, List.takeWhile_append_of_pos hne, List.dropWhile_append_of_pos hne]
  simp [hms, hseq]

/-! ## Runs on one key -/

namespace KvStore

def streamOf (db : Int) (key : Bytes) (s : KvStore F) : Option StreamObj :=
  (s.item db key).map fun o => Field.stream.get o.toObj

def entriesOf (db : Int) (key : Bytes) (s : KvStore F) : List StreamEntry :=
  ((s.streamOf db key).map (·.entries)).getD []

end KvStore

/-- The id a call assigned. -/
def StreamReply.assigned (r : StreamReply) : List Bytes :=
  match r with
  | .id new => [new]
  | _ => []

/-- The ids the stream has held since the key was made. -/
def heldAfter (db : Int) (key : Bytes) (held : List Bytes) (r : StreamReply × KvStore F) : List Bytes :=
  if (r.2.item db key).isNone then [] else held ++ r.1.assigned

/-- In every state the entries increase, and every assigned id is above all that were held. -/
def Grows (db : Int) (key : Bytes) (held : List Bytes) (s : KvStore F) :
    List (Env × StreamOp) → Prop
  | [] => Increasing (s.entriesOf db key)
  | (env, op) :: calls =>
    let r := op.run db key env s
    Increasing (s.entriesOf db key) ∧
      (∀ id ∈ r.1.assigned, ∀ old ∈ held, IdLt (readId old) (readId id)) ∧
      Grows db key (heldAfter db key held r) r.2 calls

/-- The clock is ahead of the last id, or the sequence number has room. -/
def StreamObj.HasRoom (now : Int) (st : StreamObj) : Prop :=
  st.lastMs < (now % 2 ^ 64).toNat ∨ st.lastSeq + 1 < 2 ^ 64

/-- Every XADD `*` of the run finds room for its id. -/
def NeverWraps (db : Int) (key : Bytes) (s : KvStore F) : List (Env × StreamOp) → Prop
  | [] => True
  | (env, op) :: calls =>
    (∀ fields, op = .add (lit "*") fields → ∀ st ∈ s.streamOf db key, st.HasRoom env.now) ∧
      NeverWraps db key (op.run db key env s).2 calls

/-! ## Lemmas -/

section order

variable {p q r : Nat × Nat}

theorem IdLt.trans (h : IdLt p q) (h' : IdLt q r) : IdLt p r := by
  unfold IdLt at *
  omega

theorem IdLt.irrefl (p : Nat × Nat) : ¬IdLt p p := by
  unfold IdLt
  omega

theorem IdLt.of_not_lt (h : ¬IdLt q p) (h' : IdLt q r) : IdLt p r := by
  unfold IdLt at *
  omega

end order

/-- The id `xadd` makes for `*`. -/
def StreamObj.nextId (now : Int) (st : StreamObj) : Nat × Nat :=
  if st.lastMs < (now % 2 ^ 64).toNat then ((now % 2 ^ 64).toNat, 0)
  else (st.lastMs, (st.lastSeq + 1) % 2 ^ 64)

theorem StreamObj.nextId_gt {now : Int} {st : StreamObj} (h : st.HasRoom now) :
    IdLt (st.lastMs, st.lastSeq) (st.nextId now) := by
  unfold nextId IdLt
  unfold HasRoom at h
  by_cases hclock : st.lastMs < (now % 2 ^ 64).toNat
  · rw [if_pos hclock]
    exact .inl hclock
  · rw [if_neg hclock]
    refine .inr ⟨rfl, ?_⟩
    rw [Nat.mod_eq_of_lt (h.resolve_left hclock)]
    exact Nat.lt_succ_self _

namespace StreamOp

theorem step_add (env : Env) (id : Bytes) (fields : List (Bytes × Bytes)) (v : Option StreamObj) :
    (StreamOp.add id fields).step env v =
      if fields.isEmpty then (v, .error (lit "ERR wrong number of arguments for XADD"))
      else if id = lit "*" then
        let next := (v.getD {}).nextId env.now
        (some ((v.getD {}).push next.1 next.2 fields), .id (formatStreamId next.1 next.2))
      else (some (v.getD {}), .error (lit "ERR invalid stream ID")) := by
  rw [step_addFields]
  by_cases hf : fields.isEmpty
  · rw [if_pos hf, if_pos hf]
  · rw [if_neg hf, if_neg hf]
    by_cases hid : id = lit "*"
    · subst hid
      rw [if_pos rfl]
      unfold xaddBody
      rw [KvStore.parseStreamIdToken_eq, if_pos rfl]
      rfl
    · rw [if_neg hid, KvStore.xaddBody_of_ne hid]
      cases v <;> rfl

theorem removeIds_sublist (ids : List Bytes) (entries : List StreamEntry) :
    (removeIds ids entries).1.Sublist entries := by
  unfold removeIds
  generalize (0 : Int) = n
  induction ids generalizing entries n with
  | nil => exact List.Sublist.refl _
  | cons id ids ih =>
    rw [List.foldl_cons]
    by_cases hany : (entries.any (·.id == id)) = true
    · rw [if_pos hany]
      exact (ih _ _).trans List.eraseP_sublist
    · rw [if_neg hany]
      exact ih _ _

/-- Nothing is assigned, the last id stays, and entries at most go. -/
def Shrinks (v : Option StreamObj) (r : Option StreamObj × StreamReply) : Prop :=
  r.2.assigned = [] ∧ ∀ st ∈ r.1, st.entries.Sublist (v.getD {}).entries ∧
    st.lastMs = (v.getD {}).lastMs ∧ st.lastSeq = (v.getD {}).lastSeq

section shrinks

variable {v : Option StreamObj} {reply : StreamReply}

theorem Shrinks.keep (h : reply.assigned = []) : Shrinks v (v, reply) := by
  refine ⟨h, ?_⟩
  intro st hst
  cases hst
  exact ⟨List.Sublist.refl _, rfl, rfl⟩

theorem Shrinks.gone (h : reply.assigned = []) : Shrinks v (none, reply) := by
  refine ⟨h, ?_⟩
  intro st hst
  cases hst

theorem Shrinks.regroup (h : reply.assigned = []) (groups : BMap StreamGroupState) :
    Shrinks v (some { v.getD {} with groups := groups }, reply) := by
  refine ⟨h, ?_⟩
  intro st hst
  cases hst
  exact ⟨List.Sublist.refl _, rfl, rfl⟩

theorem Shrinks.sublist (h : reply.assigned = []) {entries : List StreamEntry}
    (hsub : entries.Sublist (v.getD {}).entries) :
    Shrinks v (some { v.getD {} with entries := entries }, reply) := by
  refine ⟨h, ?_⟩
  intro st hst
  cases hst
  exact ⟨hsub, rfl, rfl⟩

end shrinks

/-- Only XADD makes entries or moves the last id. -/
theorem step_shrinks (env : Env) {op : StreamOp} (hadd : ∀ id fields, op ≠ .add id fields)
    (v : Option StreamObj) : Shrinks v (op.step env v) := by
  cases op with
  | add id fields => exact absurd rfl (hadd id fields)
  | evict => exact .keep rfl
  | read id count => exact .keep rfl
  | del ids =>
    cases v with
    | none => exact .keep rfl
    | some st =>
      show Shrinks _ (if _ then _ else _, _)
      by_cases hempty : (removeIds ids st.entries).1.isEmpty
      · rw [if_pos hempty]
        exact .gone rfl
      · rw [if_neg hempty]
        exact .sublist rfl (removeIds_sublist ids st.entries)
  | trim maxlen =>
    show Shrinks _ (if _ then _ else _)
    by_cases hneg : maxlen < 0
    · rw [if_pos hneg]
      exact .keep rfl
    · rw [if_neg hneg]
      cases v with
      | none => exact .keep rfl
      | some st =>
        by_cases hshort : (st.entries.length : Int) ≤ maxlen
        · simp only [if_pos hshort]
          exact .keep rfl
        · simp only [if_neg hshort]
          exact .sublist rfl (List.drop_sublist _ st.entries)
  | groupCreate group id mkstream =>
    simp only [step]
    split
    · exact .keep rfl
    · split
      · exact .keep rfl
      · exact .regroup rfl _
  | groupDestroy group =>
    cases v with
    | none => exact .keep rfl
    | some st =>
      simp only [step]
      split
      · exact .regroup (v := some st) rfl _
      · exact .keep rfl
  | readGroup group consumer id count =>
    cases v with
    | none => exact .keep rfl
    | some st =>
      simp only [step, Kv.readGroup]
      cases st.groups[group]? with
      | none => exact .keep rfl
      | some gs => exact .regroup (v := some st) rfl _
  | ack group ids =>
    cases v with
    | none => exact .keep rfl
    | some st =>
      simp only [step]
      cases st.groups[group]? with
      | none => exact .keep rfl
      | some gs => exact .regroup (v := some st) rfl _
  | claim group consumer minIdleMs ids force =>
    cases v with
    | none => exact .keep rfl
    | some st =>
      simp only [step]
      cases st.groups[group]? with
      | none => exact .keep rfl
      | some gs => exact .regroup (v := some st) rfl _

theorem step_lastSeq (env : Env) (op : StreamOp) (v : Option StreamObj) :
    ((op.step env v).1.getD {}).lastSeq ≤ (v.getD {}).lastSeq + 1 := by
  by_cases hadd : ∃ id fields, op = .add id fields
  · obtain ⟨id, fields, rfl⟩ := hadd
    rw [step_add]
    split
    · exact Nat.le_succ _
    · split
      · show ((v.getD {}).nextId env.now).2 ≤ _
        unfold StreamObj.nextId
        split
        · exact Nat.zero_le _
        · exact Nat.mod_le _ _
      · exact Nat.le_succ _
  · have hshrinks := step_shrinks env (fun id fields he => hadd ⟨id, fields, he⟩) v
    cases hnext : (op.step env v).1 with
    | none => exact Nat.zero_le _
    | some st =>
      obtain ⟨-, -, hseq⟩ := hshrinks.2 st hnext
      rw [Option.getD_some, hseq]
      exact Nat.le_succ _

end StreamOp

/-- The stream and the ids it has held since its key was made. -/
structure Tracked (held : List Bytes) (v : Option StreamObj) : Prop where
  gone : v = none → held = []
  increasing : ∀ st ∈ v, Increasing st.entries
  kept : ∀ st ∈ v, ∀ e ∈ st.entries, e.id ∈ held
  below : ∀ st ∈ v, ∀ id ∈ held, ¬IdLt (st.lastMs, st.lastSeq) (readId id)

/-- The ids held after a step on the value. -/
def heldBy (held : List Bytes) (r : Option StreamObj × StreamReply) : List Bytes :=
  if r.1.isNone then [] else held ++ r.2.assigned

namespace Tracked

variable {held : List Bytes} {v : Option StreamObj}

theorem none : Tracked [] none := by
  constructor <;> intros <;> first | rfl | contradiction

theorem empty : Tracked [] (some {}) := by
  constructor
  · intro h
    cases h
  all_goals
    intro st hst
    cases hst
  · exact List.Pairwise.nil
  · intro e he
    cases he
  · intro id hid
    cases hid

/-- A stream that is not there is an empty one. -/
theorem getD (h : Tracked held v) : Tracked held (some (v.getD {})) := by
  cases v with
  | none =>
    obtain rfl := h.gone rfl
    exact empty
  | some st => exact h

theorem shrink (h : Tracked held v) {r : Option StreamObj × StreamReply}
    (hr : StreamOp.Shrinks v r) : Tracked (heldBy held r) r.1 := by
  obtain ⟨next, reply⟩ := r
  obtain ⟨hassigned, hnext⟩ := hr
  cases next with
  | none => exact none
  | some st =>
    obtain ⟨hsub, hms, hseq⟩ := hnext st rfl
    have hheld : heldBy held (some st, reply) = held := by
      show held ++ reply.assigned = held
      rw [hassigned, List.append_nil]
    rw [hheld]
    have hold := h.getD
    constructor
    · intro hcontra
      cases hcontra
    all_goals
      intro st' hst'
      cases hst'
    · exact (hold.increasing _ rfl).sublist hsub
    · intro e he
      exact hold.kept _ rfl e (hsub.subset he)
    · intro id hid
      rw [hms, hseq]
      exact hold.below _ rfl id hid

theorem assign (h : Tracked held v) {now : Int} (hroom : ∀ st ∈ v, st.HasRoom now) :
    ∀ old ∈ held, IdLt (readId old) ((v.getD {}).nextId now) := by
  intro old hold
  cases v with
  | none =>
    rw [h.gone rfl] at hold
    cases hold
  | some st => exact IdLt.of_not_lt (h.below st rfl old hold) (st.nextId_gt (hroom st rfl))

theorem push (h : Tracked held v) {now : Int} (hroom : ∀ st ∈ v, st.HasRoom now)
    (fields : List (Bytes × Bytes)) :
    let next := (v.getD {}).nextId now
    Tracked (held ++ [formatStreamId next.1 next.2]) (some ((v.getD {}).push next.1 next.2 fields)) := by
  intro next
  have hnew := h.assign hroom
  have hold := h.getD
  have hread : readId (formatStreamId next.1 next.2) = next := readId_format next.1 next.2
  constructor
  · intro hcontra
    cases hcontra
  all_goals
    intro st' hst'
    cases hst'
  · refine List.pairwise_append.mpr ⟨hold.increasing _ rfl, List.pairwise_singleton _ _, ?_⟩
    intro a ha b hb
    rw [List.mem_singleton.mp hb]
    show IdLt (readId a.id) (readId (formatStreamId next.1 next.2))
    rw [hread]
    exact hnew a.id (hold.kept _ rfl a ha)
  · intro e he
    rcases List.mem_append.mp he with he | he
    · exact List.mem_append_left _ (hold.kept _ rfl e he)
    · rw [List.mem_singleton.mp he]
      exact List.mem_append_right _ (List.mem_singleton.mpr rfl)
  · intro id hid
    show ¬IdLt next (readId id)
    rcases List.mem_append.mp hid with hid | hid
    · intro hlt
      exact IdLt.irrefl _ ((hnew id hid).trans hlt)
    · rw [List.mem_singleton.mp hid, hread]
      exact IdLt.irrefl _

end Tracked

theorem Tracked.step {held : List Bytes} {v : Option StreamObj} (h : Tracked held v) (env : Env)
    (op : StreamOp)
    (hroom : ∀ fields, op = .add (lit "*") fields → ∀ st ∈ v, st.HasRoom env.now) :
    (∀ id ∈ (op.step env v).2.assigned, ∀ old ∈ held, IdLt (readId old) (readId id)) ∧
      Tracked (heldBy held (op.step env v)) (op.step env v).1 := by
  by_cases hadd : ∃ id fields, op = .add id fields
  · obtain ⟨id, fields, rfl⟩ := hadd
    rw [StreamOp.step_add]
    by_cases hf : fields.isEmpty
    · rw [if_pos hf]
      refine ⟨?_, h.shrink (.keep rfl)⟩
      intro id hid
      cases hid
    · rw [if_neg hf]
      by_cases hid : id = lit "*"
      · subst hid
        rw [if_pos rfl]
        have hspace := hroom fields rfl
        refine ⟨?_, h.push hspace fields⟩
        intro new hnew old hold
        rw [List.mem_singleton.mp hnew, readId_format]
        exact h.assign hspace old hold
      · rw [if_neg hid]
        refine ⟨?_, h.shrink (StreamOp.Shrinks.regroup rfl (v.getD {}).groups)⟩
        intro id hid
        cases hid
  · have hshrinks := StreamOp.step_shrinks env (fun id fields he => hadd ⟨id, fields, he⟩) v
    refine ⟨?_, h.shrink hshrinks⟩
    intro id hid
    rw [hshrinks.1] at hid
    cases hid

/-! ## Top theorem -/

variable {key : Bytes} {db : Int}

theorem StreamAt.streamOf {s : KvStore F} {v : Option StreamObj}
    (h : StreamAt db key s v) : s.streamOf db key = v := by
  unfold KvStore.streamOf
  cases v with
  | none => rw [show s.item db key = none from h]; rfl
  | some st =>
    obtain ⟨o, ho, -, hst, -⟩ := h
    rw [ho]
    exact congrArg some hst

theorem streamAt_of_item {s : KvStore F}
    (h : (s.item db key).any (fun o => decide (o.type = .stream) && decide (o.expireAtMs ≤ 0)) = true) :
    StreamAt db key s (some ((s.streamOf db key).getD {})) := by
  unfold KvStore.streamOf
  cases ho : s.item db key with
  | none =>
    rw [ho] at h
    cases h
  | some o =>
    rw [ho] at h
    simp only [Option.any_some, Bool.and_eq_true, decide_eq_true_eq] at h
    exact ⟨o, ho, h.1, rfl, h.2⟩

theorem Tracked.entriesOf {s : KvStore F} {held : List Bytes}
    {v : Option StreamObj} (ht : Tracked held v) (hs : StreamAt db key s v) :
    Increasing (s.entriesOf db key) := by
  unfold KvStore.entriesOf
  rw [hs.streamOf]
  cases v with
  | none => exact List.Pairwise.nil
  | some st => exact ht.increasing st rfl

variable {env : Env}

theorem Takes.heldAfter {m : StoreM F StreamReply} {s : KvStore F}
    {r : Option StreamObj × StreamReply} (h : Takes db key m env s r) (held : List Bytes) :
    heldAfter db key held (m env s) = heldBy held r := by
  have hv : (((m env s).2.item db key).map fun o => Field.stream.get o.toObj) = r.1 := h.2.streamOf
  unfold Kv.heldAfter heldBy
  rw [h.1, ← hv, Option.isNone_map]

/-- Along a run from a stream whose ids are tracked. -/
theorem Tracked.grows (calls : List (Env × StreamOp)) {s : KvStore F}
    {held : List Bytes} {v : Option StreamObj} (ht : Tracked held v) (hs : StreamAt db key s v)
    (hw : NeverWraps db key s calls) : Grows db key held s calls := by
  induction calls generalizing s held v with
  | nil => exact ht.entriesOf hs
  | cons call calls ih =>
    obtain ⟨env, op⟩ := call
    obtain ⟨hroom, hrest⟩ := hw
    rw [hs.streamOf] at hroom
    have hnext : ∃ r : Option StreamObj × StreamReply, Takes db key (op.run db key) env s r ∧
        (∀ id ∈ r.2.assigned, ∀ old ∈ held, IdLt (readId old) (readId id)) ∧
        Tracked (heldBy held r) r.1 := by
      rcases streamAt_run hs op env with h | ⟨-, h⟩
      · exact ⟨_, h, ht.step env op hroom⟩
      · -- evicted: what comes next under the key is another stream
        refine ⟨_, h, ?_, Tracked.none⟩
        intro id hid
        cases hid
    obtain ⟨r, htakes, hassign, htracked⟩ := hnext
    refine ⟨ht.entriesOf hs, ?_, ?_⟩
    · rw [htakes.1]
      exact hassign
    · rw [htakes.heldAfter]
      exact ih htracked htakes.2 hrest

/-- **Stream ids only grow**, as long as the sequence number does not wrap. -/
theorem ids_grow (db : Int) (key : Bytes) (s : KvStore F) (calls : List (Env × StreamOp))
    (hs : s.item db key = none) (hw : NeverWraps db key s calls) : Grows db key [] s calls :=
  Tracked.none.grows calls hs hw

theorem neverWraps_of_length (calls : List (Env × StreamOp)) {s : KvStore F}
    {v : Option StreamObj} (hs : StreamAt db key s v)
    (hlen : (v.getD {}).lastSeq + calls.length < 2 ^ 64) : NeverWraps db key s calls := by
  induction calls generalizing s v with
  | nil => trivial
  | cons call calls ih =>
    obtain ⟨env, op⟩ := call
    rw [List.length_cons] at hlen
    constructor
    · intro fields hop st hst
      rw [hs.streamOf] at hst
      cases hst
      rw [Option.getD_some] at hlen
      exact .inr (by omega)
    · rcases streamAt_run hs op env with h | ⟨-, h⟩
      · have hseq := StreamOp.step_lastSeq env op v
        exact ih h.2 (by omega)
      · exact ih h.2 (by rw [Option.getD_none]; show 0 + calls.length < _; omega)

/-- Entries added in one millisecond, before and after one of them is deleted and under a clock that
goes back. -/
theorem ids_grow_clock_back :
    let fields := [(lit "f", lit "v")]
    Grows 0 (lit "s") [] (KvStore.empty : KvStore Int) [({ now := 5 }, .add (lit "*") fields),
      ({ now := 5 }, .add (lit "*") fields), ({ now := 5 }, .del [lit "5-1"]),
      ({ now := 3 }, .add (lit "*") fields)] :=
  ids_grow 0 (lit "s") _ _ (by decide)
    (neverWraps_of_length (v := none) _ (KvStore.item_empty 0 (lit "s")) (by decide))

/-! ## Where it wraps -/

/-- XADD `*`, section by section, `n` times. -/
def burst (env : Env) (fields : List (Bytes × Bytes)) : Nat → List (Env × StreamOp)
  | 0 => []
  | n + 1 => (env, .evict) :: (env, .add (lit "*") fields) :: burst env fields n

variable {fields : List (Bytes × Bytes)}

theorem StreamAt.add_late {s : KvStore F} {st : StreamObj} (hs : StreamAt db key s (some st)) (hf : fields ≠ [])
    (hclock : ¬st.lastMs < (env.now % 2 ^ 64).toNat) :
    let seq := (st.lastSeq + 1) % 2 ^ 64
    Takes db key ((StreamOp.add (lit "*") fields).run db key) env s
      (some (st.push st.lastMs seq fields), .id (formatStreamId st.lastMs seq)) := by
  have hne : ¬fields.isEmpty = true := by simpa using hf
  have htakes := takes_add hs env (lit "*") fields
  rw [StreamOp.step_add, if_neg hne, if_pos rfl] at htakes
  simp only [Option.getD_some, StreamObj.nextId, if_neg hclock] at htakes
  exact htakes

theorem conf_add (db : Int) (key id : Bytes) (fields : List (Bytes × Bytes)) (env : Env) (s : KvStore F) :
    ((StreamOp.add id fields).run db key env s).2.conf = s.conf := by
  simp only [StreamOp.run, StoreM.map_apply]
  split
  · rfl
  · exact KvStore.conf_onEntry ..

theorem run_evict_of_noEvict (db : Int) (key : Bytes) (env : Env) {s : KvStore F}
    (hconf : s.conf.NoEvict) : StreamOp.evict.run db key env s = (.none, s) := by
  simp only [StreamOp.run, StoreM.map_apply, KvStore.evictIfNeededLocked_eq_of_noEvict env s hconf]

/-- With as many XADDs to come as the sequence number still counts, the first id comes again. -/
theorem not_grows_burst
    (hf : fields ≠ []) (n : Nat) {s : KvStore F} {st : StreamObj} {held : List Bytes}
    (hconf : s.conf.NoEvict) (hs : StreamAt db key s (some st))
    (hclock : ¬st.lastMs < (env.now % 2 ^ 64).toNat) (hheld : formatStreamId st.lastMs 0 ∈ held)
    (hn : st.lastSeq + (n + 1) = 2 ^ 64) :
    ¬Grows db key held s (burst env fields (n + 1)) := by
  have hroom := run_evict_of_noEvict db key env hconf
  have hadd := hs.add_late hf hclock
  have hkept : heldAfter db key held (StreamReply.none, s) = held := by
    obtain ⟨o, ho, -⟩ := hs
    unfold heldAfter
    rw [ho]
    exact List.append_nil held
  rintro ⟨-, -, hgrows⟩
  rw [hroom, hkept] at hgrows
  obtain ⟨-, hassign, hrest⟩ := hgrows
  cases n with
  | zero =>
    have hwrap : (st.lastSeq + 1) % 2 ^ 64 = 0 := by omega
    rw [hwrap] at hadd
    rw [hadd.1] at hassign
    exact IdLt.irrefl _ (hassign _ (List.mem_singleton.mpr rfl) _ hheld)
  | succ n =>
    have hseq : (st.lastSeq + 1) % 2 ^ 64 = st.lastSeq + 1 := Nat.mod_eq_of_lt (by omega)
    rw [hseq] at hadd
    rw [hadd.heldAfter] at hrest
    refine not_grows_burst hf n ?_ hadd.2 hclock ?_ ?_ hrest
    · rw [conf_add]
      exact hconf
    · exact List.mem_append_left _ hheld
    · show st.lastSeq + 1 + (n + 1) = 2 ^ 64
      omega

theorem not_grows_fresh
    (hf : fields ≠ []) {n : Nat} {s : KvStore F} (hconf : s.conf.NoEvict) (hs : StreamAt db key s none)
    (hclock : 0 < (env.now % 2 ^ 64).toNat) (hn : n + 1 = 2 ^ 64) :
    ¬Grows db key [] s (burst env fields (n + 1 + 1)) := by
  have hne : ¬fields.isEmpty = true := by simpa using hf
  have hadd := takes_add hs env (lit "*") fields
  have hfirst : (({} : StreamObj).nextId env.now) = ((env.now % 2 ^ 64).toNat, 0) := if_pos hclock
  rw [StreamOp.step_add, if_neg hne, if_pos rfl] at hadd
  simp only [Option.getD_none, hfirst] at hadd
  rintro ⟨-, -, hgrows⟩
  have hheld : heldAfter db key [] (StreamReply.none, s) = [] := by
    unfold heldAfter
    rw [show s.item db key = none from hs]
    rfl
  rw [run_evict_of_noEvict db key env hconf, hheld] at hgrows
  obtain ⟨-, -, hrest⟩ := hgrows
  rw [hadd.heldAfter] at hrest
  refine not_grows_burst hf n ?_ hadd.2 ?_ ?_ ?_ hrest
  · rw [conf_add]
    exact hconf
  · exact Nat.lt_irrefl _
  · exact List.mem_singleton.mpr rfl
  · show 0 + (n + 1) = 2 ^ 64
    omega

/-- `2^64 + 1` XADDs in one millisecond: the last of them has the id of the first. -/
theorem ids_repeat :
    ¬Grows 0 (lit "s") [] (KvStore.empty : KvStore Int)
      (burst { now := 1 } [(lit "f", lit "v")] (2 ^ 64 + 1)) := by
  have hcount : 2 ^ 64 + 1 = 2 ^ 64 - 1 + 1 + 1 := by omega
  rw [hcount]
  exact not_grows_fresh (by decide) (.inl (by decide)) (KvStore.item_empty 0 (lit "s"))
    (by decide) (by omega)

end Kv
