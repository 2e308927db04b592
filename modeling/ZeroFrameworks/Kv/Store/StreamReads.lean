import ZeroFrameworks.Kv.Store.StreamOrder

/-!
# What a reader of a stream receives

A client that calls XREAD with the last id it has received, or a consumer of a group that calls
XREADGROUP with `>`, while XADDs go on.  `Feed` is the store with all the entries that were added and
all that the reader has received.

A read is exact when it takes the reader one step on through the entries after its starting id: after
it the reader has the first of them, as many as before and COUNT more.  It compares ids as texts, so
it is exact if and only if the texts it compares are in step (`exact_iff_inStep`):

    Along Exact f calls ↔ Along InStepAt f calls
-/

namespace Kv

variable {F : Type} [Platform F]

/-! ## Readers -/

/-- An XREAD client, or a consumer of a group. -/
inductive Reader where
  | plain
  | group (name consumer : Bytes)

inductive ReaderCall where
  | add (id : Bytes) (fields : List (Bytes × Bytes))
  | read (count : Int)

/-- The call of a reader whose last id is `last`. -/
def Reader.op (reader : Reader) (last : Bytes) (count : Int) : StreamOp :=
  match reader with
  | .plain => .read last count
  | .group name consumer => .readGroup name consumer (lit ">") count

/-- Where to start: at the beginning, or after an id. -/
def startText (start : Option (Nat × Nat)) : Bytes :=
  start.elim (lit "0") fun x => formatStreamId x.1 x.2

/-- The entry is after the id. -/
def After (start : Option (Nat × Nat)) (e : StreamEntry) : Bool :=
  start.elim true fun x => decide (IdLt x (readId e.id))

def due (start : Option (Nat × Nat)) (log : List StreamEntry) : List StreamEntry := log.filter (After start)

/-- The first `count`, or all where there is no limit. -/
def upTo (count : Int) (l : List StreamEntry) : List StreamEntry :=
  if 0 < count then l.take count.toNat else l

def StreamReply.received (r : StreamReply) : List StreamEntry :=
  match r with
  | .entries l => l
  | _ => []

def addedEntry (r : Except Bytes Bytes) (fields : List (Bytes × Bytes)) : List StreamEntry :=
  match r with
  | .ok id => [⟨id, fieldMap fields⟩]
  | .error _ => []

/-- The store, the entries that were added to the stream and those its reader has received. -/
structure Feed (F : Type) [Platform F] where
  store : KvStore F
  log : List StreamEntry
  got : List StreamEntry

section feed

variable (db : Int) (key : Bytes) (reader : Reader) (start : Option (Nat × Nat))

namespace Feed

/-- The last id the reader has received. -/
def lastText (f : Feed F) : Bytes := (f.got.getLast?.map (·.id)).getD (startText start)

def last (f : Feed F) : Option (Nat × Nat) := (f.got.getLast?.map fun e => readId e.id).or start

def next (f : Feed F) (c : Env × ReaderCall) : Feed F :=
  match c.2 with
  | .add id fields =>
    let r := KvStore.xadd db key id fields c.1 f.store
    { f with store := r.2, log := f.log ++ addedEntry r.1 fields }
  | .read count =>
    let r := (reader.op (f.lastText start) count).run db key c.1 f.store
    { f with store := r.2, got := f.got ++ r.1.received }

/-- A property of every call, in the state before it. -/
def Along (P : Feed F → Env × ReaderCall → Prop) (f : Feed F) : List (Env × ReaderCall) → Prop
  | [] => True
  | c :: calls => P f c ∧ Along P (f.next db key reader start c) calls

/-- The read takes the reader on to the first entries after its starting id, as many as before and
`count` more. -/
def Exact (f : Feed F) (c : Env × ReaderCall) : Prop :=
  match c.2 with
  | .add _ _ => True
  | .read count => (f.next db key reader start c).got =
      if 0 < count then (due start f.log).take (f.got.length + count.toNat) else due start f.log

end Feed

/-- The text of the entry's id and that of the last one are in the order of the ids. -/
def Aligned (last : Option (Nat × Nat)) (e : StreamEntry) : Prop :=
  last.elim True fun x => if IdLt x (readId e.id) then InStep x (readId e.id) else InStep (readId e.id) x

instance : ∀ (last : Option (Nat × Nat)) (e : StreamEntry), Decidable (Aligned last e)
  | none, _ => inferInstanceAs (Decidable True)
  | some x, e =>
    inferInstanceAs (Decidable (if IdLt x (readId e.id) then InStep x (readId e.id) else InStep (readId e.id) x))

namespace Feed

instance {P : Feed F → Env × ReaderCall → Prop} [∀ f c, Decidable (P f c)] :
    ∀ (f : Feed F) (calls : List (Env × ReaderCall)), Decidable (f.Along db key reader start P calls)
  | _, [] => inferInstanceAs (Decidable True)
  | f, c :: calls => @instDecidableAnd _ _ _ (instDecidableAlong (f.next db key reader start c) calls)

/-- In step are the texts of the entries up to the last id, and of those that come next. -/
def InStepAt (f : Feed F) (c : Env × ReaderCall) : Prop :=
  match c.2 with
  | .add _ _ => True
  | .read count =>
    ∀ e ∈ f.log.filter (fun e => !After (f.last start) e) ++ upTo count (due (f.last start) f.log),
      Aligned (f.last start) e

instance (f : Feed F) : ∀ c, Decidable (f.InStepAt start c)
  | (_, .add _ _) => inferInstanceAs (Decidable True)
  | (_, .read count) => inferInstanceAs (Decidable (∀ e ∈ f.log.filter (fun e => !After (f.last start) e) ++
      upTo count (due (f.last start) f.log), Aligned (f.last start) e))

/-- XADD does not evict the stream itself, and its ids increase when it is read. -/
def OrderedAt (f : Feed F) (c : Env × ReaderCall) : Prop :=
  match c.2 with
  | .add _ _ => ((KvStore.evictIfNeededLocked c.1 f.store).2.item db key).isSome
  | .read _ => Increasing f.log

instance (f : Feed F) : ∀ c, Decidable (f.OrderedAt db key c)
  | (env, .add _ _) =>
    inferInstanceAs (Decidable (((KvStore.evictIfNeededLocked env f.store).2.item db key).isSome = true))
  | (_, .read _) => inferInstanceAs (Decidable (Increasing f.log))

end Feed

end feed

/-- Every id is the text of a pair. -/
def Written (log : List StreamEntry) : Prop :=
  ∀ e ∈ log, e.id = formatStreamId (readId e.id).1 (readId e.id).2

instance (log : List StreamEntry) : Decidable (Written log) := inferInstanceAs (Decidable (∀ e ∈ log, _))

/-- The last id a consumer was handed; empty when there is none. -/
def StreamGroupState.lastOf (gs : StreamGroupState) (consumer : Bytes) : Bytes :=
  (gs.consumers[consumer]?.getD {}).lastId

/-- A read with `>` starts after `text`. -/
def Reader.StartsAt (reader : Reader) (st : StreamObj) (text : Bytes) : Prop :=
  match reader with
  | .plain => True
  | .group name consumer => ∃ gs, st.groups[name]? = some gs ∧
      (if gs.lastOf consumer = [] then gs.lastId else gs.lastOf consumer) = text

/-! ## Lemmas -/

section lists

variable {α : Type} {p q : α → Bool}

theorem take_filter_of_take {n : Nat} {l : List α} (h : ∀ a ∈ l.take n, p a = true) :
    (l.filter p).take n = l.take n := by
  induction l generalizing n with
  | nil => rfl
  | cons a l ih =>
    cases n with
    | zero => rfl
    | succ n =>
      have ha : p a = true := h a List.mem_cons_self
      rw [List.filter_cons_of_pos ha, List.take_succ_cons, List.take_succ_cons,
        ih fun b hb => h b (List.mem_cons_of_mem a hb)]

end lists

variable {count : Int}

theorem mem_of_mem_upTo {l : List StreamEntry} {e : StreamEntry} (h : e ∈ upTo count l) :
    e ∈ l := by
  unfold upTo at h
  split at h
  · exact List.mem_of_mem_take h
  · exact h

theorem upTo_filter_of_upTo {p : StreamEntry → Bool} {l : List StreamEntry}
    (h : ∀ e ∈ upTo count l, p e = true) : upTo count (l.filter p) = upTo count l := by
  unfold upTo at *
  by_cases hcount : 0 < count
  · rw [if_pos hcount] at h ⊢
    rw [if_pos hcount]
    exact take_filter_of_take h
  · rw [if_neg hcount] at h ⊢
    rw [if_neg hcount]
    exact List.filter_eq_self.mpr h

theorem takeWhere_eq (p : StreamEntry → Bool) (count : Int) (l : List StreamEntry) :
    takeWhere p count l = upTo count (l.filter p) := rfl

/-- Two tests of a list, the second one false up to some place and true from there on, pick the same
first entries exactly when they agree up to the last of these. -/
theorem upTo_filter_eq_iff (p : StreamEntry → Bool) (count : Int) {q : StreamEntry → Bool}
    {pre post : List StreamEntry}
    (hpre : ∀ e ∈ pre, q e = false) (hpost : ∀ e ∈ post, q e = true) :
    upTo count ((pre ++ post).filter p) = upTo count post ↔ ∀ e ∈ pre ++ upTo count post, p e = q e := by
  rw [List.filter_append]
  constructor
  · intro heq
    have hnone : pre.filter p = [] := by
      cases hfound : pre.filter p with
      | nil => rfl
      | cons e rest =>
        have he : e ∈ upTo count post := by
          rw [← heq, hfound]
          unfold upTo
          split
          · rw [show count.toNat = count.toNat - 1 + 1 by omega]
            exact List.mem_cons_self
          · exact List.mem_cons_self
        have hin : e ∈ pre.filter p := hfound ▸ List.mem_cons_self
        have hq := hpre e (List.mem_filter.mp hin).1
        rw [hpost e (mem_of_mem_upTo he)] at hq
        cases hq
    intro e he
    rcases List.mem_append.mp he with he | he
    · rw [hpre e he]
      exact Bool.eq_false_iff.mpr (List.filter_eq_nil_iff.mp hnone e he)
    · rw [hpost e (mem_of_mem_upTo he)]
      rw [← heq, hnone, List.nil_append] at he
      exact (List.mem_filter.mp (mem_of_mem_upTo he)).2
  · intro h
    have hnone : pre.filter p = [] := by
      apply List.filter_eq_nil_iff.mpr
      intro e he
      rw [h e (List.mem_append_left _ he), hpre e he]
      exact Bool.false_ne_true
    rw [hnone, List.nil_append]
    apply upTo_filter_of_upTo
    intro e he
    rw [h e (List.mem_append_right _ he), hpost e (mem_of_mem_upTo he)]

theorem Increasing.split {log : List StreamEntry} (h : Increasing log) (last : Option (Nat × Nat)) :
    log = log.filter (fun e => !After last e) ++ due last log := by
  unfold due
  induction log with
  | nil => rfl
  | cons e log ih =>
    obtain ⟨hlt, hrest⟩ := List.pairwise_cons.mp h
    by_cases he : After last e = true
    · -- what comes later is after it as well
      have hall : ∀ b ∈ log, After last b = true := by
        intro b hb
        cases last with
        | none => rfl
        | some x => exact decide_eq_true (IdLt.trans (of_decide_eq_true he) (hlt b hb))
      rw [List.filter_cons_of_pos he, List.filter_cons_of_neg (by simp [he]), List.filter_eq_self.mpr hall,
        List.filter_eq_nil_iff.mpr (fun b hb => by simp [hall b hb])]
      rfl
    · rw [List.filter_cons_of_neg he, List.filter_cons_of_pos (by simp [he]), List.cons_append, ← ih hrest]

theorem idLe_zero (ms seq : Nat) : idLe (formatStreamId ms seq) (lit "0") = false := by
  obtain ⟨hne, hdigits, -⟩ := printNat_spec ms
  rw [formatStreamId_eq]
  cases htext : printNat ms with
  | nil => exact absurd htext hne
  | cons d ds =>
    have hd : isDigit d = true := hdigits d (htext ▸ List.mem_cons_self)
    have hcmp : compare d 48 ≠ .lt := compare_zero hd
    have hlit : lit "0" = [48] := by decide
    unfold idLe
    rw [hlit, List.cons_append, List.compare_cons_cons]
    cases hc : compare d 48 with
    | lt => exact absurd hc hcmp
    | gt => rfl
    | eq => cases ds <;> rfl

theorem inStep_self (x : Nat × Nat) : InStep x x := by
  unfold InStep Leads
  rw [if_pos rfl, Nat.sub_self, Nat.pow_zero, Nat.div_one]

theorem IdLt.of_not {x y : Nat × Nat} (h : ¬IdLt x y) : y = x ∨ IdLt y x := by
  unfold IdLt at *
  rcases Nat.lt_trichotomy y.1 x.1 with h1 | h1 | h1
  · exact .inr (.inl h1)
  · rcases Nat.lt_trichotomy y.2 x.2 with h2 | h2 | h2
    · exact .inr (.inr ⟨h1, h2⟩)
    · exact .inl (Prod.ext h1 h2)
    · exact absurd (.inr ⟨h1.symm, h2⟩) h
  · exact absurd (.inl h1) h

/-- The test of the source agrees with the order of the ids exactly when the texts are in step. -/
theorem aligned_iff {e : StreamEntry} (he : e.id = formatStreamId (readId e.id).1 (readId e.id).2)
    (last : Option (Nat × Nat)) : (!idLe e.id (startText last)) = After last e ↔ Aligned last e := by
  rw [he]
  unfold After Aligned startText
  generalize readId e.id = y at *
  cases last with
  | none => simp [idLe_zero]
  | some x =>
    simp only [Option.elim_some]
    by_cases hlt : IdLt x y
    · rw [if_pos hlt, decide_eq_true hlt, ← idLe_above_iff hlt]
      simp
    · rw [if_neg hlt, decide_eq_false hlt]
      rcases IdLt.of_not hlt with heq | hgt
      · subst heq
        simp [idLe, inStep_self]
      · rw [← idLe_below_iff hgt]
        simp

theorem drop_due {start : Option (Nat × Nat)} {log got : List StreamEntry} (hinc : Increasing log)
    (hgot : got = (due start log).take got.length) :
    (due start log).drop got.length = due ((got.getLast?.map fun e => readId e.id).or start) log := by
  cases hlast : got.getLast? with
  | none =>
    rw [List.getLast?_eq_none_iff.mp hlast]
    rfl
  | some e =>
    have hmem : e ∈ got := List.mem_of_getLast? hlast
    have hsplit : due start log = got ++ (due start log).drop got.length := by
      conv_lhs => rw [← List.take_append_drop got.length (due start log)]
      rw [← hgot]
    have hpair : Increasing (due start log) := List.Pairwise.sublist List.filter_sublist hinc
    rw [hsplit] at hpair
    obtain ⟨hpgot, -, hcross⟩ := List.pairwise_append.mp hpair
    have hstart : After start e = true := by
      have hin : e ∈ due start log := hsplit ▸ List.mem_append_left _ hmem
      exact (List.mem_filter.mp hin).2
    have hwithin : due (some (readId e.id)) log = (due start log).filter (After (some (readId e.id))) := by
      unfold due
      rw [List.filter_filter]
      apply List.filter_congr
      intro b hb
      cases start with
      | none => simp [After]
      | some x =>
        simp only [After, Option.elim_some, decide_eq_true_eq] at hstart ⊢
        by_cases hlt : IdLt (readId e.id) (readId b.id)
        · simp [hlt, hstart.trans hlt]
        · simp [hlt]
    have hgone : got.filter (After (some (readId e.id))) = [] := by
      apply List.filter_eq_nil_iff.mpr
      intro b hb
      have hle : ¬IdLt (readId e.id) (readId b.id) := by
        obtain ⟨front, rfl⟩ := List.getLast?_eq_some_iff.mp hlast
        rcases List.mem_append.mp hb with hb | hb
        · intro hlt
          exact IdLt.irrefl _ (hlt.trans
            ((List.pairwise_append.mp hpgot).2.2 b hb e (List.mem_singleton.mpr rfl)))
        · rw [List.mem_singleton.mp hb]
          exact IdLt.irrefl _
      simpa [After] using hle
    have hrest : ((due start log).drop got.length).filter (After (some (readId e.id))) =
        (due start log).drop got.length := by
      apply List.filter_eq_self.mpr
      intro b hb
      exact decide_eq_true (hcross e hmem b hb)
    rw [Option.map_some, Option.some_or, hwithin]
    conv_rhs => rw [hsplit, List.filter_append, hgone, hrest]
    rfl

theorem deliver_lastId (now : Int) (picked : List StreamEntry) (c : StreamConsumerState) :
    (c.deliver now picked).lastId = (picked.getLast?.map (·.id)).getD c.lastId := by
  unfold StreamConsumerState.deliver
  induction picked generalizing c with
  | nil => rfl
  | cons e picked ih =>
    rw [List.foldl_cons, ih, List.getLast?_cons]
    cases picked.getLast? <;> rfl

theorem formatStreamId_ne_nil (ms seq : Nat) : formatStreamId ms seq ≠ [] := by
  rw [formatStreamId_eq]
  simp

variable {st : StreamObj}

theorem step_readGroup (env : Env) (consumer : Bytes) (count : Int) {group : Bytes}
    {gs : StreamGroupState} (h : st.groups[group]? = some gs) :
    let start := if gs.lastOf consumer = [] then gs.lastId else gs.lastOf consumer
    let picked := takeWhere (fun e => !idLe e.id start) count st.entries
    ∃ st' gs', (StreamOp.readGroup group consumer (lit ">") count).step env (some st) =
        (some st', .entries picked) ∧ st'.entries = st.entries ∧ st'.groups[group]? = some gs' ∧
      gs'.lastId = gs.lastId ∧
      ∀ c, gs'.lastOf c =
        if c = consumer then (picked.getLast?.map (·.id)).getD (gs.lastOf consumer) else gs.lastOf c := by
  intro start picked
  let cs := (gs.consumers[consumer]?.getD {}).deliver env.now picked
  refine ⟨{ st with groups := st.groups.insert group { gs with consumers := gs.consumers.insert consumer cs } },
    { gs with consumers := gs.consumers.insert consumer cs }, ?_, rfl,
    Std.ExtTreeMap.getElem?_insert_self, rfl, ?_⟩
  · show Option.elim (readGroup env.now group consumer (lit ">") count st) _ _ = _
    unfold readGroup
    rw [h]
    simp only [Option.map_some, Option.elim_some, ne_eq, not_true_eq_false, false_and, if_false]
    rfl
  · intro c
    unfold StreamGroupState.lastOf
    by_cases hc : c = consumer
    · subst hc
      rw [if_pos rfl]
      simp only [Std.ExtTreeMap.getElem?_insert_self, Option.getD_some, cs, deliver_lastId]
    · rw [if_neg hc]
      simp only [Std.ExtTreeMap.getElem?_insert]
      rw [if_neg (by simpa using fun h => hc h.symm)]

/-- A read hands out the entries whose text is above the last id, and the reader goes on from the last
of them. -/
theorem reader_step (reader : Reader) {text : Bytes} (env : Env) (count : Int)
    (hw : Written st.entries) (hstart : reader.StartsAt st text) :
    let picked := takeWhere (fun e => !idLe e.id text) count st.entries
    ∃ st', (reader.op text count).step env (some st) = (some st', .entries picked) ∧
      st'.entries = st.entries ∧ reader.StartsAt st' ((picked.getLast?.map (·.id)).getD text) := by
  intro picked
  cases reader with
  | plain =>
    refine ⟨st, ?_, rfl, trivial⟩
    show (some st, StreamReply.entries (takeWhere _ count st.entries)) = _
    have hsame : st.entries.filter (fun e => !(text != lit "0" && idLe e.id text)) =
        st.entries.filter fun e => !idLe e.id text := by
      apply List.filter_congr
      intro e he
      by_cases hzero : text = lit "0"
      · rw [hzero, hw e he, idLe_zero]
        rfl
      · simp [hzero]
    rw [takeWhere_eq, hsame]
    rfl
  | group name consumer =>
    obtain ⟨gs, hgs, htext⟩ := hstart
    obtain ⟨st', gs', hstep, hentries, hgs', hid, hlast⟩ := step_readGroup env consumer count hgs
    rw [htext] at hstep hlast
    refine ⟨st', hstep, hentries, gs', hgs', ?_⟩
    rw [hlast consumer, if_pos rfl, hid]
    cases hpicked : picked.getLast? with
    | none => exact htext
    | some e =>
      have hin : e ∈ st.entries := (List.mem_filter.mp (mem_of_mem_upTo (List.mem_of_getLast? hpicked))).1
      have hne : e.id ≠ [] := by
        rw [hw e hin]
        exact formatStreamId_ne_nil _ _
      exact if_neg hne

theorem StreamAt.xadd {db : Int} {key : Bytes} {s : KvStore F} {env : Env}
    (h : StreamAt db key s (some st)) (id : Bytes) (fields : List (Bytes × Bytes))
    (hkept : ((KvStore.evictIfNeededLocked env s).2.item db key).isSome) :
    ∃ st', StreamAt db key (KvStore.xadd db key id fields env s).2 (some st') ∧
      st'.entries = st.entries ++ addedEntry (KvStore.xadd db key id fields env s).1 fields ∧
      st'.groups = st.groups ∧ Written (addedEntry (KvStore.xadd db key id fields env s).1 fields) := by
  by_cases hf : fields = []
  · subst hf
    exact ⟨st, h, (List.append_nil _).symm, rfl, fun e he => nomatch he⟩
  have hne : ¬fields.isEmpty = true := by simpa using hf
  obtain ⟨hreply, hstore⟩ := StreamOp.xadd_eq db key id fields hf env s
  have hevict : StreamAt db key (StreamOp.evict.run db key env s).2 (some st) := by
    rcases h.evict env with hstays | hgone
    · exact hstays
    · rw [show (KvStore.evictIfNeededLocked env s).2.item db key = none from hgone] at hkept
      cases hkept
  have htakes := takes_add hevict env id fields
  rw [StreamOp.step_add, if_neg hne] at htakes
  rw [hstore]
  rw [htakes.1] at hreply
  by_cases hid : id = lit "*"
  · rw [if_pos hid] at htakes hreply
    simp only [Option.getD_some] at htakes hreply
    generalize st.nextId env.now = new at htakes hreply
    cases hx : (KvStore.xadd db key id fields env s).1 with
    | error e =>
      rw [hx] at hreply
      cases hreply
    | ok text =>
      rw [hx] at hreply
      obtain rfl : text = formatStreamId new.1 new.2 := StreamReply.id.inj hreply
      refine ⟨_, htakes.2, rfl, rfl, ?_⟩
      intro e he
      rw [List.mem_singleton.mp he]
      show formatStreamId new.1 new.2 = _
      rw [readId_format]
  · rw [if_neg hid] at htakes hreply
    cases hx : (KvStore.xadd db key id fields env s).1 with
    | error e => exact ⟨_, htakes.2, (List.append_nil _).symm, rfl, fun e he => nomatch he⟩
    | ok text =>
      rw [hx] at hreply
      cases hreply

/-- The reader has received the first entries after its starting id, and goes on from the last. -/
structure Following (db : Int) (key : Bytes) (reader : Reader) (start : Option (Nat × Nat)) (f : Feed F) :
    Prop where
  stream : ∃ st, StreamAt db key f.store (some st) ∧ st.entries = f.log ∧
    reader.StartsAt st (f.lastText start)
  written : Written f.log
  received : f.got = (due start f.log).take f.got.length

namespace Following

variable {db : Int} {key : Bytes} {reader : Reader} {start : Option (Nat × Nat)} {f : Feed F}

theorem lastText_eq (h : Following db key reader start f) : f.lastText start = startText (f.last start) := by
  unfold Feed.lastText Feed.last
  cases hlast : f.got.getLast? with
  | none => rfl
  | some e =>
    have hin : e ∈ f.log := by
      have hgot := List.mem_of_getLast? hlast
      rw [h.received] at hgot
      exact (List.mem_filter.mp (List.mem_of_mem_take hgot)).1
    exact h.written e hin

theorem add (h : Following db key reader start f) {env : Env} {id : Bytes} {fields : List (Bytes × Bytes)}
    (hkept : ((KvStore.evictIfNeededLocked env f.store).2.item db key).isSome) :
    Following db key reader start (f.next db key reader start (env, .add id fields)) := by
  obtain ⟨st, hst, hlog, hstart⟩ := h.stream
  obtain ⟨st', hst', hentries, hgroups, hwritten⟩ := hst.xadd id fields hkept
  constructor
  · refine ⟨st', hst', ?_, ?_⟩
    · rw [hentries, hlog]
      rfl
    · cases reader with
      | plain => trivial
      | group name consumer =>
        show ∃ gs, st'.groups[name]? = some gs ∧ _
        rw [hgroups]
        exact hstart
  · intro e he
    rcases List.mem_append.mp he with he | he
    · exact h.written e he
    · exact hwritten e he
  · have hle : f.got.length ≤ (due start f.log).length := by
      have := congrArg List.length h.received
      rw [List.length_take] at this
      omega
    show f.got = (due start (f.log ++ _)).take f.got.length
    unfold due at hle ⊢
    rw [List.filter_append, List.take_append_of_le_length hle]
    exact h.received

theorem read (h : Following db key reader start f) (env : Env) (count : Int) :
    let picked := takeWhere (fun e => !idLe e.id (startText (f.last start))) count f.log
    let f' := f.next db key reader start (env, .read count)
    f'.got = f.got ++ picked ∧ f'.log = f.log ∧
      ∃ st, StreamAt db key f'.store (some st) ∧ st.entries = f'.log ∧ reader.StartsAt st (f'.lastText start) := by
  intro picked f'
  obtain ⟨st, hst, hlog, hstart⟩ := h.stream
  have hw : Written st.entries := hlog ▸ h.written
  obtain ⟨st', hstep, hentries, hstart'⟩ := reader_step reader env count hw hstart
  have htakes : Takes db key ((reader.op (f.lastText start) count).run db key) env f.store
      ((reader.op (f.lastText start) count).step env (some st)) := by
    rcases streamAt_run hst (reader.op (f.lastText start) count) env with ht | ⟨hevict, -⟩
    · exact ht
    · cases reader <;> cases hevict
  rw [hstep, hlog] at htakes
  have hgot : f'.got = f.got ++ picked := by
    show f.got ++ StreamReply.received _ = _
    rw [htakes.1, h.lastText_eq]
    rfl
  refine ⟨hgot, rfl, st', htakes.2, hentries.trans hlog, ?_⟩
  have hlast : f'.lastText start = (picked.getLast?.map (·.id)).getD (f.lastText start) := by
    unfold Feed.lastText
    rw [hgot, List.getLast?_append]
    cases picked.getLast? <;> rfl
  rw [hlast]
  rw [hlog, h.lastText_eq] at hstart'
  rw [h.lastText_eq]
  exact hstart'

/-- A read is exact when it hands out the entries that come next. -/
theorem exact_iff (h : Following db key reader start f) (hinc : Increasing f.log) (env : Env) (count : Int) :
    Feed.Exact db key reader start f (env, .read count) ↔
      Feed.InStepAt start f (env, .read count) := by
  obtain ⟨hgot, -⟩ := h.read env count
  have hsplit : due start f.log = f.got ++ due (f.last start) f.log := by
    conv_lhs => rw [← List.take_append_drop f.got.length (due start f.log), ← h.received]
    rw [drop_due hinc h.received]
    rfl
  have hnext : (if 0 < count then (due start f.log).take (f.got.length + count.toNat) else due start f.log) =
      f.got ++ upTo count (due (f.last start) f.log) := by
    unfold upTo
    rw [hsplit]
    split
    · rw [List.take_length_add_append]
    · rfl
  have hbefore : ∀ e ∈ f.log.filter (fun e => !After (f.last start) e), After (f.last start) e = false := by
    intro e he
    simpa using (List.mem_filter.mp he).2
  have hafter : ∀ e ∈ due (f.last start) f.log, After (f.last start) e = true :=
    fun e he => (List.mem_filter.mp he).2
  have hpick := upTo_filter_eq_iff (fun e => !idLe e.id (startText (f.last start))) count hbefore hafter
  rw [← hinc.split] at hpick
  show _ = _ ↔ _
  rw [hnext, hgot, List.append_cancel_left_eq, takeWhere_eq, hpick]
  refine forall₂_congr ?_
  intro e he
  have hin : e ∈ f.log := by
    rcases List.mem_append.mp he with he | he
    · exact (List.mem_filter.mp he).1
    · exact (List.mem_filter.mp (mem_of_mem_upTo he)).1
  exact aligned_iff (h.written e hin) (f.last start)

theorem of_exact (h : Following db key reader start f) {env : Env}
    (hexact : Feed.Exact db key reader start f (env, .read count)) :
    Following db key reader start (f.next db key reader start (env, .read count)) := by
  obtain ⟨-, hlog, hstream⟩ := h.read env count
  refine ⟨hstream, hlog ▸ h.written, ?_⟩
  have hgot : (f.next db key reader start (env, .read count)).got =
    if 0 < count then (due start f.log).take (f.got.length + count.toNat) else due start f.log := hexact
  rw [hlog, hgot]
  split
  · rw [List.length_take, List.take_eq_take_iff]
    omega
  · rw [List.take_length]

end Following

/-! ## Top theorem -/

/-- **The reads are exact, and go on being so, exactly when the texts they compare are in step.** -/
theorem Following.along_iff {db : Int} {key : Bytes} {reader : Reader} {start : Option (Nat × Nat)}
    (calls : List (Env × ReaderCall)) {f : Feed F} (h : Following db key reader start f)
    (hord : f.Along db key reader start (Feed.OrderedAt db key) calls) :
    f.Along db key reader start (Feed.Exact db key reader start) calls ↔
      f.Along db key reader start (Feed.InStepAt start) calls := by
  induction calls generalizing f with
  | nil => exact Iff.rfl
  | cons c calls ih =>
    obtain ⟨env, call⟩ := c
    obtain ⟨hnow, hlater⟩ := hord
    cases call with
    | add id fields => exact and_congr Iff.rfl (ih (h.add hnow) hlater)
    | read count =>
      have hread := h.exact_iff hnow env count
      constructor
      · rintro ⟨hexact, hrest⟩
        exact ⟨hread.mp hexact, (ih (h.of_exact hexact) hlater).mp hrest⟩
      · rintro ⟨hstep, hrest⟩
        have hexact := hread.mpr hstep
        exact ⟨hexact, (ih (h.of_exact hexact) hlater).mpr hrest⟩

/-- **A reader of a stream with increasing ids receives each entry after its starting id exactly once
and in order, if and only if the ids it compares are in step.** -/
theorem exact_iff_inStep (db : Int) (key : Bytes) (reader : Reader) (start : Option (Nat × Nat))
    (s : KvStore F) (st : StreamObj) (calls : List (Env × ReaderCall)) (hs : StreamAt db key s (some st))
    (hw : Written st.entries) (hstart : reader.StartsAt st (startText start))
    (hord : Feed.Along db key reader start (Feed.OrderedAt db key) ⟨s, st.entries, []⟩ calls) :
    Feed.Along db key reader start (Feed.Exact db key reader start) ⟨s, st.entries, []⟩ calls ↔
      Feed.Along db key reader start (Feed.InStepAt start) ⟨s, st.entries, []⟩ calls := by
  refine Following.along_iff calls ?_ hord
  exact ⟨⟨st, hs, rfl, hstart⟩, hw, rfl⟩

/-- Two reads of a client that has `5-0`, with an entry coming in between. -/
theorem exact_after_first :
    let add : Env × StreamOp := ({ now := 5 }, .add (lit "*") [(lit "f", lit "v")])
    let s := StreamOp.runAll 0 (lit "s") (KvStore.empty : KvStore Int) [add, add, add]
    let f : Feed Int := ⟨s, ((s.streamOf 0 (lit "s")).getD {}).entries, []⟩
    f.Along 0 (lit "s") .plain (some (5, 0)) (Feed.Exact 0 (lit "s") .plain (some (5, 0)))
      [({ now := 6 }, .read 1), ({ now := 6 }, .add (lit "*") [(lit "f", lit "w")]), ({ now := 7 }, .read 0)] :=
  (exact_iff_inStep 0 (lit "s") .plain (some (5, 0)) _ _ _ (streamAt_of_item (by decide))
    (by decide +kernel) trivial (by decide +kernel)).mpr (by decide +kernel)

/-- Ten XADDs in one millisecond, a read of all of them and one more XADD: its id is `5-10`, which sorts
before the `5-9` the reader has, and the next read hands out nothing. -/
theorem tenth_skipped :
    let add : Env × StreamOp := ({ now := 5 }, .add (lit "*") [(lit "f", lit "v")])
    let s := StreamOp.runAll 0 (lit "s") (KvStore.empty : KvStore Int) (List.replicate 10 add)
    let f : Feed Int := ⟨s, ((s.streamOf 0 (lit "s")).getD {}).entries, []⟩
    let calls : List (Env × ReaderCall) := [({ now := 5 }, .read 0),
      ({ now := 5 }, .add (lit "*") [(lit "f", lit "v")]), ({ now := 5 }, .read 0)]
    Written f.log ∧ f.Along 0 (lit "s") .plain none (Feed.OrderedAt 0 (lit "s")) calls ∧
      ¬f.Along 0 (lit "s") .plain none (Feed.Exact 0 (lit "s") .plain none) calls := by
  refine ⟨by decide, by decide +kernel, ?_⟩
  rintro ⟨-, -, hread, -⟩
  have hlength := congrArg List.length hread
  revert hlength
  decide +kernel

end Kv
