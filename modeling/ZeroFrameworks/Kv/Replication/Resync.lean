import ZeroFrameworks.Kv.Persistence.RdbRoundTrip
import ZeroFrameworks.Kv.Replication.Stream
import ZeroFrameworks.Kv.Store.Ops

/-!
# Full resynchronisation while clients write

PSYNC takes a snapshot, reads the offset and registers the session in three critical sections, and a write is
executed in one turn of its client and propagated in another.  All these turns may come in any order.  A write is
in the snapshot if it was executed before the dump, and is pushed if it is propagated after the registration:
it may be both, and it may be neither.

    every step Timely → the snapshot and what is pushed make up the master's contents,
      and every write is in one of the two   (resync_exact)
-/

namespace Kv

variable {F : Type} [Platform F]

/-! ## Algorithm -/

/-- A write and its number in the order of execution. -/
structure Write where
  req : RespValue
  number : Nat

/-- A client that has executed a write and not propagated it. -/
structure PendingWrite where
  client : Nat
  write : Write
  rsp : RespValue

/-- `dumped` is the snapshot with the number of writes before it.  `writes` and `pushed` record the writes that were
executed and those that were pushed to the session. -/
structure Resync (F : Type) [Platform F] where
  server : Server F
  conns : Nat → Conn
  pending : List PendingWrite := []
  dumped : Option (Bytes × Nat) := none
  line : Option RespValue := none
  writes : List Write := []
  pushed : List Write := []

inductive ResyncEvent where
  | execute (i : Nat) (env : Env) (req : RespValue)
  | propagate (i : Nat)
  /-- `handlePsync` finds that it cannot continue, and dumps. -/
  | dump (env : Env) (replid : Bytes) (offset : Int)
  | readOffset
  | register

/-- The line that `handlePsync` makes after the dump. -/
def resyncLine (r : Replication) : RespValue :=
  .simple (lit "FULLRESYNC " ++ r.replId ++ lit " " ++ printInt r.offset)

/-- The replies that PSYNC puts into the buffer of the session. -/
def resyncReplies (line : RespValue) (payload : Bytes) (s : Session) : Session :=
  (s.appendResponse line).appendResponse (.bulk payload)

/-- A snapshot keeps all of every live entry. -/
structure KvStore.Whole (env : Env) (s : KvStore F) : Prop where
  fits : s.Fits env
  kept : ∀ db key o, s.live env.now db key = some o → o.type.Valid ∧ o.saved.norm = o.norm

namespace Resync

/-- The first half of a client's turn. -/
def execute (i : Nat) (env : Env) (req : RespValue) (s : Resync F) : Resync F :=
  let c := s.conns i
  let r := dispatch env req c.ctx s.server
  let w : Write := ⟨req, s.writes.length⟩
  { s with
    server := replied i r
    conns := Function.update s.conns i { c with ctx := r.2.1 }
    pending := if IsWrite env req c.ctx s.server then s.pending ++ [⟨i, w, r.1⟩] else s.pending
    writes := if IsWrite env req c.ctx s.server then s.writes ++ [w] else s.writes }

/-- The second half. -/
def propagate (j : Nat) (p : PendingWrite) (s : Resync F) : Resync F :=
  { s with
    server := (s.conns p.client).record p.write.req p.rsp s.server
    pending := s.pending.eraseP (·.client == p.client)
    pushed := if j ∈ s.server.repl.replicas then s.pushed ++ [p.write] else s.pushed }

/-- The turns of the clients and of the PSYNC on session `j`; a turn that is not due changes nothing. -/
def step (j : Nat) (s : Resync F) : ResyncEvent → Resync F
  | .execute i env req => if i = j ∨ s.pending.any (·.client == i) then s else s.execute i env req
  | .propagate i =>
    match s.pending.find? (·.client == i) with
    | none => s
    | some p => s.propagate j p
  | .dump env replid offset =>
    if s.dumped = none ∧ s.server.repl.role = .master ∧ s.server.repl.tryCollectPartial replid offset = none then
      { s with dumped := some (dumpBinaryV2 env s.server.store, s.writes.length) }
    else s
  | .readOffset =>
    if s.dumped.isSome ∧ s.line = none then
      { s with line := some (resyncLine s.server.repl) }
    else s
  | .register =>
    match s.dumped, s.line with
    | some (payload, _), some line =>
      if j ∈ s.server.repl.replicas then s
      else { s with server := (Commands.answerPsync j (s.conns j).ctx s.server (.full line payload)).2.2 }
    | _, _ => s

def run (j : Nat) (s : Resync F) (events : List ResyncEvent) : Resync F := events.foldl (step j) s

/-- What session `j` has been given to send. -/
def output (j : Nat) (s : Resync F) : Bytes := (s.server.sessions j).sent ++ (s.server.sessions j).writeBuf

/-! ## Specification -/

/-- A master with clients, and nothing known of the replica. -/
structure Begins (lo hi : Int) (j : Nat) (s : Resync F) : Prop where
  role : s.server.repl.role = .master
  unregistered : j ∉ s.server.repl.replicas
  session : s.server.sessions j = {}
  waiters : s.server.waiters = []
  quiet : Quiet lo hi s.server.store
  clients : ∀ i, (s.conns i).replActive = true ∧ (s.conns i).ctx.multiQueue = []
  pending : s.pending = []
  dumped : s.dumped = none
  writes : s.writes = []
  pushed : s.pushed = []

/-- Writes are repeatable and in database 0, and snapshots whole.  At the registration the writes that the
snapshot has have been propagated, and no others; from then on they are propagated in their order. -/
def Timely (lo hi : Int) (j : Nat) (s : Resync F) : ResyncEvent → Prop
  | .execute i env req => isMutatingCommand (upperCmd req) = true ∧ Within lo hi env ∧
      s.server.store.conf.NoEvict ∧ Reproducible lo hi 0 env req (s.conns i).ctx s.server
  | .propagate i => ∀ p ∈ s.pending.find? (·.client == i),
      if j ∈ s.server.repl.replicas then s.pending.head? = some p else ∀ d ∈ s.dumped, p.write.number < d.2
  | .dump env _ _ => Within lo hi env ∧ s.server.store.Whole env
  | .readOffset => True
  | .register => ∀ d ∈ s.dumped, ∀ p ∈ s.pending, d.2 ≤ p.write.number

def Along (lo hi : Int) (j : Nat) : Resync F → List ResyncEvent → Prop
  | _, [] => True
  | s, e :: events => Timely lo hi j s e ∧ Along lo hi j (s.step j e) events

/-- No write is missing from both the snapshot and what was pushed, and none is in both; and whoever loads the one
and applies the other has the master's contents. -/
structure Exact (lo hi : Int) (j : Nat) (s : Resync F) (payload : Bytes) (n : Nat) (line : RespValue) : Prop where
  once : ∀ w ∈ s.writes, (w.number < n ∧ w ∉ s.pushed) ∨ (n ≤ w.number ∧ w ∈ s.pushed)
  same : ∃ stream, s.output j = (resyncReplies line payload {}).writeBuf ++ stream ∧
    ∀ (replica : Server F) (env : Env) (envs : Nat → Env), replica.waiters = [] → replica.store.conf.NoEvict →
      Within lo hi env → (∀ n, Within lo hi (envs n)) →
      let loaded := KvStore.loadFromString payload env replica.store
      loaded.1 = .ok () ∧ ∀ now, lo ≤ now → now ≤ hi → ∀ db,
        (follow envs (s.writes.length + 1) stream { replica with store := loaded.2 }).2.2.store.view now db =
          s.server.store.view now db

end Resync

/-! ## Lemmas -/

/-- Whoever loads the snapshot and applies the commands has the contents of `live`. -/
def Rebuilds (lo hi : Int) (payload : Bytes) (cmds : List RespValue) (live : KvStore F) : Prop :=
  ∀ (replica : Server F) (env : Env) (envs : Nat → Env), replica.waiters = [] → replica.store.conf.NoEvict →
    Within lo hi env → (∀ n, Within lo hi (envs n)) →
    (KvStore.loadFromString payload env replica.store).1 = .ok () ∧
      Applied lo hi live (applyAll (fun n => applyOne (envs n)) 0 cmds
        { replica with store := (KvStore.loadFromString payload env replica.store).2 })

section

variable {lo hi : Int} {env : Env} {req : RespValue} {ctx : KvContext} {sv : Server F} {s s' : KvStore F}
  {payload : Bytes} {cmds : List RespValue}

theorem loadFromString_dump (env env' : Env) (s s0 : KvStore F) :
    KvStore.loadFromString (dumpBinaryV2 env s) env' s0 = KvStore.loadBinaryV2 (dumpBinaryV2 env s) env' s0 := by
  have hmagic : (dumpBinaryV2 env s).take 6 = lit "SYRDB2" := rfl
  have hlen : 7 ≤ (dumpBinaryV2 env s).length := by
    show 7 ≤ (magicV2 ++ _).length
    rw [List.length_append]
    exact Nat.le_trans (by decide) (Nat.le_add_right _ _)
  have hne : (dumpBinaryV2 env s).isEmpty = false := by
    rw [List.isEmpty_eq_false_iff]
    intro h
    rw [h] at hlen
    cases hlen
  unfold KvStore.loadFromString
  rw [if_neg (by rw [hne]; decide), if_pos ⟨hlen, hmagic⟩]

/-- Within a quiet stretch nothing expires, so that a whole snapshot is the contents. -/
theorem alike_loaded (hw : Within lo hi env) (hs : s.Whole env) (hq : Quiet lo hi s) {env' : Env}
    (hw' : Within lo hi env') (s0 : KvStore F) :
    Alike lo hi s (KvStore.loadBinaryV2 (dumpBinaryV2 env s) env' s0).2 := by
  have hitem : ∀ db key, (KvStore.loadBinaryV2 (dumpBinaryV2 env s) env' s0).2.item db key =
      (s.live lo db key).map Item.loaded := by
    intro db key
    rw [item_loadBinaryV2_dump hs.fits, KvStore.live]
    cases ho : s.item db key with
    | none => rfl
    | some o =>
      have hd : QuietDeadline lo hi o.expireAtMs := hq db key o ho
      rw [Option.filter_some, Option.filter_some, hd.expired hw.1 hw.2, hd.expired hw'.1 hw'.2, Bool.and_self]
  refine ⟨?_, hq, ?_⟩
  · funext db key
    show (s.live lo db key).map Item.norm =
      ((KvStore.item (KvStore.loadBinaryV2 (dumpBinaryV2 env s) env' s0).2 db key).filter
        fun o => !o.expired lo).map Item.norm
    rw [hitem]
    cases hl : s.live lo db key with
    | none => rfl
    | some o =>
      obtain ⟨hvalid, hkept⟩ := hs.kept db key o (by rw [hq.live hw.1 hw.2, hl])
      have hlive : o.saved.expired lo = false := (KvStore.live_eq_some_iff.mp hl).2
      rw [Option.map_some, Option.map_some, Item.loaded_eq_saved hvalid, Option.filter_some, hlive, ← hkept]
      rfl
  · intro db key o ho
    rw [hitem, Option.map_eq_some_iff] at ho
    obtain ⟨o1, ho1, rfl⟩ := ho
    exact hq db key o1 (KvStore.live_eq_some_iff.mp ho1).1

theorem loaded_dump (hw : Within lo hi env) (hs : s.Whole env) (hq : Quiet lo hi s) {env' : Env} (hw' : Within lo hi env')
    {s0 : KvStore F} (hn : s0.conf.NoEvict) :
    (KvStore.loadFromString (dumpBinaryV2 env s) env' s0).1 = .ok () ∧
      (KvStore.loadFromString (dumpBinaryV2 env s) env' s0).2.conf.NoEvict ∧
      Alike lo hi s (KvStore.loadFromString (dumpBinaryV2 env s) env' s0).2 := by
  have halike := alike_loaded hw hs hq hw' s0
  rw [loadFromString_dump]
  refine ⟨?_, ?_, halike⟩
  · rw [loadBinaryV2_dump hs.fits]
  · rw [loadBinaryV2_dump hs.fits]
    exact hn.of_eq (KvStore.conf_install _ _)

theorem rebuilds_dump (hw : Within lo hi env) (hs : s.Whole env) (hq : Quiet lo hi s) :
    Rebuilds lo hi (dumpBinaryV2 env s) [] s := by
  intro replica env' envs hwait hn hw' he
  obtain ⟨hok, hconf, halike⟩ := loaded_dump hw hs hq hw' hn
  generalize KvStore.loadFromString (dumpBinaryV2 env s) env' replica.store = loaded at hok hconf halike ⊢
  exact ⟨hok, hwait, hconf, halike⟩

theorem Rebuilds.same (h : Rebuilds lo hi payload cmds s) (hw : Within lo hi env) (hs : SameItems env.now s s') :
    Rebuilds lo hi payload cmds s' := by
  intro replica env' envs hwait hn hw' he
  obtain ⟨hok, ha⟩ := h replica env' envs hwait hn hw' he
  exact ⟨hok, ha.waiters, ha.noEvict, ha.alike.same_left hw hs⟩

/-- What the execution of a write leaves. -/
structure Executed (lo hi : Int) (env : Env) (req : RespValue) (ctx : KvContext) (sv : Server F) : Prop where
  queue : QueueOk (dispatch env req ctx sv).2.1
  waiters : (dispatch env req ctx sv).2.2.waiters = []
  quiet : Quiet lo hi (dispatch env req ctx sv).2.2.store
  wire : IsWrite env req ctx sv → wire req = true
  rebuilds : ∀ payload cmds, Rebuilds lo hi payload cmds sv.store →
    Rebuilds lo hi payload (if IsWrite env req ctx sv then cmds ++ [req] else cmds) (dispatch env req ctx sv).2.2.store

theorem executed (hw : Within lo hi env) (hn : sv.store.conf.NoEvict) (hr : Reproducible lo hi 0 env req ctx sv)
    (hq : QueueOk ctx) (hwait : sv.waiters = []) (hquiet : Quiet lo hi sv.store) : Executed lo hi env req ctx sv := by
  by_cases hwrite : IsWrite env req ctx sv
  · obtain ⟨c, hf, hok⟩ := writeOk_of_isWrite hr hwrite
    obtain ⟨⟨store, slowlog, hsv⟩, hctx⟩ := dispatch_wrote hf hok.mutating hok.db hwait hwrite.1
    -- the master is its own replica here
    have hself : Applied lo hi sv.store sv := ⟨hwait, hn, .refl hquiet⟩
    refine ⟨?_, ?_, (hself.write hf hok hwrite hwait hn hw hw).alike.quietL, fun _ => hok.wire, ?_⟩
    · rw [hctx]
      exact hq
    · rw [hsv]
    · intro payload cmds h replica env' envs hwait' hn' hw' he
      obtain ⟨hload, ha⟩ := h replica env' envs hwait' hn' hw' he
      refine ⟨hload, ?_⟩
      rw [if_pos hwrite, applyAll_append]
      exact ha.write hf hok hwrite hwait hn hw (he _)
  · obtain ⟨hu, -⟩ := dispatch_unlogged hr hq hwait hn hquiet hwrite
    refine ⟨hu.queue, ?_, hu.items.quiet hquiet, fun h => absurd h hwrite, ?_⟩
    · rw [hu.waiters, hwait]
    · intro payload cmds h
      rw [if_neg hwrite]
      exact h.same hw hu.items

end

namespace Resync

variable {lo hi : Int} {i j : Nat} {env : Env} {req : RespValue} {s : Resync F}

/-! ### Where the writes stand -/

/-- After the dump no write is lost: what was pushed and what is pending make up the writes since. -/
structure Ordered (j : Nat) (s : Resync F) : Prop where
  numbers : s.writes.map Write.number = List.range s.writes.length
  due : ∀ p ∈ s.pending, p.write.number < s.writes.length
  unjoined : j ∉ s.server.repl.replicas → s.pushed = []
  joined : j ∈ s.server.repl.replicas → s.line.isSome ∧ ∃ d ∈ s.dumped, ∀ p ∈ s.pending, d.2 ≤ p.write.number
  rest : ∀ d ∈ s.dumped, d.2 ≤ s.writes.length ∧
    s.pushed ++ (s.pending.filter fun p => decide (d.2 ≤ p.write.number)).map PendingWrite.write = s.writes.drop d.2

theorem Ordered.start (h : Begins lo hi j s) : Ordered j s := by
  refine ⟨?_, ?_, fun _ => h.pushed, fun hj => absurd hj h.unregistered, ?_⟩
  · rw [h.writes]
    rfl
  · intro p hp
    rw [h.pending] at hp
    cases hp
  · intro d hd
    rw [h.dumped] at hd
    cases hd

theorem Ordered.execute (h : Ordered j s) (hrepl : (replied i (dispatch env req (s.conns i).ctx s.server)).repl = s.server.repl) :
    Ordered j (s.execute i env req) := by
  have hrepl' : (s.execute i env req).server.repl = s.server.repl := hrepl
  by_cases hw : IsWrite env req (s.conns i).ctx s.server
  · have hwrites : (s.execute i env req).writes = s.writes ++ [⟨req, s.writes.length⟩] := if_pos hw
    have hpending : (s.execute i env req).pending = s.pending ++
        [⟨i, ⟨req, s.writes.length⟩, (dispatch env req (s.conns i).ctx s.server).1⟩] := if_pos hw
    have hlen : (s.execute i env req).writes.length = s.writes.length + 1 := by rw [hwrites, List.length_append]; rfl
    refine ⟨?_, ?_, ?_, ?_, ?_⟩
    · rw [hlen, hwrites, List.map_append, h.numbers, List.range_succ]
      rfl
    · intro p hp
      rw [hpending] at hp
      rw [hlen]
      rcases List.mem_append.mp hp with hp | hp
      · exact Nat.lt_succ_of_lt (h.due p hp)
      · rw [List.mem_singleton.mp hp]
        exact Nat.lt_succ_self _
    · rw [hrepl']
      exact h.unjoined
    · rw [hrepl']
      intro hj
      obtain ⟨hl, d, hd, hall⟩ := h.joined hj
      refine ⟨hl, d, hd, fun p hp => ?_⟩
      rw [hpending] at hp
      rcases List.mem_append.mp hp with hp | hp
      · exact hall p hp
      · rw [List.mem_singleton.mp hp]
        exact (h.rest d hd).1
    · intro d hd
      obtain ⟨hle, hrest⟩ := h.rest d hd
      refine ⟨by rw [hlen]; omega, ?_⟩
      rw [hwrites, hpending, List.drop_append_of_le_length hle, ← hrest, List.filter_append, List.map_append,
        ← List.append_assoc]
      congr 1
      rw [List.filter_singleton, decide_eq_true hle]
      rfl
  · have hwrites : (s.execute i env req).writes = s.writes := if_neg hw
    have hpending : (s.execute i env req).pending = s.pending := if_neg hw
    refine ⟨?_, ?_, ?_, ?_, ?_⟩
    · rw [hwrites]
      exact h.numbers
    · rw [hwrites, hpending]
      exact h.due
    · rw [hrepl']
      exact h.unjoined
    · rw [hrepl', hpending]
      exact h.joined
    · rw [hwrites, hpending]
      exact h.rest

variable {p : PendingWrite}

theorem find_pending (hp : s.pending.find? (·.client == i) = some p) :
    ∃ before after, s.pending = before ++ p :: after ∧ p ∉ before ∧
      s.pending.eraseP (·.client == p.client) = before ++ after := by
  obtain ⟨hclient, before, after, heq, hno⟩ := List.find?_eq_some_iff_append.mp hp
  have hi : p.client = i := eq_of_beq hclient
  have hnot : ∀ q ∈ before, ¬ (q.client == i) = true := fun q hq => by simpa using hno q hq
  refine ⟨before, after, heq, fun hm => hnot p hm hclient, ?_⟩
  rw [hi, heq, List.eraseP_append_right _ hnot]
  show before ++ (p :: after).eraseP (fun q => q.client == i) = before ++ after
  rw [List.eraseP_cons, hclient]
  rfl

/-- Before the registration the snapshot has the write; after it the write is the next to be pushed. -/
theorem Ordered.propagate (h : Ordered j s) (hp : s.pending.find? (·.client == i) = some p)
    (hrepl : ((s.conns p.client).record p.write.req p.rsp s.server).repl.replicas = s.server.repl.replicas)
    (ht : Timely lo hi j s (.propagate i)) : Ordered j (s.propagate j p) := by
  have hrepl' : (s.propagate j p).server.repl.replicas = s.server.repl.replicas := hrepl
  obtain ⟨before, after, heq, hnot, herase⟩ := find_pending hp
  have hpending : (s.propagate j p).pending = before ++ after := herase
  have hsub : ∀ q ∈ (s.propagate j p).pending, q ∈ s.pending := by
    intro q hq
    rw [hpending, List.mem_append] at hq
    rw [heq, List.mem_append, List.mem_cons]
    tauto
  have hturn := ht p hp
  by_cases hj : j ∈ s.server.repl.replicas
  · rw [if_pos hj, heq] at hturn
    obtain rfl : before = [] := by
      cases before with
      | nil => rfl
      | cons q before =>
        obtain rfl : q = p := Option.some.inj hturn
        exact absurd List.mem_cons_self hnot
    have hpushed : (s.propagate j p).pushed = s.pushed ++ [p.write] := if_pos hj
    obtain ⟨hl, d, hd, hall⟩ := h.joined hj
    refine ⟨h.numbers, fun q hq => h.due q (hsub q hq), ?_, ?_, ?_⟩
    · rw [hrepl']
      exact fun hn => absurd hj hn
    · exact fun _ => ⟨hl, d, hd, fun q hq => hall q (hsub q hq)⟩
    · intro d' hd'
      obtain rfl : d = d' := Option.some.inj (hd.symm.trans hd')
      obtain ⟨hle, hrest⟩ := h.rest d hd
      refine ⟨hle, ?_⟩
      have hnum : d.2 ≤ p.write.number := hall p (by rw [heq]; exact List.mem_cons_self)
      rw [heq, List.nil_append, List.filter_cons, decide_eq_true hnum, if_pos rfl, List.map_cons] at hrest
      rw [hpushed, hpending, List.nil_append, List.append_assoc]
      exact hrest
  · rw [if_neg hj] at hturn
    have hpushed : (s.propagate j p).pushed = s.pushed := if_neg hj
    refine ⟨h.numbers, fun q hq => h.due q (hsub q hq), ?_, ?_, ?_⟩
    · rw [hrepl', hpushed]
      exact h.unjoined
    · rw [hrepl']
      exact fun hn => absurd hn hj
    · intro d hd
      obtain ⟨hle, hrest⟩ := h.rest d hd
      refine ⟨hle, ?_⟩
      have hnum : ¬ d.2 ≤ p.write.number := Nat.not_le_of_lt (hturn d hd)
      rw [heq, List.filter_append, List.filter_cons_of_neg (by simpa using hnum), ← List.filter_append] at hrest
      rw [hpushed, hpending]
      exact hrest

theorem Ordered.dump (h : Ordered j s) (hd : s.dumped = none) (payload : Bytes) :
    Ordered j { s with dumped := some (payload, s.writes.length) } := by
  have hj : j ∉ s.server.repl.replicas := by
    intro hj
    obtain ⟨-, d, hd', -⟩ := h.joined hj
    rw [hd] at hd'
    cases hd'
  refine ⟨h.numbers, h.due, h.unjoined, fun hn => absurd hn hj, ?_⟩
  intro d hd'
  cases hd'
  have hnone : (s.pending.filter fun p => decide (s.writes.length ≤ p.write.number)) = [] := by
    rw [List.filter_eq_nil_iff]
    intro p hp
    have := h.due p hp
    simpa using this
  refine ⟨Nat.le_refl _, ?_⟩
  show s.pushed ++ (s.pending.filter fun p => decide (s.writes.length ≤ p.write.number)).map _ = s.writes.drop s.writes.length
  rw [hnone, h.unjoined hj, List.drop_length]
  rfl

theorem Ordered.register (h : Ordered j s) {d : Bytes × Nat} {line : RespValue} (hd : s.dumped = some d)
    (hline : s.line = some line) (hj : j ∉ s.server.repl.replicas) {server : Server F}
    (ht : Timely lo hi j s .register) : Ordered j { s with server } :=
  ⟨h.numbers, h.due, fun _ => h.unjoined hj, fun _ => ⟨by rw [hline]; rfl, d, hd, ht d hd⟩, h.rest⟩

/-! ### What the server has sent -/

/-- The master, its clients, what session `j` was given, and what can be rebuilt from the snapshot. -/
structure Served (lo hi : Int) (j : Nat) (s : Resync F) : Prop where
  role : s.server.repl.role = .master
  waiters : s.server.waiters = []
  quiet : Quiet lo hi s.server.store
  clients : ∀ i, (s.conns i).replActive = true ∧ QueueOk (s.conns i).ctx
  due : ∀ p ∈ s.pending, p.rsp.isError = false ∧ isMutatingCommand (upperCmd p.write.req) = true
  wire : ∀ w ∈ s.writes, wire w.req = true
  absent : j ∉ s.server.repl.replicas → s.server.sessions j = {}
  present : j ∈ s.server.repl.replicas → s.server.repl.replicas.count j = 1 ∧
    ∃ d ∈ s.dumped, ∃ line ∈ s.line,
      s.output j = (resyncReplies line d.1 {}).writeBuf ++ (s.pushed.map Write.req).flatMap encode
  rebuilds : ∀ d ∈ s.dumped, Rebuilds lo hi d.1 ((s.writes.drop d.2).map Write.req) s.server.store

theorem Served.start (h : Begins lo hi j s) : Served lo hi j s := by
  refine ⟨h.role, h.waiters, h.quiet, fun i => ⟨(h.clients i).1, ?_⟩, ?_, ?_, fun _ => h.session,
    fun hj => absurd hj h.unregistered, ?_⟩
  · intro q hq
    rw [(h.clients i).2] at hq
    cases hq
  · intro p hp
    rw [h.pending] at hp
    cases hp
  · intro w hw
    rw [h.writes] at hw
    cases hw
  · intro d hd
    rw [h.dumped] at hd
    cases hd

theorem Served.execute (h : Served lo hi j s) (ho : Ordered j s) (hij : i ≠ j)
    (ht : Timely lo hi j s (.execute i env req)) : Served lo hi j (s.execute i env req) := by
  obtain ⟨hm, hw, hn, hr⟩ := ht
  have hx := executed hw hn hr (h.clients i).2 h.waiters h.quiet
  obtain ⟨store, waiters, slowlog, hsv⟩ := dispatch_frame hm env (s.conns i).ctx s.server
  obtain ⟨hrepl, hstore, hwait, hsession⟩ := replied_spec hij (dispatch env req (s.conns i).ctx s.server)
  have hrepl' : (s.execute i env req).server.repl = s.server.repl := hrepl.trans (by rw [hsv])
  have hsession' : (s.execute i env req).server.sessions j = s.server.sessions j := hsession.trans (by rw [hsv])
  have hstore' : (s.execute i env req).server.store = (dispatch env req (s.conns i).ctx s.server).2.2.store := hstore
  refine ⟨?_, ?_, ?_, ?_, ?_, ?_, ?_, ?_, ?_⟩
  · rw [hrepl']
    exact h.role
  · exact hwait.trans hx.waiters
  · rw [hstore']
    exact hx.quiet
  · intro k
    show (Function.update s.conns i _ k).replActive = true ∧ QueueOk (Function.update s.conns i _ k).ctx
    by_cases hk : k = i
    · subst hk
      rw [Function.update_self]
      exact ⟨(h.clients k).1, hx.queue⟩
    · rw [Function.update_of_ne hk]
      exact h.clients k
  · intro p hp
    by_cases hwrite : IsWrite env req (s.conns i).ctx s.server
    · have hpending : (s.execute i env req).pending = s.pending ++ _ := if_pos hwrite
      rw [hpending] at hp
      rcases List.mem_append.mp hp with hp | hp
      · exact h.due p hp
      · rw [List.mem_singleton.mp hp]
        exact hwrite
    · have hpending : (s.execute i env req).pending = s.pending := if_neg hwrite
      rw [hpending] at hp
      exact h.due p hp
  · intro w hw
    by_cases hwrite : IsWrite env req (s.conns i).ctx s.server
    · have hwrites : (s.execute i env req).writes = s.writes ++ _ := if_pos hwrite
      rw [hwrites] at hw
      rcases List.mem_append.mp hw with hw | hw
      · exact h.wire w hw
      · rw [List.mem_singleton.mp hw]
        exact hx.wire hwrite
    · have hwrites : (s.execute i env req).writes = s.writes := if_neg hwrite
      rw [hwrites] at hw
      exact h.wire w hw
  · rw [hrepl', hsession']
    exact h.absent
  · rw [hrepl']
    intro hj
    unfold output
    rw [hsession']
    exact h.present hj
  · intro d hd
    have hb := hx.rebuilds _ _ (h.rebuilds d hd)
    rw [hstore']
    by_cases hwrite : IsWrite env req (s.conns i).ctx s.server
    · have hwrites : (s.execute i env req).writes = s.writes ++ [⟨req, s.writes.length⟩] := if_pos hwrite
      rw [if_pos hwrite] at hb
      rw [hwrites, List.drop_append_of_le_length (ho.rest d hd).1, List.map_append]
      exact hb
    · have hwrites : (s.execute i env req).writes = s.writes := if_neg hwrite
      rw [if_neg hwrite] at hb
      rw [hwrites]
      exact hb

theorem sessions_record {conn : Conn} {rsp : RespValue} {sv : Server F} (hact : conn.replActive = true)
    (hw : rsp.isError = false ∧ isMutatingCommand (upperCmd req) = true) (hrole : sv.repl.role = .master) :
    (conn.record req rsp sv).store = sv.store ∧ (conn.record req rsp sv).waiters = sv.waiters ∧
      (conn.record req rsp sv).repl.role = sv.repl.role ∧ (conn.record req rsp sv).repl.replicas = sv.repl.replicas ∧
      (j ∉ sv.repl.replicas → (conn.record req rsp sv).sessions j = sv.sessions j) ∧
      (sv.repl.replicas.count j = 1 → (conn.record req rsp sv).sessions j =
        { writeBuf := [], sent := (sv.sessions j).sent ++ ((sv.sessions j).writeBuf ++ encode req) }) := by
  obtain ⟨aof, hrec⟩ := record_write sv hact hw
  obtain ⟨h1, h2, h3⟩ := store_propagateCommand req { sv with aof }
  rw [hrec]
  refine ⟨h1, h2, h3, replicas_propagateCommand _, fun hj => ?_, fun hj => sessions_propagateCommand req hrole hj⟩
  unfold Server.propagateCommand
  rw [if_pos hrole]
  have hj' : j ∉ (sv.repl.propagateCommand req).replicas := by
    rw [Replication.propagateCommand_replicas]
    exact hj
  exact foldl_push_other hj'

theorem Served.propagate (h : Served lo hi j s) (hp : p ∈ s.pending) :
    Served lo hi j (s.propagate j p) := by
  obtain ⟨h1, h2, h3, h4, hother, hone⟩ := sessions_record (j := j) (h.clients p.client).1 (h.due p hp) h.role
  have hreplicas : (s.propagate j p).server.repl.replicas = s.server.repl.replicas := h4
  refine ⟨h3.trans h.role, h2.trans h.waiters, ?_, h.clients, fun q hq => h.due q (List.mem_of_mem_eraseP hq), h.wire,
    ?_, ?_, ?_⟩
  · show Quiet lo hi ((s.conns p.client).record p.write.req p.rsp s.server).store
    rw [h1]
    exact h.quiet
  · rw [hreplicas]
    intro hj
    exact (hother hj).trans (h.absent hj)
  · rw [hreplicas]
    intro hj
    obtain ⟨hcount, d, hd, line, hline, hout⟩ := h.present hj
    have hpushed : (s.propagate j p).pushed = s.pushed ++ [p.write] := if_pos hj
    have hsession : (s.propagate j p).server.sessions j = _ := hone hcount
    refine ⟨hcount, d, hd, line, hline, ?_⟩
    rw [hpushed, List.map_append, List.flatMap_append, ← List.append_assoc, ← hout]
    unfold output
    rw [hsession]
    show _ ++ [] = (s.server.sessions j).sent ++ (s.server.sessions j).writeBuf ++ [p.write.req].flatMap encode
    rw [List.append_nil, List.flatMap_singleton, List.append_assoc]
  · show ∀ d ∈ s.dumped, Rebuilds lo hi d.1 _ ((s.conns p.client).record p.write.req p.rsp s.server).store
    rw [h1]
    exact h.rebuilds

theorem Served.register (h : Served lo hi j s) {d : Bytes × Nat} {line : RespValue} (hd : s.dumped = some d)
    (hline : s.line = some line) (hj : j ∉ s.server.repl.replicas) (hp : s.pushed = []) (ctx : KvContext) :
    Served lo hi j { s with server := (Commands.answerPsync j ctx s.server (.full line d.1)).2.2 } := by
  refine ⟨h.role, h.waiters, h.quiet, h.clients, h.due, h.wire, fun hn => ?_, fun _ => ?_, h.rebuilds⟩
  · exact absurd (List.mem_append_right _ (List.mem_singleton_self j)) hn
  · refine ⟨?_, d, hd, line, hline, ?_⟩
    · show (s.server.repl.replicas ++ [j]).count j = 1
      rw [List.count_append, List.count_eq_zero.mpr hj, List.count_singleton_self]
    · show (Function.update s.server.sessions j _ j).sent ++ (Function.update s.server.sessions j _ j).writeBuf = _
      rw [Function.update_self, h.absent hj, hp]
      show [] ++ (resyncReplies line d.1 {}).writeBuf = (resyncReplies line d.1 {}).writeBuf ++ []
      rw [List.append_nil, List.nil_append]

/-! ### Steps and runs -/

structure Tracked (lo hi : Int) (j : Nat) (s : Resync F) : Prop where
  ordered : Ordered j s
  served : Served lo hi j s

theorem Tracked.step (h : Tracked lo hi j s) {e : ResyncEvent} (ht : Timely lo hi j s e) :
    Tracked lo hi j (s.step j e) := by
  cases e with
  | execute i env req =>
    show Tracked lo hi j (if i = j ∨ s.pending.any (·.client == i) then s else s.execute i env req)
    by_cases hc : i = j ∨ s.pending.any (·.client == i)
    · rw [if_pos hc]
      exact h
    · rw [if_neg hc]
      have hij : i ≠ j := fun hij => hc (.inl hij)
      obtain ⟨store, waiters, slowlog, hsv⟩ := dispatch_frame ht.1 env (s.conns i).ctx s.server
      have hrepl := (replied_spec hij (dispatch env req (s.conns i).ctx s.server)).1
      exact ⟨h.ordered.execute (hrepl.trans (by rw [hsv])), h.served.execute h.ordered hij ht⟩
  | propagate i =>
    show Tracked lo hi j (match s.pending.find? (·.client == i) with | none => s | some p => s.propagate j p)
    cases hp : s.pending.find? (·.client == i) with
    | none => exact h
    | some p =>
      have hmem : p ∈ s.pending := List.mem_of_find?_eq_some hp
      have hrec := sessions_record (j := j) (h.served.clients p.client).1 (h.served.due p hmem) h.served.role
      exact ⟨h.ordered.propagate hp hrec.2.2.2.1 ht, h.served.propagate hmem⟩
  | dump env replid offset =>
    show Tracked lo hi j (if s.dumped = none ∧ _ then _ else s)
    split
    next hc =>
      refine ⟨h.ordered.dump hc.1 _, ?_⟩
      have hj : j ∉ s.server.repl.replicas := by
        intro hj
        obtain ⟨-, d, hd, -⟩ := h.ordered.joined hj
        rw [hc.1] at hd
        cases hd
      refine ⟨h.served.role, h.served.waiters, h.served.quiet, h.served.clients, h.served.due, h.served.wire,
        h.served.absent, fun hn => absurd hn hj, ?_⟩
      intro d hd
      cases hd
      show Rebuilds lo hi _ ((s.writes.drop s.writes.length).map Write.req) _
      rw [List.drop_length]
      exact rebuilds_dump ht.1 ht.2 h.served.quiet
    next => exact h
  | readOffset =>
    show Tracked lo hi j (if s.dumped.isSome ∧ s.line = none then _ else s)
    split
    next hc =>
      have hj : j ∉ s.server.repl.replicas := by
        intro hj
        have hl := (h.ordered.joined hj).1
        rw [hc.2] at hl
        cases hl
      exact ⟨⟨h.ordered.numbers, h.ordered.due, h.ordered.unjoined, fun hn => absurd hn hj, h.ordered.rest⟩,
        ⟨h.served.role, h.served.waiters, h.served.quiet, h.served.clients, h.served.due, h.served.wire,
          h.served.absent, fun hn => absurd hn hj, h.served.rebuilds⟩⟩
    next => exact h
  | register =>
    rcases Option.eq_none_or_eq_some s.dumped with hd | ⟨d, hd⟩
    · have hstep : s.step j .register = s := by simp only [Resync.step, hd]
      rwa [hstep]
    · rcases Option.eq_none_or_eq_some s.line with hline | ⟨line, hline⟩
      · have hstep : s.step j .register = s := by simp only [Resync.step, hd, hline]
        rwa [hstep]
      · by_cases hj : j ∈ s.server.repl.replicas
        · have hstep : s.step j .register = s := by simp only [Resync.step, hd, hline, if_pos hj]
          rwa [hstep]
        · have hstep : s.step j .register =
              { s with server := (Commands.answerPsync j (s.conns j).ctx s.server (.full line d.1)).2.2 } := by
            simp only [Resync.step, hd, hline, if_neg hj]
          rw [hstep]
          exact ⟨h.ordered.register hd hline hj ht, h.served.register hd hline hj (h.ordered.unjoined hj) _⟩

theorem Tracked.run (events : List ResyncEvent) (h : Tracked lo hi j s) (ht : Along lo hi j s events) :
    Tracked lo hi j (s.run j events) := by
  induction events generalizing s with
  | nil => exact h
  | cons e events ih => exact ih (h.step ht.1) ht.2

theorem Ordered.number (h : Ordered j s) {k : Nat} (hk : k < s.writes.length) : s.writes[k].number = k := by
  have hget : (s.writes.map Write.number)[k]? = (List.range s.writes.length)[k]? := by rw [h.numbers]
  simpa [hk] using hget

theorem Ordered.mem_drop (h : Ordered j s) {w : Write} (hw : w ∈ s.writes) (n : Nat) :
    w ∈ s.writes.drop n ↔ n ≤ w.number := by
  constructor
  · intro hm
    obtain ⟨k, hk, rfl⟩ := List.getElem_of_mem hm
    rw [List.length_drop] at hk
    rw [List.getElem_drop, h.number (by omega)]
    omega
  · intro hn
    obtain ⟨k, hk, rfl⟩ := List.getElem_of_mem hw
    rw [h.number hk] at hn
    obtain ⟨m, rfl⟩ := Nat.exists_eq_add_of_le hn
    rw [List.mem_drop_iff_getElem]
    exact ⟨m, by omega, rfl⟩

/-! ## Top theorem -/

/-- At the end, when all writes are propagated and the session is registered. -/
theorem resync_exact (h : Begins lo hi j s) (events : List ResyncEvent) (ht : Along lo hi j s events)
    (hend : (s.run j events).pending = []) (hj : j ∈ (s.run j events).server.repl.replicas) :
    ∃ payload n line, (s.run j events).dumped = some (payload, n) ∧ (s.run j events).line = some line ∧
      Exact lo hi j (s.run j events) payload n line := by
  obtain ⟨ho, hs⟩ := Tracked.run events ⟨.start h, .start h⟩ ht
  generalize s.run j events = s' at *
  obtain ⟨-, ⟨payload, n⟩, hd, line, hline, hout⟩ := hs.present hj
  obtain ⟨hle, hrest⟩ := ho.rest _ hd
  rw [hend, List.filter_nil, List.map_nil, List.append_nil] at hrest
  refine ⟨payload, n, line, hd, hline, ?_, (s'.pushed.map Write.req).flatMap encode, hout, ?_⟩
  · intro w hw
    rw [hrest, ho.mem_drop hw]
    omega
  · intro replica env envs hwait hn hw he
    obtain ⟨hload, ha⟩ := hs.rebuilds _ hd replica env envs hwait hn hw he
    refine ⟨hload, fun now h1 h2 db => ?_⟩
    have hwire : ∀ req ∈ s'.pushed.map Write.req, wire req = true := by
      intro req hr
      obtain ⟨w, hw, rfl⟩ := List.mem_map.mp hr
      rw [hrest] at hw
      exact hs.wire w (List.mem_of_mem_drop hw)
    have hlen : (s'.pushed.map Write.req).length < s'.writes.length + 1 := by
      rw [hrest, List.length_map, List.length_drop]
      omega
    rw [follow, scan_encode _ _ hwire _ hlen, hrest]
    funext key
    exact (ha.alike.live ⟨h1, h2⟩ ⟨h1, h2⟩ db key).symm

/-- A master with clients, which has the number 1 under `k`. -/
def busy : Resync Int where
  server := { logging with store := holding 0 (lit "k") { value := lit "1" } }
  conns i := { ctx := { session := some i }, replActive := true }

theorem begins_busy : Begins 1 1 7 busy where
  role := rfl
  unregistered := by decide
  session := rfl
  waiters := rfl
  quiet _ _ _ h := by
    obtain ⟨-, -, rfl⟩ := item_holding h
    exact .inl rfl
  clients _ := ⟨rfl, rfl⟩
  pending := rfl
  dumped := rfl
  writes := rfl
  pushed := rfl

def incrK (i : Nat) : ResyncEvent := .execute i { now := 1 } (command ["INCR", "k"])

def dumpAt1 : ResyncEvent := .dump { now := 1 } (lit "?") (-1)

/-- The write is executed before the dump and propagated after the registration. -/
def inBoth : Resync Int := busy.run 7 [incrK 0, dumpAt1, .readOffset, .register, .propagate 0]

/-- The write is executed and propagated between the dump and the registration. -/
def inNeither : Resync Int := busy.run 7 [dumpAt1, .readOffset, incrK 0, .propagate 0, .register]

theorem in_both_or_neither :
    Begins 1 1 7 busy ∧
    (inBoth.pending.isEmpty = true ∧ 7 ∈ inBoth.server.repl.replicas ∧
      ∀ payload n line, inBoth.dumped = some (payload, n) → ¬ Exact 1 1 7 inBoth payload n line) ∧
    (inNeither.pending.isEmpty = true ∧ 7 ∈ inNeither.server.repl.replicas ∧
      ∀ payload n line, inNeither.dumped = some (payload, n) → ¬ Exact 1 1 7 inNeither payload n line) := by
  refine ⟨begins_busy, ⟨by decide, by decide, ?_⟩, ⟨by decide, by decide, ?_⟩⟩
  · intro payload n line hd h
    have hsame : inBoth.pushed = inBoth.writes := rfl
    have hn : inBoth.dumped.map (·.2) = some 1 := by decide
    have hnum : ∀ w ∈ inBoth.writes, w.number = 0 := by decide
    obtain ⟨w, hw⟩ := List.exists_mem_of_ne_nil inBoth.writes (by rw [← List.isEmpty_eq_false_iff]; decide)
    rw [hd] at hn
    obtain rfl : n = 1 := Option.some.inj hn
    rcases h.once w hw with ⟨-, hnot⟩ | ⟨hle, -⟩
    · exact hnot (by rw [hsame]; exact hw)
    · rw [hnum w hw] at hle
      omega
  · intro payload n line hd h
    have hnone : inNeither.pushed = [] := rfl
    have hn : inNeither.dumped.map (·.2) = some 0 := by decide
    obtain ⟨w, hw⟩ := List.exists_mem_of_ne_nil inNeither.writes (by rw [← List.isEmpty_eq_false_iff]; decide)
    rw [hd] at hn
    obtain rfl : n = 0 := Option.some.inj hn
    rcases h.once w hw with ⟨hlt, -⟩ | ⟨-, hm⟩
    · omega
    · rw [hnone] at hm
      cases hm

theorem whole_busy : busy.server.store.Whole { now := 1 } := by
  refine ⟨⟨by decide, by decide, by decide, ?_, ?_, ?_⟩, ?_⟩
  · intro db key o h
    obtain ⟨-, rfl, -⟩ := live_holding h
    show (lit "k").length < 2 ^ 32
    decide
  · intro db key o h
    obtain ⟨-, -, rfl⟩ := live_holding h
    show -2 ^ 63 ≤ (0 : Int) ∧ (0 : Int) < 2 ^ 63
    decide
  · intro db key o h
    obtain ⟨-, -, rfl⟩ := live_holding h
    exact fits_string (by show (lit "1").length < 2 ^ 32; decide)
  · intro db key o h
    obtain ⟨-, -, rfl⟩ := live_holding h
    refine ⟨fun c => ?_, ?_⟩
    · intro hc
      cases hc
    · rfl

theorem timely_incrK {s : Resync Int} (h : checkEvent 1 1 0 { server := s.server, conns := s.conns } (at1 i ["INCR", "k"]) = true) :
    Timely 1 1 j s (incrK i) := ⟨by decide, request_of_check h⟩

theorem timely_propagate {s : Resync Int} {q : PendingWrite} (hj : j ∈ s.server.repl.replicas) (hq : s.pending = [q]) :
    Timely 1 1 j s (.propagate i) := by
  intro p hp
  rw [if_pos hj, hq]
  rw [hq] at hp
  have hm := List.mem_of_find?_eq_some hp
  rw [List.mem_singleton.mp hm]
  rfl

/-- Two clients write after the dump, and propagate after the registration. -/
theorem resync_exact_two :
    let s := busy.run 7 [dumpAt1, incrK 0, .readOffset, .register, .propagate 0, incrK 1, .propagate 1]
    ∃ payload n line, s.dumped = some (payload, n) ∧ s.line = some line ∧ Exact 1 1 7 s payload n line := by
  refine resync_exact begins_busy _ ⟨?_, ?_, trivial, ?_, ?_, ?_, ?_, trivial⟩ rfl (by decide)
  · exact ⟨⟨by decide, by decide⟩, whole_busy⟩
  · exact timely_incrK (by decide)
  · intro d hd p hp
    obtain rfl := Option.some.inj hd
    exact Nat.zero_le _
  · exact timely_propagate (by decide) rfl
  · exact timely_incrK (by decide)
  · exact timely_propagate (by decide) rfl

end Resync

end Kv
