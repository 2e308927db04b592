import ZeroFrameworks.Kv.Commands.Args
import ZeroFrameworks.Kv.Persistence.Rdb
import ZeroFrameworks.Kv.Resp.Accepted
import ZeroFrameworks.Kv.Store.Strings

/-!
# MIGRATE

A key is sent to the target with RESTORE and deleted when the answer is no error.  The answer is read into the front of a
buffer of 4096 zeros, every read over the one before, until the whole buffer parses.

    a key that is missing afterwards has been sent as it was, and the answer was taken for no error   (missing_was_sent)
    an answer that comes in one read is taken as it is   (recvResponse_whole)
    a refusal that comes in two reads is taken for no error: the key is deleted   (refused_key_deleted)
-/

namespace Kv

namespace Cluster

variable {F : Type} [Platform F]

/-! ## Algorithm -/

/-- `recvResponse` on what the reads return, with the buffer. -/
def recvResponse (buf : Bytes) (reads : List Bytes) : RespValue × List Bytes :=
  match tryParse buf with
  | .ok v _ => (v, reads)
  | .error => (.error (lit "ERR protocol error during MIGRATE"), reads)
  | .needMore =>
    match reads with
    | [] => (.error (lit "ERR connection lost during MIGRATE"), [])
    | read :: reads =>
      if read = [] then (.error (lit "ERR connection lost during MIGRATE"), reads)
      else recvResponse (read ++ buf.drop read.length) reads

/-- COPY, REPLACE and KEYS. -/
structure MigrateOptions where
  copy : Bool := false
  replace : Bool := false
  keys : List Bytes := []

/-- The loop over the optional arguments. -/
def migrateOptions (o : MigrateOptions) : List RespValue → MigrateOptions
  | [] => o
  | v :: rest =>
    if v.isNull then migrateOptions o rest
    else if upper v.str = lit "COPY" then migrateOptions { o with copy := true } rest
    else if upper v.str = lit "REPLACE" then migrateOptions { o with replace := true } rest
    else if upper v.str = lit "KEYS" ∧ rest ≠ [] then
      { o with keys := o.keys ++ (rest.filter (!·.isNull)).map RespValue.str }
    else migrateOptions o rest

/-- The source and its connection, with the commands that were written and what was taken for their answers. -/
structure Migration (F : Type) [Platform F] where
  store : KvStore F
  reads : List Bytes
  log : List (RespValue × RespValue) := []

/-- The RESTORE of an entry. -/
def restoreCommand (env : Env) (replace : Bool) (k : Bytes) (o : Item F) : RespValue :=
  let ttl := if env.now < o.expireAtMs then o.expireAtMs - env.now else 0
  let payload := KvStore.dumpMagic ++ (appendI64 o.expireAtMs ++ (appendU8 o.type.code ++ writeEntryPayload env.order o.toObj))
  .array ([.bulk (lit "RESTORE"), .bulk k, .bulk (printInt ttl), .bulk payload] ++
    if replace then [.bulk (lit "REPLACE")] else [])

/-- One key; the error with which MIGRATE ends there. -/
def migrateKey (env : Env) (o : MigrateOptions) (db : Int) (sends : Nat → Bool) (k : Bytes) (m : Migration F) :
    Option RespValue × Migration F :=
  match m.store.live env.now db k with
  | none => (if o.copy then some (.error (lit "ERR can't DUMP key " ++ k)) else none, m)
  | some item =>
    let cmd := restoreCommand env o.replace k item
    if !sends m.log.length then (some (.error (lit "ERR failed to send RESTORE to target")), m)
    else
      let (rsp, reads) := recvResponse (List.replicate 4096 0) m.reads
      let m := { m with reads := reads, log := m.log ++ [(cmd, rsp)] }
      match rsp with
      | .error e => (some (.error (lit "ERR Target instance replied with error: " ++ e)), m)
      | _ => (none, if o.copy then m else { m with store := (KvStore.del db k env m.store).2 })

def migrateKeys (env : Env) (o : MigrateOptions) (db : Int) (sends : Nat → Bool) : List Bytes → Migration F →
    RespValue × Migration F
  | [], m => (.ok, m)
  | k :: ks, m =>
    match migrateKey env o db sends k m with
    | (some e, m) => (e, m)
    | (none, m) => migrateKeys env o db sends ks m

/-- `handleMigrate`, where `connects` says whether the target is found and accepts. -/
def handleMigrate (env : Env) (db : Int) (args : List RespValue) (connects : Bytes → Bytes → Bool) (sends : Nat → Bool)
    (m : Migration F) : RespValue × Migration F :=
  if args.length < 6 then (.error (lit "ERR wrong number of arguments for 'migrate' command"), m)
  else if [1, 2, 3, 4, 5].any (nullAt args) then (.error (lit "ERR syntax error"), m)
  else
    let o := migrateOptions {} (args.drop 6)
    let keys := if o.keys = [] then [strAt args 3] else o.keys
    if !connects (strAt args 1) (strAt args 2) then
      (.error (lit "ERR can't connect to target node: " ++ strAt args 1 ++ lit ":" ++ printInt (i32 (strtoll (strAt args 2)).1)), m)
    else migrateKeys env o db sends keys m

/-! ## Specification -/

/-- The command was written, and the answer was taken for no error. -/
def Migration.Accepted (m : Migration F) (cmd : RespValue) : Prop :=
  ∃ answer, (cmd, answer) ∈ m.log ∧ ∀ e, answer ≠ .error e

/-- The key is as it was in `s`, or it is missing, was sent as it was, and was accepted. -/
def Accounted (env : Env) (o : MigrateOptions) (db : Int) (s : KvStore F) (m : Migration F) (db' : Int) (k : Bytes) : Prop :=
  m.store.live env.now db' k = s.live env.now db' k ∨
    m.store.live env.now db' k = none ∧ db' = db ∧ o.copy = false ∧
      ∃ item, s.live env.now db k = some item ∧ m.Accepted (restoreCommand env o.replace k item)

/-! ## Lemmas -/

variable {env : Env} {o : MigrateOptions} {db : Int} {sends : Nat → Bool} {k : Bytes} {m : Migration F}

theorem live_del (env : Env) (db : Int) (k : Bytes) (s : KvStore F) (db' : Int) (k' : Bytes) :
    (KvStore.del db k env s).2.live env.now db' k' = if db' = db ∧ k' = k then none else s.live env.now db' k' := by
  show (KvStore.onFound env.now db k 0 _ s).2.live env.now db' k' = _
  unfold KvStore.live
  rw [KvStore.item_onFound]
  split
  · cases KvStore.live env.now s db k <;> rfl
  · rfl

theorem Accounted.trans {s : KvStore F} {m m' : Migration F} {db' : Int} (h : Accounted env o db s m db' k)
    (h' : Accounted env o db m.store m' db' k) {new : List (RespValue × RespValue)} (hlog : m'.log = m.log ++ new) :
    Accounted env o db s m' db' k := by
  rcases h with hsame | ⟨hgone, hdb, hcopy, item, hitem, answer, hin, hne⟩
  · rcases h' with hsame' | ⟨hgone, rfl, hcopy, item, hitem, hacc⟩
    · exact .inl (hsame'.trans hsame)
    · exact .inr ⟨hgone, rfl, hcopy, item, hsame ▸ hitem, hacc⟩
  · refine .inr ⟨?_, hdb, hcopy, item, hitem, answer, ?_, hne⟩
    · rcases h' with hsame' | ⟨hgone', -⟩
      · exact hsame'.trans hgone
      · exact hgone'
    · rw [hlog]
      exact List.mem_append_left _ hin

theorem migrateKey_step (env : Env) (o : MigrateOptions) (db : Int) (sends : Nat → Bool) (key : Bytes) (m : Migration F) :
    let m' := (migrateKey env o db sends key m).2
    (∃ new, m'.log = m.log ++ new) ∧ ∀ db' k, Accounted env o db m.store m' db' k := by
  unfold migrateKey
  cases hlive : m.store.live env.now db key with
  | none => exact ⟨⟨[], (List.append_nil _).symm⟩, fun _ _ => .inl rfl⟩
  | some item =>
    simp only
    split
    · exact ⟨⟨[], (List.append_nil _).symm⟩, fun _ _ => .inl rfl⟩
    · split
      · exact ⟨⟨_, rfl⟩, fun _ _ => .inl rfl⟩
      · next hno =>
        split
        · exact ⟨⟨_, rfl⟩, fun _ _ => .inl rfl⟩
        · next hcopy =>
          -- the key is deleted
          refine ⟨⟨_, rfl⟩, fun db' k => ?_⟩
          unfold Accounted
          rw [live_del]
          split
          · next hk =>
            obtain ⟨rfl, rfl⟩ := hk
            refine .inr ⟨rfl, rfl, by simpa using hcopy, item, hlive, _, ?_, fun e he => hno e he⟩
            exact List.mem_append_right _ (List.mem_singleton_self _)
          · exact .inl rfl

theorem migrateKeys_run (env : Env) (o : MigrateOptions) (db : Int) (sends : Nat → Bool) (ks : List Bytes) (m : Migration F) :
    let m' := (migrateKeys env o db sends ks m).2
    (∃ new, m'.log = m.log ++ new) ∧ ∀ db' k, Accounted env o db m.store m' db' k := by
  induction ks generalizing m with
  | nil => exact ⟨⟨[], (List.append_nil _).symm⟩, fun _ _ => .inl rfl⟩
  | cons key ks ih =>
    obtain ⟨⟨new, hlog⟩, hfirst⟩ := migrateKey_step env o db sends key m
    unfold migrateKeys
    generalize migrateKey env o db sends key m = r at hlog hfirst
    obtain ⟨_ | e, m1⟩ := r
    · obtain ⟨⟨new', hlog'⟩, hrest⟩ := ih m1
      exact ⟨⟨new ++ new', by rw [hlog', hlog, List.append_assoc]⟩, fun db' k => (hfirst db' k).trans (hrest db' k) hlog'⟩
    · exact ⟨⟨new, hlog⟩, hfirst⟩

theorem migrateKey_ne_ok {e : RespValue} (h : (migrateKey env o db sends k m).1 = some e) : e ≠ .ok := by
  suffices ∃ text, e = .error text by
    obtain ⟨text, rfl⟩ := this
    exact nofun
  unfold migrateKey at h
  split at h
  · split at h
    · exact ⟨_, (Option.some.inj h).symm⟩
    · cases h
  · split at h
    · exact ⟨_, (Option.some.inj h).symm⟩
    · simp only at h
      split at h
      · exact ⟨_, (Option.some.inj h).symm⟩
      · cases h

theorem migrateKeys_append {before : List Bytes} {m' : Migration F} (h : migrateKeys env o db sends before m = (.ok, m'))
    (after : List Bytes) : migrateKeys env o db sends (before ++ after) m = migrateKeys env o db sends after m' := by
  induction before generalizing m with
  | nil =>
    cases h
    rfl
  | cons key before ih =>
    rw [List.cons_append, migrateKeys]
    rw [migrateKeys] at h
    have herror : ∀ e, (migrateKey env o db sends key m).1 = some e → e ≠ .ok := fun _ => migrateKey_ne_ok
    generalize migrateKey env o db sends key m = r at h herror
    obtain ⟨_ | e, m1⟩ := r
    · exact ih h
    · exact absurd (Prod.mk.inj h).1 (herror e rfl)

/-! ### Answers -/

theorem findCrlf_of_no_cr {l : Bytes} (h : 13 ∉ l) : findCrlf l = none := by
  induction l with
  | nil => rfl
  | cons c l ih =>
    simp only [List.mem_cons, not_or] at h
    rw [findCrlf, if_neg (by simp [Ne.symm h.1]), ih h.2]
    rfl

theorem tryParse_zeros (n : Nat) : tryParse (List.replicate n 0) = .needMore := by
  have hno : findCrlf (List.replicate n (0 : UInt8)) = none :=
    findCrlf_of_no_cr fun h => absurd (List.eq_of_mem_replicate h) (by decide)
  cases n with
  | zero => rfl
  | succ n =>
    show parseInline _ = _
    rw [parseInline, readLine, hno]
    rfl

theorem recvResponse_read {buf read : Bytes} (h : tryParse buf = .needMore) (hne : read ≠ []) (reads : List Bytes) :
    recvResponse buf (read :: reads) = recvResponse (read ++ buf.drop read.length) reads := by
  rw [recvResponse, h]
  exact if_neg hne

theorem recvResponse_ok {buf : Bytes} {v : RespValue} {n : Nat} (h : tryParse buf = .ok v n) (reads : List Bytes) :
    recvResponse buf reads = (v, reads) := by
  unfold recvResponse
  rw [h]

variable {a b : Bytes}

/-- A refusal that comes in two reads is taken for a line of words. -/
theorem recvResponse_split (ha : 13 ∉ a) (hb : 13 ∉ b) (hword : ∃ c ∈ b, isSpace c = false)
    (hhead : ∀ c, b.head? = some c → isRespPrefix c = false) (n : Nat) (reads : List Bytes) :
    ∃ words, recvResponse (List.replicate n 0) ((45 :: a) :: (b ++ crlf) :: reads) = (.array words, reads) := by
  have hfirst : ∀ m, tryParse ((45 :: a) ++ List.replicate m 0) = .needMore := by
    intro m
    have hno : 13 ∉ a ++ List.replicate m 0 := by
      simp [ha, List.mem_replicate]
    show parseValue _ (45 :: (a ++ List.replicate m 0)) = _
    rw [List.cons_append, List.length_cons, parseValue, if_pos (.inr rfl), readLine, findCrlf_of_no_cr hno]
    rfl
  have hsecond : ∀ stale, ∃ words size, tryParse (b ++ crlf ++ stale) = .ok (.array words) size := by
    intro stale
    have hwords := (words_ne_nil b).mpr hword
    obtain ⟨c, rest, rfl⟩ : ∃ c rest, b = c :: rest := by
      obtain ⟨c, hc, -⟩ := hword
      exact List.exists_cons_of_ne_nil (List.ne_nil_of_mem hc)
    have hline : tryParse (c :: rest ++ crlf ++ stale) = parseInline (c :: rest ++ crlf ++ stale) :=
      if_neg (by rw [hhead c rfl]; exact Bool.false_ne_true)
    rw [hline, parseInline, readLine_append (c :: rest) stale (findCrlf_of_no_cr hb)]
    simp only [List.isEmpty_cons, Bool.false_eq_true, if_false, List.isEmpty_iff, if_neg hwords]
    exact ⟨_, _, rfl⟩
  obtain ⟨words, size, hparse⟩ := hsecond
    ((45 :: a ++ List.replicate (n - (45 :: a).length) 0).drop (b ++ crlf).length)
  refine ⟨words, ?_⟩
  rw [recvResponse_read (tryParse_zeros n) (List.cons_ne_nil 45 a), List.drop_replicate,
    recvResponse_read (hfirst _) (by simp [crlf]), recvResponse_ok hparse]

theorem migrateKey_refused (env : Env) (ha : 13 ∉ a) (hb : 13 ∉ b) (hword : ∃ c ∈ b, isSpace c = false)
    (hhead : ∀ c, b.head? = some c → isRespPrefix c = false) {item : Item F} (hlive : m.store.live env.now db k = some item)
    (hsend : sends m.log.length = true) (hcopy : o.copy = false) {r1 r2 : Bytes} {reads : List Bytes}
    (hreads : m.reads = r1 :: r2 :: reads) (herror : r1 ++ r2 = encode (.error (a ++ b)))
    (hcut : r1.length = a.length + 1) :
    ∃ m', migrateKey env o db sends k m = (none, m') ∧ m'.store.live env.now db k = none := by
  have hparts : r1 = 45 :: a ∧ r2 = b ++ crlf := by
    refine List.append_inj (herror.trans ?_) (by simpa using hcut)
    show 45 :: ((a ++ b) ++ crlf) = _
    rw [List.append_assoc, List.cons_append]
  obtain ⟨words, hrecv⟩ := recvResponse_split ha hb hword hhead 4096 reads
  unfold migrateKey
  rw [hlive]
  simp only [hsend, Bool.not_true, Bool.false_eq_true, if_false, hreads, hparts.1, hparts.2, hrecv, hcopy]
  refine ⟨_, rfl, ?_⟩
  rw [live_del, if_pos ⟨rfl, rfl⟩]

/-! ## Top theorems -/

/-- A key that is missing after MIGRATE has been sent as it was, and the answer was taken for no error.  All others are as
before.  The clock is read once, for DUMP and for DEL, and nobody else comes between the two. -/
theorem missing_was_sent (env : Env) (db : Int) (args : List RespValue) (connects : Bytes → Bytes → Bool)
    (sends : Nat → Bool) (s : KvStore F) (reads : List Bytes) (db' : Int) (k : Bytes) :
    Accounted env (migrateOptions {} (args.drop 6)) db s
      (handleMigrate env db args connects sends { store := s, reads := reads }).2 db' k := by
  unfold handleMigrate
  split
  · exact .inl rfl
  · split
    · exact .inl rfl
    · simp only
      split
      · exact .inl rfl
      · exact (migrateKeys_run env _ db sends _ { store := s, reads := reads }).2 db' k

/-- A key whose RESTORE the target refuses, with an error `ab` that comes in two reads, is deleted, and MIGRATE goes on
as if it had been accepted. -/
theorem refused_key_deleted (env : Env) (ha : 13 ∉ a) (hb : 13 ∉ b) (hword : ∃ c ∈ b, isSpace c = false)
    (hhead : ∀ c, b.head? = some c → isRespPrefix c = false) {args : List RespValue} {connects : Bytes → Bytes → Bool}
    {start : Migration F} (hargs : 6 ≤ args.length) (hgiven : [1, 2, 3, 4, 5].any (nullAt args) = false)
    (hconnects : connects (strAt args 1) (strAt args 2) = true) (ho : migrateOptions {} (args.drop 6) = o)
    {before after : List Bytes} (hkeys : (if o.keys = [] then [strAt args 3] else o.keys) = before ++ k :: after)
    (hbefore : migrateKeys env o db sends before start = (.ok, m)) {item : Item F}
    (hlive : m.store.live env.now db k = some item) (hsend : sends m.log.length = true) (hcopy : o.copy = false)
    {r1 r2 : Bytes} {reads : List Bytes} (hreads : m.reads = r1 :: r2 :: reads)
    (herror : r1 ++ r2 = encode (.error (a ++ b))) (hcut : r1.length = a.length + 1) :
    let done := handleMigrate env db args connects sends start
    done.2.store.live env.now db k = none ∧ (after = [] → done.1 = .ok) := by
  obtain ⟨m', hkey, hgone⟩ := migrateKey_refused env ha hb hword hhead hlive hsend hcopy hreads herror hcut
  have hrun : handleMigrate env db args connects sends start = migrateKeys env o db sends after m' := by
    unfold handleMigrate
    rw [if_neg (by omega), hgiven]
    simp only [Bool.false_eq_true, if_false, ho, hkeys, hconnects, Bool.not_true]
    rw [migrateKeys_append hbefore, migrateKeys, hkey]
  intro done
  refine ⟨?_, ?_⟩
  · rcases (migrateKeys_run env o db sends after m').2 db k with hsame | ⟨hnone, -⟩
    · show (handleMigrate env db args connects sends start).2.store.live env.now db k = none
      rw [hrun]
      exact hsame.trans hgone
    · show (handleMigrate env db args connects sends start).2.store.live env.now db k = none
      rw [hrun]
      exact hnone
  · rintro rfl
    exact congrArg Prod.fst hrun

/-- A source that reads the refusal of `k` in two pieces. -/
def sampleMigration : Migration Int :=
  { store := (KvStore.set 0 (lit "k") (lit "v") { now := 1 } .empty).2
    reads := [lit "-ERR", lit " busy\r\n"] }

def sampleMigrate : List RespValue :=
  ["MIGRATE", "10.0.0.2", "6379", "k", "0", "1000"].map fun s => .bulk (lit s)

theorem refused_key_deleted_sample :
    let done := handleMigrate { now := 1 } 0 sampleMigrate (fun _ _ => true) (fun _ => true) sampleMigration
    done.2.store.live 1 0 (lit "k") = none ∧ done.1 = .ok := by
  have hlive : (sampleMigration.store.live 1 0 (lit "k")).isSome = true := by decide
  have hhead : ∀ c, (lit " busy").head? = some c → isRespPrefix c = false := by
    intro c hc
    obtain rfl := Option.some.inj hc
    rfl
  obtain ⟨item, hitem⟩ := Option.isSome_iff_exists.mp hlive
  have hdone := @refused_key_deleted Int _ _ _ (fun _ => true) _ _ (lit "ERR") (lit " busy") { now := 1 } (by decide)
    (by decide) ⟨98, by decide, by decide⟩ hhead sampleMigrate (fun _ _ => true) _ (by decide) (by decide) rfl rfl [] []
    rfl rfl item hitem rfl rfl _ _ _ rfl rfl rfl
  exact ⟨hdone.1, hdone.2 rfl⟩

end Cluster

end Kv
