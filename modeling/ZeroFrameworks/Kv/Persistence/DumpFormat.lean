import ZeroFrameworks.Kv.Persistence.RdbRoundTrip
import ZeroFrameworks.Lib.Formats

/-!
# The format of DUMP

`RawDump` is a payload as RESTORE reads it: two bytes behind the magic, a deadline, a type byte, a value and whatever
is behind the value.  The value is written item by item, and the items of an unordered container may repeat a name.

    parseDump payload = ok o ↔ ∃ d : RawDump, d.Fits ∧ payload = d.bytes ∧ o = d.toObj   (parseDump_iff)
    d.Fits → d'.Fits → d.bytes = d'.bytes → d = d'   (RawDump.ext_bytes)
-/

namespace Kv

open Codec

variable {F : Type}

/-! ## Syntax -/

abbrev RawPairs := List (Bytes × Bytes)

structure RawItem where
  id : Bytes
  fields : RawPairs

structure RawConsumer where
  name : Bytes
  lastId : Bytes
  pending : List (Bytes × StreamPendingMeta)

structure RawGroup where
  name : Bytes
  lastId : Bytes
  consumers : List RawConsumer

inductive RawValue where
  | string (s : Bytes)
  | hash (l : RawPairs)
  | list (l : List Bytes)
  | set (l : List Bytes)
  | zset (l : RawPairs)
  | stream (ms seq : Nat) (items : List RawItem) (groups : List RawGroup)

structure RawDump where
  pad : Bytes
  deadline : Int
  code : UInt8
  value : RawValue
  tail : Bytes

/-! ## Bytes -/

def appendPendingMeta (p : Bytes × StreamPendingMeta) : Bytes :=
  appendStr p.1 ++ (appendI64 p.2.deliveryMs ++ appendI64 p.2.deliveryCount)

def RawConsumer.bytes (c : RawConsumer) : Bytes :=
  appendStr c.name ++ (appendStr c.lastId ++ appendAll appendPendingMeta c.pending)

def RawGroup.bytes (g : RawGroup) : Bytes :=
  appendStr g.name ++ (appendStr g.lastId ++ appendAll RawConsumer.bytes g.consumers)

def RawItem.bytes (e : RawItem) : Bytes := appendStr e.id ++ appendAll appendPair e.fields

def appendScore (z : Bytes × Bytes) : Bytes := appendStr z.1 ++ z.2

def RawValue.bytes : RawValue → Bytes
  | .string s => appendStr s
  | .hash l => appendAll appendPair l
  | .list l => appendAll appendStr l
  | .set l => appendAll appendStr l
  | .zset l => appendAll appendScore l
  | .stream ms seq items groups =>
    appendU64 ms ++ (appendU64 seq ++ (appendAll RawItem.bytes items ++ appendAll RawGroup.bytes groups))

def RawDump.bytes (d : RawDump) : Bytes :=
  lit "SYRDMP" ++ (d.pad ++ (appendI64 d.deadline ++ (appendU8 d.code ++ (d.value.bytes ++ d.tail))))

/-! ## Lengths and numbers -/

/-- A count that the format can hold, of items with `ok`. -/
def FitAll {α : Type} (ok : α → Prop) (l : List α) : Prop := l.length < 2 ^ 32 ∧ ∀ x ∈ l, ok x

def FitPair (p : Bytes × Bytes) : Prop := Small p.1 ∧ Small p.2

def FitPending (p : Bytes × StreamPendingMeta) : Prop := Small p.1 ∧ IsI64 p.2.deliveryMs ∧ IsI64 p.2.deliveryCount

def FitScore (z : Bytes × Bytes) : Prop := Small z.1 ∧ z.2.length = 8

def RawConsumer.Fits (c : RawConsumer) : Prop := Small c.name ∧ Small c.lastId ∧ FitAll FitPending c.pending

def RawGroup.Fits (g : RawGroup) : Prop := Small g.name ∧ Small g.lastId ∧ FitAll RawConsumer.Fits g.consumers

def RawItem.Fits (e : RawItem) : Prop := Small e.id ∧ FitAll FitPair e.fields

def RawValue.Fits : RawValue → Prop
  | .string s => Small s
  | .hash l => FitAll FitPair l
  | .list l => FitAll Small l
  | .set l => FitAll Small l
  | .zset l => FitAll FitScore l
  | .stream ms seq items groups =>
    ms < 2 ^ 64 ∧ seq < 2 ^ 64 ∧ FitAll RawItem.Fits items ∧ FitAll RawGroup.Fits groups

/-- The value is what RESTORE looks for behind the type. -/
def RawValue.For : ObjType → RawValue → Prop
  | .string, .string _ | .hash, .hash _ | .list, .list _ | .set, .set _ | .zset, .zset _ => True
  | .stream, .stream .. | .other _, .string _ => True
  | _, _ => False

structure RawDump.Fits (d : RawDump) : Prop where
  pad : d.pad.length = 2
  deadline : IsI64 d.deadline
  type : d.value.For (.ofCode d.code)
  value : d.value.Fits

/-! ## Meaning -/

def RawItem.toEntry (e : RawItem) : StreamEntry := { id := e.id, fields := Std.ExtTreeMap.ofList e.fields compare }

def RawConsumer.toState (c : RawConsumer) : Bytes × StreamConsumerState :=
  (c.name, { lastId := c.lastId, pending := c.pending.map Prod.fst,
             pendingMeta := Std.ExtTreeMap.ofList c.pending compare })

def RawGroup.toState (g : RawGroup) : Bytes × StreamGroupState :=
  (g.name, { lastId := g.lastId, consumers := Std.ExtTreeMap.ofList (g.consumers.map RawConsumer.toState) compare })

/-- What RESTORE makes of a value of type `t`. -/
def RawValue.toObj [Platform F] (t : ObjType) : RawValue → Obj F
  | .string s => { type := t, value := s }
  | .hash l => { type := t, hash := Std.ExtTreeMap.ofList l compare }
  | .list l => { type := t, list := l }
  | .set l => { type := t, set := Std.ExtTreeSet.ofList l compare }
  | .zset l => { type := t, zset := Std.ExtTreeMap.ofList (l.map fun z => (z.1, Platform.ofBytes z.2)) compare }
  | .stream ms seq items groups =>
    { type := t, stream := items.map RawItem.toEntry, streamLastMs := ms, streamLastSeq := seq,
      streamGroups := Std.ExtTreeMap.ofList (groups.map RawGroup.toState) compare }

def RawDump.toObj [Platform F] (d : RawDump) : Obj F := d.value.toObj (.ofCode d.code)

/-! ## Formats -/

theorem format_str : Format readStr Small appendStr id :=
  .exact sound_readStr fun _ _ => parses_readStr

theorem format_u32 : Format readU32 (· < 2 ^ 32) appendU32 id := .exact sound_readU32 fun _ _ => parses_readU32

theorem format_u64 : Format readU64 (· < 2 ^ 64) appendU64 id := .exact sound_readU64 fun _ _ => parses_readU64

theorem format_i64 : Format readI64 IsI64 appendI64 id := .exact sound_readI64 fun _ _ => parses_readI64

theorem format_u8 : Format readU8 (fun _ => True) appendU8 id :=
  .exact sound_readU8 fun _ _ => parses_readU8.trans (true_and _).symm.to_iff

theorem format_all {α β : Type} {r : RdbReader α} {ok : β → Prop} {enc : β → Bytes} {dec : β → α}
    (h : Format r ok enc dec) : Format (readAll r) (FitAll ok) (appendAll enc) (·.map dec) := by
  refine (format_u32.bind fun n => h.many n).via Prod.snd (fun bs => ?_) ?_ fun _ _ => rfl
  · constructor
    · intro hbs
      exact ⟨(bs.length, bs), ⟨hbs.1, rfl, hbs.2⟩, rfl⟩
    · rintro ⟨⟨n, bs⟩, ⟨hn, hlen, hbs⟩, rfl⟩
      have hn' : bs.length < 2 ^ 32 := by rw [show bs.length = n from hlen]; exact hn
      exact ⟨hn', hbs⟩
  · rintro ⟨n, bs⟩ ⟨-, hlen, -⟩
    have hn : bs.length = n := hlen
    subst hn
    rfl

theorem format_pair : Format readPair FitPair appendPair id :=
  format_str.bind fun k => format_str.map fun v => (k, v)

theorem format_pending : Format readPending FitPending appendPendingMeta id := by
  have hnested := format_str.bind fun id => format_i64.bind fun ms => format_i64.map fun count =>
    (id, ({ deliveryMs := ms, deliveryCount := count } : StreamPendingMeta))
  refine hnested.via (fun b => (b.1, { deliveryMs := b.2.1, deliveryCount := b.2.2 })) (fun p => ?_) ?_ fun _ _ => rfl
  · constructor
    · intro hp
      exact ⟨(p.1, p.2.deliveryMs, p.2.deliveryCount), hp, rfl⟩
    · rintro ⟨b, hb, rfl⟩
      exact hb
  · exact fun _ _ => rfl

theorem format_consumer : Format readConsumer RawConsumer.Fits RawConsumer.bytes RawConsumer.toState := by
  have hnested := format_str.bind fun name => format_str.bind fun lastId =>
    (format_all format_pending).map fun pending =>
      (name, ({ lastId := lastId, pending := pending.map Prod.fst,
                pendingMeta := Std.ExtTreeMap.ofList pending compare } : StreamConsumerState))
  refine hnested.via (fun b => ⟨b.1, b.2.1, b.2.2⟩) (fun c => ?_) (fun _ _ => rfl) fun b _ => ?_
  · constructor
    · intro hc
      exact ⟨(c.name, c.lastId, c.pending), hc, rfl⟩
    · rintro ⟨b, hb, rfl⟩
      exact hb
  · simp only [RawConsumer.toState, List.map_id, id]

theorem format_map {V β : Type} {r : RdbReader (Bytes × V)} {ok : β → Prop} {enc : β → Bytes} {dec : β → Bytes × V}
    (h : Format r ok enc dec) : Format (readMap r) (FitAll ok) (appendAll enc)
      (fun l => Std.ExtTreeMap.ofList (l.map dec) compare) :=
  (format_all h).map fun l => Std.ExtTreeMap.ofList l compare

theorem format_group : Format readGroupState RawGroup.Fits RawGroup.bytes RawGroup.toState := by
  have hnested := format_str.bind fun name => format_str.bind fun lastId =>
    (format_map format_consumer).map fun consumers =>
      (name, ({ lastId := lastId, consumers := consumers } : StreamGroupState))
  refine hnested.via (fun b => ⟨b.1, b.2.1, b.2.2⟩) (fun g => ?_) (fun _ _ => rfl) fun _ _ => rfl
  constructor
  · intro hg
    exact ⟨(g.name, g.lastId, g.consumers), hg, rfl⟩
  · rintro ⟨b, hb, rfl⟩
    exact hb

theorem format_item : Format readStreamItem RawItem.Fits RawItem.bytes RawItem.toEntry := by
  have hnested := format_str.bind fun id => (format_map format_pair).map fun fields =>
    ({ id := id, fields := fields } : StreamEntry)
  refine hnested.via (fun b => ⟨b.1, b.2⟩) (fun e => ?_) (fun _ _ => rfl) fun b _ => ?_
  · constructor
    · intro he
      exact ⟨(e.id, e.fields), he, rfl⟩
    · rintro ⟨b, hb, rfl⟩
      exact hb
  · simp only [RawItem.toEntry, List.map_id, id]

theorem format_take8 : Format (take 8 (.text []) : RdbReader Bytes) (·.length = 8) id id :=
  .exact (.take 8 _) fun _ _ => by
    rw [Sound.parses_take]
    constructor
    · rintro ⟨rfl, hlen⟩
      exact ⟨hlen, rfl⟩
    · rintro ⟨hlen, rfl⟩
      exact ⟨rfl, hlen⟩

variable [Platform F]

theorem format_score : Format (readScore : RdbReader (Bytes × F)) FitScore appendScore
    (fun z => (z.1, Platform.ofBytes z.2)) :=
  format_str.bind fun m => format_take8.map fun bytes => (m, Platform.ofBytes bytes)

theorem format_value {β : Type} {t : ObjType} {r : RdbReader (Obj F)} {ok : β → Prop} {enc : β → Bytes}
    {dec : β → Obj F} (h : Format r ok enc dec) (mk : β → RawValue)
    (hmk : ∀ v : RawValue, v.For t ∧ v.Fits ↔ ∃ b, ok b ∧ mk b = v) (henc : ∀ b, (mk b).bytes = enc b)
    (hdec : ∀ b, (mk b).toObj t = dec b) :
    Format r (fun v : RawValue => v.For t ∧ v.Fits) RawValue.bytes (RawValue.toObj t) :=
  h.via mk hmk (fun b _ => henc b) fun b _ => hdec b

theorem format_payload (t : ObjType) : Format (readEntryPayload t : RdbReader (Obj F))
    (fun v : RawValue => v.For t ∧ v.Fits) RawValue.bytes (RawValue.toObj t) := by
  cases t with
  | hash =>
    refine format_value ((format_map format_pair).map fun h => ({ type := .hash, hash := h } : Obj F)) .hash ?_
      (fun _ => rfl) fun l => ?_
    · intro v
      cases v <;> simp [RawValue.For, RawValue.Fits]
    · simp only [RawValue.toObj, List.map_id]
  | list =>
    refine format_value ((format_all format_str).map fun l => ({ type := .list, list := l } : Obj F)) .list ?_
      (fun _ => rfl) fun l => ?_
    · intro v
      cases v <;> simp [RawValue.For, RawValue.Fits]
    · simp only [RawValue.toObj, List.map_id]
  | set =>
    refine format_value ((format_all format_str).map fun l =>
      ({ type := .set, set := Std.ExtTreeSet.ofList l compare } : Obj F)) .set ?_ (fun _ => rfl) fun l => ?_
    · intro v
      cases v <;> simp [RawValue.For, RawValue.Fits]
    · simp only [RawValue.toObj, List.map_id]
  | zset =>
    refine format_value ((format_map format_score).map fun z => ({ type := .zset, zset := z } : Obj F)) .zset ?_
      (fun _ => rfl) fun l => rfl
    intro v
    cases v <;> simp [RawValue.For, RawValue.Fits]
  | stream =>
    have hitems := (format_all format_item).congr (sound_readReserved (F := F)) parses_readReserved
    have hnested := format_u64.bind fun ms => format_u64.bind fun seq => hitems.bind fun items =>
      (format_map format_group).map fun groups =>
        ({ type := .stream, stream := items, streamLastMs := ms, streamLastSeq := seq, streamGroups := groups } : Obj F)
    refine format_value hnested (fun b => .stream b.1 b.2.1 b.2.2.1 b.2.2.2) ?_ (fun _ => rfl) fun _ => rfl
    intro v
    cases v <;> simp [RawValue.For, RawValue.Fits]
  | string =>
    refine format_value (format_str.map fun v => ({ type := .string, value := v } : Obj F)) .string ?_
      (fun _ => rfl) fun _ => rfl
    intro v
    cases v <;> simp [RawValue.For, RawValue.Fits]
  | other c =>
    refine format_value (format_str.map fun v => ({ type := .other c, value := v } : Obj F)) .string ?_
      (fun _ => rfl) fun _ => rfl
    intro v
    cases v <;> simp [RawValue.For, RawValue.Fits]

/-! ## Payloads -/

/-- What RESTORE reads behind the magic and the two bytes after it. -/
def readDump : RdbReader (Obj F) := do
  let _ ← readI64
  let type ← readU8
  readEntryPayload (.ofCode type)

theorem format_dump : Format (readDump : RdbReader (Obj F))
    (fun b : Int × UInt8 × RawValue => IsI64 b.1 ∧ True ∧ b.2.2.For (.ofCode b.2.1) ∧ b.2.2.Fits)
    (fun b => appendI64 b.1 ++ (appendU8 b.2.1 ++ b.2.2.bytes)) (fun b => b.2.2.toObj (.ofCode b.2.1)) :=
  format_i64.bind fun _ => format_u8.bind fun type => format_payload (.ofCode type)

theorem lit_magic : (lit "SYRDMP").length = 6 := by decide

theorem parseDump_iff {payload : Bytes} {o : Obj F} :
    KvStore.parseDump payload = .ok o ↔ ∃ d : RawDump, d.Fits ∧ payload = d.bytes ∧ o = d.toObj := by
  have hparse : KvStore.parseDump payload = (.ok o : Except Bytes (Obj F)) ↔
      (8 ≤ payload.length ∧ payload.take 6 = lit "SYRDMP") ∧ ∃ tail, readDump (payload.drop 8) = .ok (o, tail) := by
    unfold KvStore.parseDump
    split
    next hbad =>
      refine ⟨fun h => (by cases h), fun h => absurd hbad ?_⟩
      rw [not_or, not_lt, not_not]
      exact h.1
    next hgood =>
      rw [not_or, not_lt, not_not] at hgood
      dsimp only
      split
      next o' tail hr =>
        replace hr : readDump (payload.drop 8) = .ok (o', tail) := hr
        rw [hr]
        constructor
        · intro h
          obtain rfl := Except.ok.inj h
          exact ⟨hgood, tail, rfl⟩
        · rintro ⟨-, tail', h⟩
          obtain ⟨rfl, rfl⟩ := Prod.mk.inj (Except.ok.inj h)
          rfl
      next e hr =>
        replace hr : (readDump : RdbReader (Obj F)) (payload.drop 8) = .error e := hr
        rw [hr]
        exact ⟨fun h => (by cases h), fun ⟨_, _, h⟩ => (by cases h)⟩
  rw [hparse]
  constructor
  · rintro ⟨⟨hlen, hmagic⟩, tail, hr⟩
    obtain ⟨⟨deadline, code, value⟩, ⟨hd, -, hfor, hv⟩, heq, rfl⟩ := format_dump.reads.mp hr
    refine ⟨⟨(payload.drop 6).take 2, deadline, code, value, tail⟩, ⟨?_, hd, hfor, hv⟩, ?_, rfl⟩
    · rw [List.length_take, List.length_drop]
      omega
    · have hsplit : payload = payload.take 6 ++ ((payload.drop 6).take 2 ++ payload.drop 8) := by
        rw [show payload.drop 8 = (payload.drop 6).drop 2 by rw [List.drop_drop], List.take_append_drop,
          List.take_append_drop]
      conv => lhs; rw [hsplit, hmagic, heq]
      simp only [RawDump.bytes, List.append_assoc]
  · rintro ⟨d, hfits, rfl, rfl⟩
    have hdrop : d.bytes.drop 8 = appendI64 d.deadline ++ (appendU8 d.code ++ d.value.bytes) ++ d.tail := by
      have hpad : (lit "SYRDMP" ++ d.pad).length = 8 := by rw [List.length_append, lit_magic, hfits.pad]
      have hbytes : d.bytes =
          (lit "SYRDMP" ++ d.pad) ++ (appendI64 d.deadline ++ (appendU8 d.code ++ d.value.bytes) ++ d.tail) := by
        simp only [RawDump.bytes, List.append_assoc]
      rw [hbytes, ← hpad, List.drop_left]
    refine ⟨⟨?_, ?_⟩, d.tail, ?_⟩
    · simp only [RawDump.bytes, List.length_append, lit_magic, hfits.pad]
      omega
    · rw [RawDump.bytes, ← lit_magic, List.take_left]
    · rw [hdrop]
      exact format_dump.reads.mpr ⟨(d.deadline, d.code, d.value), ⟨hfits.deadline, trivial, hfits.type, hfits.value⟩,
        rfl, rfl⟩

omit [Platform F] in
theorem RawDump.ext_bytes {d d' : RawDump} (h : d.Fits) (h' : d'.Fits) (heq : d.bytes = d'.bytes) : d = d' := by
  obtain ⟨pad, deadline, code, value, tail⟩ := d
  obtain ⟨pad', deadline', code', value', tail'⟩ := d'
  have happ : pad = pad' ∧ _ := List.append_inj (List.append_cancel_left heq) (h.pad.trans h'.pad.symm)
  have hrest : appendI64 deadline ++ (appendU8 code ++ value.bytes) ++ tail =
      appendI64 deadline' ++ (appendU8 code' ++ value'.bytes) ++ tail' := by
    simpa only [List.append_assoc] using happ.2
  obtain ⟨hval, htail⟩ := (format_dump (F := Int)).unique (b := (deadline, code, value))
    (c := (deadline', code', value')) ⟨h.deadline, trivial, h.type, h.value⟩ ⟨h'.deadline, trivial, h'.type, h'.value⟩
    hrest
  rw [Prod.mk.injEq, Prod.mk.injEq] at hval
  rw [happ.1, hval.1, hval.2.1, hval.2.2, htail]

end Kv
