import ZeroFrameworks.Kv.Persistence.Rdb

/-!
# The snapshot format

`RawFile` is a snapshot as it stands in a file: databases with their numbers, and in each the
entries with key, deadline, type byte and payload.  The loader accepts the bytes of such files and
nothing else, and never looks past the end of its input:

    readV2 now data = .ok (dbs, rest) ↔ ∃ file, file.Loads now dbs ∧ data = file.bytes ++ rest
        (readV2_iff)

The loader takes any database number.  So a load is all or nothing in the full sense, with every
loaded entry in a database that SELECT can reach, exactly when the file is not a snapshot that has
an unexpired entry under another number, and has no stream for whose count `reserve` throws:

    AllOrNothing env s data ↔ Numbered F env.now data ∧ ¬Overbooked F env.now data   (all_or_nothing_iff)
-/

namespace Kv

open Codec

variable {F : Type}

/-! ## Files -/

/-- An entry as it stands in a file. -/
structure RawEntry where
  key : Bytes
  deadline : Int
  code : UInt8
  payload : Bytes

structure RawDb where
  number : Int
  entries : List RawEntry

structure RawFile where
  savedAt : Nat
  dbs : List RawDb

namespace RawEntry

def bytes (e : RawEntry) : Bytes :=
  appendStr e.key ++ (appendI64 e.deadline ++ (appendU8 e.code ++ e.payload))

/-- `isExpired` at the time of the load. -/
def Expired (now : Int) (e : RawEntry) : Prop := 0 < e.deadline ∧ e.deadline ≤ now

instance (now : Int) (e : RawEntry) : Decidable (e.Expired now) := inferInstanceAs (Decidable (_ ∧ _))

end RawEntry

def RawDb.bytes (d : RawDb) : Bytes := appendI64 d.number ++ appendAll RawEntry.bytes d.entries

/-- The number of a database as the `int` of the rebuilt map. -/
def RawDb.index (d : RawDb) : Int := i32 d.number

def RawFile.bytes (f : RawFile) : Bytes :=
  magicV2 ++ (appendU32 2 ++ (appendU64 f.savedAt ++ (appendAll RawDb.bytes f.dbs ++ appendU8 0xFF)))

/-- The type a loaded entry gets: unknown codes are strings. -/
def ObjType.known : ObjType → ObjType
  | .other _ => .string
  | t => t

section
variable [Platform F]

/-- `e` is well formed and its payload holds `o`. -/
structure RawEntry.Holds (e : RawEntry) (o : Obj F) : Prop where
  key : e.key.length < 2 ^ 32
  deadline : IsI64 e.deadline
  payload : Parses (readEntryPayload (ObjType.ofCode e.code).known) e.payload o

/-- What `loadBinaryV2` makes of an entry. -/
structure RawEntry.Loads (now : Int) (e : RawEntry) (x : Bytes × Option (Item F)) : Prop where
  key : x.1 = e.key
  value : ∃ o, e.Holds o ∧
    x.2 = if e.Expired now then none else some { o with expireAtMs := e.deadline }

structure RawDb.Loads (now : Int) (d : RawDb) (x : ReadDb F) : Prop where
  number : IsI64 d.number
  index : x.1 = d.index
  count : d.entries.length < 2 ^ 32
  entries : List.Forall₂ (RawEntry.Loads now) d.entries x.2

structure RawFile.Loads (now : Int) (f : RawFile)
    (dbs : List (ReadDb F)) : Prop where
  savedAt : f.savedAt < 2 ^ 64
  count : f.dbs.length < 2 ^ 32
  dbs : List.Forall₂ (RawDb.Loads now) f.dbs dbs

/-- Every part of the file is well formed. -/
structure RawFile.Valid (F : Type) [Platform F] (f : RawFile) : Prop where
  savedAt : f.savedAt < 2 ^ 64
  count : f.dbs.length < 2 ^ 32
  number : ∀ d ∈ f.dbs, IsI64 d.number
  counts : ∀ d ∈ f.dbs, d.entries.length < 2 ^ 32
  entries : ∀ d ∈ f.dbs, ∀ e ∈ d.entries, ∃ o : Obj F, e.Holds o

end

/-! ## Streams that are too long -/

section
variable (F) [Platform F] (now : Int)

/-- The count of entries is above what `reserve` has memory for and above what can still come. -/
def OverbookedStream : Bytes → Prop :=
  Behind appendU64 (· < 2 ^ 64) fun _ => Behind appendU64 (· < 2 ^ 64) fun _ => Behind appendU32 (· < 2 ^ 32) fun n rest =>
    rest.length < 8 * n ∧ Platform.room F < n

def OverbookedEntry : Bytes → Prop :=
  Behind appendStr (·.length < 2 ^ 32) fun _ => Behind appendI64 IsI64 fun _ => Behind appendU8 (fun _ => True) fun code rest =>
    code = 5 ∧ OverbookedStream F rest

/-- Such an entry comes behind fewer entries than are announced, which are well formed. -/
def OverbookedDb : Bytes → Prop :=
  Behind appendI64 IsI64 fun _ => Behind appendU32 (· < 2 ^ 32) fun n =>
    BehindItems (RawEntry.Loads (F := F) now) RawEntry.bytes n (OverbookedEntry F)

/-- A snapshot that is well formed up to a stream that is too long. -/
def Overbooked : Bytes → Prop :=
  Behind id (·.length = 8) fun magic rest => magic = magicV2 ∧ Behind appendU32 (· < 2 ^ 32) (fun version rest =>
    version = 2 ∧ Behind appendU64 (· < 2 ^ 64) (fun _ => Behind appendU32 (· < 2 ^ 32) fun n =>
      BehindItems (RawDb.Loads (F := F) now) RawDb.bytes n (OverbookedDb F now)) rest) rest

end

/-! ## Numbers and strings -/

theorem sound_readU32 : Sound readU32 := .readLe 4 _

theorem sound_readU64 : Sound readU64 := .readLe 8 _

theorem sound_readI64 : Sound readI64 := (Sound.readLe 8 _).bind fun _ => .pure _

theorem sound_readU8 : Sound readU8 := (Sound.readLe 1 _).bind fun _ => .pure _

theorem sound_readStr : Sound readStr := sound_readU32.bind fun len => .take len _

theorem sound_readAll {α : Type} {r : RdbReader α} (h : Sound r) : Sound (readAll r) :=
  sound_readU32.bind fun n => h.many n

theorem sound_readMap {V : Type} {r : RdbReader (Bytes × V)} (h : Sound r) : Sound (readMap r) :=
  (sound_readAll h).bind fun _ => .pure _

variable {e : Bytes}

theorem parses_readU32 {n : Nat} : Parses readU32 e n ↔ n < 2 ^ 32 ∧ e = appendU32 n :=
  Sound.parses_readLe

theorem parses_readU64 {n : Nat} : Parses readU64 e n ↔ n < 2 ^ 64 ∧ e = appendU64 n :=
  Sound.parses_readLe

theorem parses_readU8 {b : UInt8} : Parses readU8 e b ↔ e = appendU8 b := by
  unfold readU8
  rw [(Sound.readLe 1 _).parses_bind_pure]
  constructor
  · rintro ⟨n, hn, rfl⟩
    rw [(Sound.parses_readLe.mp hn).2]
    rfl
  · rintro rfl
    have hlt : b.toNat < 256 ^ 1 := b.toNat_lt
    refine ⟨b.toNat, Sound.parses_readLe.mpr ⟨hlt, ?_⟩, by simp⟩
    simp [appendU8, le]

theorem i64_toNat {n : Int} (h : IsI64 n) : i64 ((n % 2 ^ 64).toNat : Int) = n := by
  obtain ⟨hlo, hhi⟩ := h
  rw [i64_eq]
  split <;> omega

theorem i64_emod (n : Nat) (h : n < 2 ^ 64) : (i64 n % 2 ^ 64).toNat = n := by
  rw [i64_eq]
  split <;> omega

theorem parses_readI64 {n : Int} : Parses readI64 e n ↔ IsI64 n ∧ e = appendI64 n := by
  change Parses (readU64 >>= fun m => pure (i64 m)) e n ↔ _
  rw [sound_readU64.parses_bind_pure]
  constructor
  · rintro ⟨m, hm, hn⟩
    obtain ⟨hlt, he⟩ := parses_readU64.mp hm
    refine ⟨hn ▸ isI64_i64 m, ?_⟩
    rw [he, hn, appendI64, i64_emod m hlt, appendU64]
  · rintro ⟨hn, he⟩
    have hlt : (n % 2 ^ 64).toNat < 2 ^ 64 := by omega
    have hp : Parses readU64 e (n % 2 ^ 64).toNat := parses_readU64.mpr ⟨hlt, he⟩
    refine ⟨(n % 2 ^ 64).toNat, hp, ?_⟩
    rw [i64_toNat hn]

theorem parses_readStr {e s : Bytes} : Parses readStr e s ↔ s.length < 2 ^ 32 ∧ e = appendStr s := by
  unfold readStr
  rw [sound_readU32.parses_bind fun len => .take len _]
  constructor
  · rintro ⟨n, e1, e2, h1, h2, rfl⟩
    obtain ⟨hlt, rfl⟩ := parses_readU32.mp h1
    obtain ⟨rfl, rfl⟩ := Sound.parses_take.mp h2
    exact ⟨hlt, rfl⟩
  · rintro ⟨hlt, rfl⟩
    exact ⟨s.length, _, s, parses_readU32.mpr ⟨hlt, rfl⟩, .take s _, rfl⟩

/-! ## Payloads -/

theorem sound_readPair : Sound readPair :=
  sound_readStr.bind fun _ => sound_readStr.bind fun _ => .pure _

theorem sound_readPending : Sound readPending :=
  sound_readStr.bind fun _ => sound_readI64.bind fun _ => sound_readI64.bind fun _ => .pure _

theorem sound_readConsumer : Sound readConsumer :=
  sound_readStr.bind fun _ => sound_readStr.bind fun _ =>
    (sound_readAll sound_readPending).bind fun _ => .pure _

theorem sound_readGroupState : Sound readGroupState :=
  sound_readStr.bind fun _ => sound_readStr.bind fun _ =>
    (sound_readMap sound_readConsumer).bind fun _ => .pure _

theorem sound_readStreamItem : Sound readStreamItem :=
  sound_readStr.bind fun _ => (sound_readMap sound_readPair).bind fun _ => .pure _

theorem length_readStreamItem {x : StreamEntry} (h : Parses readStreamItem e x) : 8 ≤ e.length := by
  obtain ⟨id, e1, e2, h1, h2, rfl⟩ := (sound_readStr.parses_bind fun _ =>
    (sound_readMap sound_readPair).bind fun _ => .pure _).mp h
  obtain ⟨fields, hfields, -⟩ := (sound_readMap sound_readPair).parses_bind_pure.mp h2
  obtain ⟨l, hl, -⟩ := (sound_readAll sound_readPair).parses_bind_pure.mp hfields
  obtain ⟨n, e3, e4, h3, -, rfl⟩ := (sound_readU32.parses_bind fun n => sound_readPair.many n).mp hl
  obtain ⟨-, rfl⟩ := parses_readStr.mp h1
  obtain ⟨-, rfl⟩ := parses_readU32.mp h3
  simp only [appendStr, appendU32, List.length_append, le_length]
  omega

variable [Platform F]

theorem sound_readReserved : Sound (readReserved F readStreamItem) :=
  sound_readU32.bind fun n => sound_readStreamItem.reserved length_readStreamItem _ _ n

theorem parses_readReserved {xs : List StreamEntry} :
    Parses (readReserved F readStreamItem) e xs ↔ Parses (readAll readStreamItem) e xs := by
  unfold readReserved readAll
  rw [sound_readU32.parses_bind fun n => sound_readStreamItem.reserved length_readStreamItem _ _ n,
    sound_readU32.parses_bind fun n => sound_readStreamItem.many n]
  simp only [sound_readStreamItem.parses_reserved length_readStreamItem]

theorem sound_readStreamEntry : Sound (readStreamEntry : RdbReader (Obj F)) :=
  sound_readU64.bind fun _ => sound_readU64.bind fun _ =>
    sound_readReserved.bind fun _ => (sound_readMap sound_readGroupState).bind fun _ => .pure _

theorem sound_readScore : Sound (readScore : RdbReader (Bytes × F)) :=
  sound_readStr.bind fun _ => (Sound.take 8 _).bind fun _ => .pure _

theorem sound_readEntryPayload (t : ObjType) : Sound (readEntryPayload t : RdbReader (Obj F)) := by
  cases t with
  | hash => exact (sound_readMap sound_readPair).bind fun _ => .pure _
  | list => exact (sound_readAll sound_readStr).bind fun _ => .pure _
  | set => exact (sound_readAll sound_readStr).bind fun _ => .pure _
  | zset => exact (sound_readMap sound_readScore).bind fun _ => .pure _
  | stream => exact sound_readStreamEntry
  | string => exact sound_readStr.bind fun _ => .pure _
  | other c => exact sound_readStr.bind fun _ => .pure _

variable {t : ObjType}

theorem parses_known :
    (∃ o : Obj F, Parses (readEntryPayload t) e o) ↔
      ∃ o : Obj F, Parses (readEntryPayload t.known) e o := by
  cases t with
  | other c =>
    simp only [ObjType.known, readEntryPayload, sound_readStr.parses_bind_pure]
    constructor
    · rintro ⟨_, v, hv, _⟩
      exact ⟨_, v, hv, rfl⟩
    · rintro ⟨_, v, hv, _⟩
      exact ⟨_, v, hv, rfl⟩
  | _ => exact Iff.rfl

/-! ## Entries -/

theorem sound_readValue (t : ObjType) : Sound (readValue t : RdbReader (Obj F)) := by
  unfold readValue
  split
  · exact .named _ (sound_readEntryPayload _)
  · exact sound_readEntryPayload _
  · exact sound_readEntryPayload _

theorem parses_readValue {o : Obj F} :
    Parses (readValue t) e o ↔ Parses (readEntryPayload t.known) e o := by
  cases t with
  | stream => exact (sound_readEntryPayload _).parses_named
  | _ => exact Iff.rfl

theorem sound_readBody (now deadline : Int) :
    Sound (readBody now deadline : RdbReader (Option (Item F))) := by
  unfold readBody
  refine .ite ?_ ?_
  · exact sound_readU8.bind fun _ => (Sound.named _ (sound_readEntryPayload (F := F) _)).bind fun _ => .pure _
  · exact (Sound.named _ sound_readU8).bind fun _ => (sound_readValue (F := F) _).bind fun _ => .pure _

theorem parses_readBody {now deadline : Int} {x : Option (Item F)} :
    Parses (readBody now deadline) e x ↔ ∃ (c : UInt8) (payload : Bytes) (o : Obj F),
      Parses (readEntryPayload (ObjType.ofCode c).known) payload o ∧
      x = (if 0 < deadline ∧ deadline ≤ now then none else some { o with expireAtMs := deadline }) ∧
      e = appendU8 c ++ payload := by
  unfold readBody
  split
  next hx =>
    rw [sound_readU8.parses_bind fun _ =>
      (Sound.named _ (sound_readEntryPayload (F := F) _)).bind fun _ => .pure _]
    constructor
    · rintro ⟨c, e1, e2, h1, h2, rfl⟩
      obtain ⟨o, ho, rfl⟩ := (Sound.named _ (sound_readEntryPayload (F := F) _)).parses_bind_pure.mp h2
      have ho' := (sound_readEntryPayload _).parses_named.mp ho
      obtain ⟨o', hp⟩ := parses_known.mp ⟨o, ho'⟩
      exact ⟨c, e2, o', hp, rfl, by rw [parses_readU8.mp h1]⟩
    · rintro ⟨c, payload, o, ho, rfl, rfl⟩
      obtain ⟨o', hp⟩ := parses_known.mpr ⟨o, ho⟩
      refine ⟨c, _, payload, parses_readU8.mpr rfl, ?_, rfl⟩
      exact (hp.named _).bind_pure fun _ => none
  next hx =>
    rw [(Sound.named _ sound_readU8).parses_bind fun _ => (sound_readValue (F := F) _).bind fun _ => .pure _]
    constructor
    · rintro ⟨c, e1, e2, h1, h2, rfl⟩
      obtain ⟨o, ho, rfl⟩ := (sound_readValue _).parses_bind_pure.mp h2
      have h1' := parses_readU8.mp (sound_readU8.parses_named.mp h1)
      exact ⟨c, e2, o, parses_readValue.mp ho, rfl, by rw [h1']⟩
    · rintro ⟨c, payload, o, ho, rfl, rfl⟩
      refine ⟨c, _, payload, (parses_readU8.mpr rfl).named _, ?_, rfl⟩
      exact (parses_readValue.mpr ho).bind_pure
        fun v => (some { v with expireAtMs := deadline } : Option (Item F))

theorem sound_readEntry (now : Int) : Sound (readEntry now : RdbReader (Bytes × Option (Item F))) :=
  (Sound.named _ sound_readStr).bind fun _ => (Sound.named _ sound_readI64).bind fun _ =>
    (sound_readBody (F := F) _ _).bind fun _ => .pure _

theorem parses_readEntry {now : Int} {x : Bytes × Option (Item F)} :
    Parses (readEntry now) e x ↔ ∃ raw : RawEntry, raw.Loads now x ∧ e = raw.bytes := by
  unfold readEntry
  rw [(Sound.named _ sound_readStr).parses_bind fun _ => (Sound.named _ sound_readI64).bind fun _ =>
    (sound_readBody (F := F) _ _).bind fun _ => .pure _]
  constructor
  · rintro ⟨key, e1, e', h1, h', rfl⟩
    obtain ⟨deadline, e2, e3, h2, h3, rfl⟩ := ((Sound.named _ sound_readI64).parses_bind fun _ =>
      (sound_readBody (F := F) _ _).bind fun _ => .pure _).mp h'
    obtain ⟨_, hb, rfl⟩ := (sound_readBody _ _).parses_bind_pure.mp h3
    obtain ⟨c, payload, o, ho, rfl, rfl⟩ := parses_readBody.mp hb
    obtain ⟨hk, rfl⟩ := parses_readStr.mp (sound_readStr.parses_named.mp h1)
    obtain ⟨hd, rfl⟩ := parses_readI64.mp (sound_readI64.parses_named.mp h2)
    exact ⟨⟨key, deadline, c, payload⟩, ⟨rfl, o, ⟨hk, hd, ho⟩, rfl⟩, rfl⟩
  · rintro ⟨raw, ⟨hk, o, ⟨hlen, hd, ho⟩, hx⟩, rfl⟩
    obtain ⟨key, item⟩ := x
    obtain rfl : key = raw.key := hk
    refine ⟨raw.key, _, _, (parses_readStr.mpr ⟨hlen, rfl⟩).named _, ?_, rfl⟩
    refine Parses.bind ((parses_readI64.mpr ⟨hd, rfl⟩).named _) ?_
    exact (parses_readBody.mpr ⟨raw.code, raw.payload, o, ho, hx, rfl⟩).bind_pure fun v => (raw.key, v)

/-! ## Databases and files -/

theorem forall₂_bytes {α β : Type} {L : Bytes → α → Prop} {P : β → α → Prop} {bytes : β → Bytes}
    (h : ∀ e x, L e x ↔ ∃ b, P b x ∧ e = bytes b) {es : List Bytes} {xs : List α} :
    List.Forall₂ L es xs ↔ ∃ bs, List.Forall₂ P bs xs ∧ es = bs.map bytes := by
  constructor
  · intro hf
    induction hf with
    | nil => exact ⟨[], .nil, rfl⟩
    | cons hx _ ih =>
      obtain ⟨b, hb, rfl⟩ := (h _ _).mp hx
      obtain ⟨bs, hbs, rfl⟩ := ih
      exact ⟨b :: bs, .cons hb hbs, rfl⟩
  · rintro ⟨bs, hf, rfl⟩
    rw [List.forall₂_map_left_iff]
    exact hf.imp fun b x hb => (h _ _).mpr ⟨b, hb, rfl⟩

theorem sound_readDb (now : Int) :
    Sound (readDb now : RdbReader (ReadDb F)) :=
  (Sound.named _ sound_readI64).bind fun _ => (Sound.named _ sound_readU32).bind fun n =>
    ((sound_readEntry now).many n).bind fun _ => .pure _

theorem parses_readDb {now : Int} {x : ReadDb F} :
    Parses (readDb now) e x ↔ ∃ raw : RawDb, raw.Loads now x ∧ e = raw.bytes := by
  unfold readDb
  rw [(Sound.named _ sound_readI64).parses_bind fun _ => (Sound.named _ sound_readU32).bind fun n =>
    ((sound_readEntry (F := F) now).many n).bind fun _ => .pure _]
  constructor
  · rintro ⟨number, e1, e', h1, h', rfl⟩
    obtain ⟨n, e2, e3, h2, h3, rfl⟩ := ((Sound.named _ sound_readU32).parses_bind fun n =>
      ((sound_readEntry (F := F) now).many n).bind fun _ => .pure _).mp h'
    obtain ⟨entries, hm, rfl⟩ := ((sound_readEntry now).many n).parses_bind_pure.mp h3
    obtain ⟨es, hes, hlen, rfl⟩ := (sound_readEntry now).parses_many.mp hm
    obtain ⟨raws, hraws, rfl⟩ := (forall₂_bytes (L := Parses (readEntry now)) fun _ _ => parses_readEntry).mp hes
    obtain ⟨hn, rfl⟩ := parses_readI64.mp (sound_readI64.parses_named.mp h1)
    obtain ⟨hlt, rfl⟩ := parses_readU32.mp (sound_readU32.parses_named.mp h2)
    rw [List.length_map] at hlen
    subst hlen
    refine ⟨⟨number, raws⟩, ⟨hn, rfl, hlt, hraws⟩, ?_⟩
    rw [← List.flatMap_def]
    rfl
  · rintro ⟨raw, ⟨hn, hx, hlt, hf⟩, rfl⟩
    obtain ⟨index, entries⟩ := x
    obtain rfl : index = raw.index := hx
    refine ⟨raw.number, _, _, (parses_readI64.mpr ⟨hn, rfl⟩).named _, ?_, rfl⟩
    refine Parses.bind ((parses_readU32.mpr ⟨hlt, rfl⟩).named _) ?_
    have hm : Parses (many (readEntry now) raw.entries.length) (raw.entries.flatMap RawEntry.bytes)
        entries := .many (hf.imp fun b x hb => parses_readEntry.mpr ⟨b, hb, rfl⟩)
    exact hm.bind_pure fun entries => (raw.index, entries)

theorem sound_readDbs (now : Int) :
    Sound (readDbs now : RdbReader (List (ReadDb F))) := by
  refine (Sound.named _ sound_readU32).bind fun n => ((sound_readDb now).many n).bind fun _ => ?_
  exact (Sound.named _ sound_readU8).bind fun _ => .ite (.fail _) (.pure _)

theorem sound_readV2 (now : Int) :
    Sound (readV2 now : RdbReader (List (ReadDb F))) := by
  refine (Sound.take 8 _).bind fun _ => .ite (.fail _) ?_
  refine (Sound.named _ sound_readU32).bind fun _ => .ite (.fail _) ?_
  exact (Sound.named _ sound_readU64).bind fun _ => sound_readDbs now

omit [Platform F] in
theorem parses_footer {dbs x : List (ReadDb F)} :
    Parses (reported (lit "ERR malformed RDB footer") readU8 >>= fun footer =>
      if footer ≠ 0xFF then fail (.text (lit "ERR malformed RDB footer")) else pure dbs) e x ↔
      x = dbs ∧ e = appendU8 0xFF := by
  rw [(Sound.named _ sound_readU8).parses_bind fun _ => .ite (.fail _) (.pure _)]
  constructor
  · rintro ⟨footer, e1, e2, h1, h2, rfl⟩
    obtain ⟨hf, hp⟩ := Sound.parses_ite_fail.mp h2
    obtain ⟨rfl, rfl⟩ := Sound.parses_pure.mp hp
    rw [parses_readU8.mp (sound_readU8.parses_named.mp h1), not_ne_iff.mp hf]
    exact ⟨rfl, rfl⟩
  · rintro ⟨rfl, rfl⟩
    refine ⟨0xFF, _, [], (parses_readU8.mpr rfl).named _, ?_, rfl⟩
    exact Sound.parses_ite_fail.mpr ⟨not_ne_iff.mpr rfl, .pure _⟩

theorem parses_readDbs {now : Int} {x : List (ReadDb F)} :
    Parses (readDbs now) e x ↔ ∃ raws : List RawDb, raws.length < 2 ^ 32 ∧
      List.Forall₂ (RawDb.Loads now) raws x ∧ e = appendAll RawDb.bytes raws ++ appendU8 0xFF := by
  have hrest : ∀ n, Sound (many (readDb (F := F) now) n >>= fun dbs =>
      reported (lit "ERR malformed RDB footer") readU8 >>= fun footer =>
        if footer ≠ 0xFF then fail (.text (lit "ERR malformed RDB footer")) else pure dbs) := fun n =>
    ((sound_readDb now).many n).bind fun _ =>
      (Sound.named _ sound_readU8).bind fun _ => .ite (.fail _) (.pure _)
  unfold readDbs
  rw [(Sound.named _ sound_readU32).parses_bind hrest]
  constructor
  · rintro ⟨n, e1, e', h1, h', rfl⟩
    obtain ⟨dbs, e2, e3, h2, h3, rfl⟩ := (((sound_readDb now).many n).parses_bind fun _ =>
      (Sound.named _ sound_readU8).bind fun _ => .ite (.fail _) (.pure _)).mp h'
    obtain ⟨rfl, rfl⟩ := parses_footer.mp h3
    obtain ⟨es, hes, hlen, rfl⟩ := (sound_readDb now).parses_many.mp h2
    obtain ⟨raws, hraws, rfl⟩ :=
      (forall₂_bytes (L := Parses (readDb now)) fun _ _ => parses_readDb).mp hes
    obtain ⟨hlt, rfl⟩ := parses_readU32.mp (sound_readU32.parses_named.mp h1)
    rw [List.length_map] at hlen
    subst hlen
    refine ⟨raws, hlt, hraws, ?_⟩
    rw [← List.flatMap_def, ← List.append_assoc]
    rfl
  · rintro ⟨raws, hlt, hf, rfl⟩
    have hm : Parses (many (readDb now) raws.length) (raws.flatMap RawDb.bytes) x :=
      .many (hf.imp fun b x hb => parses_readDb.mpr ⟨b, hb, rfl⟩)
    refine ⟨raws.length, _, _, (parses_readU32.mpr ⟨hlt, rfl⟩).named _, hm.bind (parses_footer.mpr ⟨rfl, rfl⟩), ?_⟩
    rw [appendAll, List.append_assoc]

theorem parses_readV2 {now : Int} {x : List (ReadDb F)} :
    Parses (readV2 now) e x ↔ ∃ file : RawFile, file.Loads now x ∧ e = file.bytes := by
  have hbody : ∀ version, Sound (if version ≠ 2 then fail (.text (lit "ERR unsupported RDB version")) else
      reported (lit "ERR malformed RDB header") readU64 >>= fun _ => readDbs (F := F) now) := fun _ =>
    .ite (.fail _) ((Sound.named _ sound_readU64).bind fun _ => sound_readDbs now)
  unfold readV2
  rw [(Sound.take 8 _).parses_bind fun _ => .ite (.fail _) ((Sound.named _ sound_readU32).bind hbody)]
  constructor
  · rintro ⟨magic, e1, _, h1, hm, rfl⟩
    obtain ⟨hmagic, hm'⟩ := Sound.parses_ite_fail.mp hm
    obtain ⟨version, e2, _, h2, hv, rfl⟩ := ((Sound.named _ sound_readU32).parses_bind hbody).mp hm'
    obtain ⟨hversion, hv'⟩ := Sound.parses_ite_fail.mp hv
    obtain ⟨savedAt, e3, e4, h3, h4, rfl⟩ :=
      ((Sound.named _ sound_readU64).parses_bind fun _ => sound_readDbs now).mp hv'
    obtain ⟨raws, hlt, hf, rfl⟩ := parses_readDbs.mp h4
    obtain ⟨hs, rfl⟩ := parses_readU64.mp (sound_readU64.parses_named.mp h3)
    obtain ⟨-, rfl⟩ := parses_readU32.mp (sound_readU32.parses_named.mp h2)
    obtain ⟨rfl, -⟩ := Sound.parses_take.mp h1
    refine ⟨⟨savedAt, raws⟩, ⟨hs, hlt, hf⟩, ?_⟩
    rw [not_ne_iff.mp hmagic, not_ne_iff.mp hversion]
    rfl
  · rintro ⟨file, ⟨hs, hlt, hf⟩, rfl⟩
    refine ⟨magicV2, _, _, Sound.parses_take.mpr ⟨rfl, rfl⟩, ?_, rfl⟩
    refine Sound.parses_ite_fail.mpr ⟨not_ne_iff.mpr rfl, ?_⟩
    refine Parses.bind ((parses_readU32.mpr ⟨by decide, rfl⟩).named _) ?_
    refine Sound.parses_ite_fail.mpr ⟨not_ne_iff.mpr rfl, ?_⟩
    refine Parses.bind ((parses_readU64.mpr ⟨hs, rfl⟩).named _) ?_
    exact parses_readDbs.mpr ⟨file.dbs, hlt, hf, rfl⟩

theorem readV2_iff {now : Int} {data rest : Bytes}
    {dbs : List (ReadDb F)} :
    readV2 now data = .ok (dbs, rest) ↔
      ∃ file : RawFile, file.Loads now dbs ∧ data = file.bytes ++ rest := by
  constructor
  · intro h
    obtain ⟨e, rfl, he⟩ := (sound_readV2 now).takes h
    obtain ⟨file, hf, rfl⟩ := parses_readV2.mp he
    exact ⟨file, hf, rfl⟩
  · rintro ⟨file, hf, rfl⟩
    exact parses_readV2.mpr ⟨file, hf, rfl⟩ rest

/-! ## Where the loader throws -/

section

variable {α β : Type} {r : RdbReader α} {text input : Bytes}

theorem stops_reported : reported text r input = .error (.stop .thrown) ↔ r input = .error (.stop .thrown) :=
  stops_named fun e => by cases e <;> simp

theorem without_reported (h : Without .thrown r) : Without .thrown (reported text r) :=
  fun input hp => h input (stops_reported.mp hp)

theorem stops_ite_fail {p : Prop} [Decidable p] : (if p then fail (.text text) else r) input = .error (.stop .thrown) ↔
    ¬p ∧ r input = .error (.stop .thrown) := by
  split
  next hp => exact iff_of_false (fun h => by cases h) fun h => h.1 hp
  next hp => exact ⟨fun h => ⟨hp, h⟩, And.right⟩

theorem without_take (n : Nat) : Without .thrown (take n (.text text) : RdbReader Bytes) := .take n nofun

theorem without_readU32 : Without .thrown readU32 := .readLe 4 nofun

theorem without_readU64 : Without .thrown readU64 := .readLe 8 nofun

theorem without_readU8 : Without .thrown readU8 := ((without_take 1).bind fun _ => .pure _).bind fun _ => .pure _

theorem without_readI64 : Without .thrown readI64 := without_readU64.bind fun _ => .pure _

theorem without_readStr : Without .thrown readStr := without_readU32.bind without_take

theorem without_readAll (h : Without .thrown r) : Without .thrown (readAll r) := without_readU32.bind fun n => h.many n

theorem without_readMap {V : Type} {r : RdbReader (Bytes × V)} (h : Without .thrown r) : Without .thrown (readMap r) :=
  (without_readAll h).bind fun _ => .pure _

theorem without_readPair : Without .thrown readPair :=
  without_readStr.bind fun _ => without_readStr.bind fun _ => .pure _

theorem without_readStreamItem : Without .thrown readStreamItem :=
  without_readStr.bind fun _ => (without_readMap without_readPair).bind fun _ => .pure _

theorem without_readGroupState : Without .thrown readGroupState := by
  have hpending : Without .thrown readPending :=
    without_readStr.bind fun _ => without_readI64.bind fun _ => without_readI64.bind fun _ => .pure _
  have hconsumer : Without .thrown readConsumer :=
    without_readStr.bind fun _ => without_readStr.bind fun _ => (without_readAll hpending).bind fun _ => .pure _
  exact without_readStr.bind fun _ => without_readStr.bind fun _ => (without_readMap hconsumer).bind fun _ => .pure _

end

theorem stops_readStreamEntry {input : Bytes} :
    (readStreamEntry : RdbReader (Obj F)) input = .error (.stop .thrown) ↔ OverbookedStream F input := by
  refine sound_readU64.stops_behind without_readU64 parses_readU64 fun _ _ =>
    sound_readU64.stops_behind without_readU64 parses_readU64 fun _ _ => ?_
  rw [sound_readReserved.stops_first fun _ => (without_readMap without_readGroupState).bind fun _ => .pure _]
  exact sound_readU32.stops_behind without_readU32 parses_readU32 fun _ _ => without_readStreamItem.stops_reserved

theorem stops_readEntryPayload {input : Bytes} :
    (readEntryPayload t : RdbReader (Obj F)) input = .error (.stop .thrown) ↔ t = .stream ∧ OverbookedStream F input := by
  have hscore : Without .thrown (readScore : RdbReader (Bytes × F)) :=
    without_readStr.bind fun _ => (without_take 8).bind fun _ => .pure _
  cases t with
  | hash => exact iff_of_false (((without_readMap without_readPair).bind fun _ => .pure _) input) nofun
  | list | set => exact iff_of_false (((without_readAll without_readStr).bind fun _ => .pure _) input) nofun
  | zset => exact iff_of_false (((without_readMap hscore).bind fun _ => .pure _) input) nofun
  | stream => exact stops_readStreamEntry.trans (and_iff_right rfl).symm
  | string | other => exact iff_of_false ((without_readStr.bind fun _ => .pure _) input) nofun

theorem stops_readValue {input : Bytes} :
    (readValue t : RdbReader (Obj F)) input = .error (.stop .thrown) ↔ t = .stream ∧ OverbookedStream F input := by
  have hpayload : (readEntryPayload t : RdbReader (Obj F)) input = _ ↔ _ := stops_readEntryPayload
  cases t with
  | stream => exact stops_reported.trans hpayload
  | other =>
    exact (stops_readEntryPayload (F := F) (t := .string)).trans (iff_of_false (fun h => by cases h.1) fun h => by cases h.1)
  | _ => exact hpayload

theorem ofCode_stream (c : UInt8) : ObjType.ofCode c = .stream ↔ c = 5 := by
  refine ⟨fun h => ?_, fun h => h ▸ rfl⟩
  unfold ObjType.ofCode at h
  repeat' split at h
  all_goals first | assumption | cases h

theorem stops_readEntry {now : Int} {input : Bytes} :
    (readEntry now : RdbReader (Bytes × Option (Item F))) input = .error (.stop .thrown) ↔ OverbookedEntry F input := by
  have hcode : ∀ {e c}, Parses readU8 e c ↔ True ∧ e = appendU8 c := parses_readU8.trans (and_iff_right trivial).symm
  refine (Sound.named _ sound_readStr).stops_behind (without_reported without_readStr)
    (sound_readStr.parses_named.trans parses_readStr) fun _ _ => (Sound.named _ sound_readI64).stops_behind
      (without_reported without_readI64) (sound_readI64.parses_named.trans parses_readI64) fun deadline _ => ?_
  rw [(sound_readBody (F := F) _ _).stops_first fun _ => .pure _]
  unfold readBody
  split
  · refine sound_readU8.stops_behind without_readU8 hcode fun c _ => ?_
    rw [(Sound.named _ (sound_readEntryPayload (F := F) _)).stops_first fun _ => .pure _, stops_reported,
      stops_readEntryPayload, ofCode_stream]
  · refine (Sound.named _ sound_readU8).stops_behind (without_reported without_readU8)
      (sound_readU8.parses_named.trans hcode) fun c _ => ?_
    rw [(sound_readValue (F := F) _).stops_first fun _ => .pure _, stops_readValue, ofCode_stream]

theorem stops_readDb {now : Int} {input : Bytes} :
    (readDb now : RdbReader (ReadDb F)) input = .error (.stop .thrown) ↔
      OverbookedDb F now input := by
  refine (Sound.named _ sound_readI64).stops_behind (without_reported without_readI64)
    (sound_readI64.parses_named.trans parses_readI64) fun _ _ => (Sound.named _ sound_readU32).stops_behind
      (without_reported without_readU32) (sound_readU32.parses_named.trans parses_readU32) fun n _ => ?_
  rw [((sound_readEntry (F := F) now).many n).stops_first fun _ => .pure _]
  exact (sound_readEntry now).stops_items (forall₂_bytes (L := Parses (readEntry now)) fun _ _ => parses_readEntry)
    fun _ => stops_readEntry

theorem stops_readV2 {now : Int} {data : Bytes} :
    (readV2 now : RdbReader (List (ReadDb F))) data = .error (.stop .thrown) ↔
      Overbooked F now data := by
  have hfooter : ∀ dbs : List (ReadDb F), Without .thrown
      (reported (lit "ERR malformed RDB footer") readU8 >>= fun footer =>
        if footer ≠ 0xFF then fail (.text (lit "ERR malformed RDB footer")) else pure dbs) := fun dbs =>
    (without_reported without_readU8).bind fun _ input h => Without.pure dbs input (stops_ite_fail.mp h).2
  have hu32 : ∀ {text e n}, Parses (reported text readU32) e n ↔ n < 2 ^ 32 ∧ e = appendU32 n :=
    sound_readU32.parses_named.trans parses_readU32
  refine (Sound.take 8 _).stops_behind (without_take 8) (Sound.parses_take.trans
    ⟨fun ⟨h, hlen⟩ => ⟨h ▸ hlen, h.symm⟩, fun ⟨hlen, h⟩ => ⟨h.symm, h ▸ hlen⟩⟩)
    fun magic _ => stops_ite_fail.trans (and_congr not_ne_iff ?_)
  refine (Sound.named _ sound_readU32).stops_behind (without_reported without_readU32) hu32 fun version _ =>
    stops_ite_fail.trans (and_congr not_ne_iff ?_)
  refine (Sound.named _ sound_readU64).stops_behind (without_reported without_readU64)
    (sound_readU64.parses_named.trans parses_readU64) fun _ _ =>
      (Sound.named _ sound_readU32).stops_behind (without_reported without_readU32) hu32 fun n _ => ?_
  rw [((sound_readDb (F := F) now).many n).stops_first hfooter]
  exact (sound_readDb now).stops_items (forall₂_bytes (L := Parses (readDb now)) fun _ _ => parses_readDb)
    fun _ => stops_readDb

/-! ## Loading -/

variable {key : Bytes} {db : Int}

namespace KvStore

variable {entries : List (Int × Bytes × Item F)} {s : KvStore F}

theorem entry_foldl_put {e : Entry F}
    (h : (entries.foldl (fun s x => s.putEntry x.1 x.2.1 (some { x.2.2 with })) s).entry db key = some e) :
    (db, key, e.toItem) ∈ entries ∨ s.entry db key = some e := by
  induction entries generalizing s with
  | nil => exact .inr h
  | cons x entries ih =>
    rcases ih h with hm | he
    · exact .inl (List.mem_cons_of_mem x hm)
    · rw [entry_putEntry] at he
      by_cases hk : db = x.1 ∧ key = x.2.1
      · rw [if_pos hk, Option.some.injEq] at he
        rw [← he, hk.1, hk.2]
        exact .inl List.mem_cons_self
      · rw [if_neg hk] at he
        exact .inr he

theorem entry_foldl_put_isSome (h : (s.entry db key).isSome ∨ ∃ o, (db, key, o) ∈ entries) :
    ((entries.foldl (fun s x => s.putEntry x.1 x.2.1 (some { x.2.2 with })) s).entry db key).isSome := by
  induction entries generalizing s with
  | nil => exact h.elim id fun ⟨o, ho⟩ => by cases ho
  | cons x entries ih =>
    apply ih
    rw [entry_putEntry]
    by_cases hk : db = x.1 ∧ key = x.2.1
    · rw [if_pos hk]
      exact .inl rfl
    · rw [if_neg hk]
      rcases h with hs | ⟨o, ho⟩
      · exact .inl hs
      · rcases List.mem_cons.mp ho with rfl | ho
        · exact absurd ⟨rfl, rfl⟩ hk
        · exact .inr ⟨o, ho⟩

theorem entry_cleared (s : KvStore F) (db : Int) (key : Bytes) : s.cleared.entry db key = none := rfl

theorem mem_of_entry_install {e : Entry F} (h : (s.install entries).entry db key = some e) :
    (db, key, e.toItem) ∈ entries := by
  rcases entry_foldl_put h with hm | he
  · exact hm
  · rw [entry_cleared] at he
    cases he

end KvStore

/-- An entry of the store stands in the file. -/
def Decoded (data : Bytes) (db : Int) (key : Bytes) (o : Item F) : Prop :=
  ∃ (file : RawFile) (rest : Bytes), file.Valid F ∧ data = file.bytes ++ rest ∧
    ∃ d ∈ file.dbs, d.index = db ∧ ∃ e ∈ d.entries, e.key = key ∧ e.deadline = o.expireAtMs ∧
      e.Holds o.toObj

/-- One of the six enumerators. -/
def ObjType.Valid (t : ObjType) : Prop := ∀ c, t ≠ .other c

/-- A load reads inside its input and returns, and either fails and changes nothing, or leaves only entries of
the file, with valid types, in databases that SELECT takes. -/
structure AllOrNothing (env : Env) (s : KvStore F) (data : Bytes) : Prop where
  inside : (readV2 env.now data : Except _ (List (ReadDb F) × Bytes)) ≠
    .error .past
  returns : (readV2 env.now data : Except _ (List (ReadDb F) × Bytes)) ≠
    .error (.stop .thrown)
  failed : ∀ err, (KvStore.loadFromString data env s).1 = .error err →
    (KvStore.loadFromString data env s).2 = s
  loaded : (KvStore.loadFromString data env s).1 = .ok () → ∀ db key e,
    (KvStore.loadFromString data env s).2.entry db key = some e →
      Decoded data db key e.toItem ∧ IsDb db ∧ e.type.Valid

/-- If the bytes are a snapshot, the databases with unexpired entries have numbers from 0 to 15. -/
def Numbered (F : Type) [Platform F] (now : Int) (data : Bytes) : Prop :=
  ∀ (file : RawFile) (rest : Bytes), file.Valid F → data = file.bytes ++ rest →
    ∀ d ∈ file.dbs, (∃ e ∈ d.entries, ¬e.Expired now) → IsDb d.index

/-! ## Lemmas -/

theorem readEntryPayload_type {o : Obj F}
    (h : Parses (readEntryPayload t) e o) : o.type = t := by
  cases t with
  | hash =>
    obtain ⟨v, -, rfl⟩ := (sound_readMap sound_readPair).parses_bind_pure.mp h
    rfl
  | list =>
    obtain ⟨v, -, rfl⟩ := (sound_readAll sound_readStr).parses_bind_pure.mp h
    rfl
  | set =>
    obtain ⟨v, -, rfl⟩ := (sound_readAll sound_readStr).parses_bind_pure.mp h
    rfl
  | zset =>
    obtain ⟨v, -, rfl⟩ := (sound_readMap sound_readScore).parses_bind_pure.mp h
    rfl
  | stream =>
    obtain ⟨_, _, -, h⟩ := bind_ok (h [])
    obtain ⟨_, _, -, h⟩ := bind_ok h
    obtain ⟨_, _, -, h⟩ := bind_ok h
    obtain ⟨_, _, -, h⟩ := bind_ok h
    cases h
    rfl
  | string =>
    obtain ⟨v, -, rfl⟩ := sound_readStr.parses_bind_pure.mp h
    rfl
  | other c =>
    obtain ⟨v, -, rfl⟩ := sound_readStr.parses_bind_pure.mp h
    rfl

theorem ObjType.valid_known (t : ObjType) : t.known.Valid := by
  intro c
  cases t <;> exact ObjType.noConfusion

theorem RawEntry.Holds.valid {e : RawEntry} {o : Obj F} (h : e.Holds o) : o.type.Valid := by
  rw [readEntryPayload_type h.payload]
  exact ObjType.valid_known _

omit [Platform F] in
theorem forall₂_left {α β : Type} {R : α → β → Prop} {as : List α} {bs : List β}
    (h : List.Forall₂ R as bs) : ∀ a ∈ as, ∃ b ∈ bs, R a b := by
  induction h with
  | nil => intro a ha; cases ha
  | cons hr _ ih =>
    intro a ha
    rcases List.mem_cons.mp ha with rfl | ha
    · exact ⟨_, List.mem_cons_self, hr⟩
    · obtain ⟨b, hb, hab⟩ := ih a ha
      exact ⟨b, List.mem_cons_of_mem _ hb, hab⟩

omit [Platform F] in
theorem forall₂_right {α β : Type} {R : α → β → Prop} {as : List α} {bs : List β}
    (h : List.Forall₂ R as bs) : ∀ b ∈ bs, ∃ a ∈ as, R a b := by
  intro b hb
  obtain ⟨a, ha, hab⟩ := forall₂_left h.flip b hb
  exact ⟨a, ha, hab⟩

omit [Platform F] in
theorem forall₂_exists {α β : Type} {R : α → β → Prop} {as : List α} (h : ∀ a ∈ as, ∃ b, R a b) :
    ∃ bs, List.Forall₂ R as bs := by
  induction as with
  | nil => exact ⟨[], .nil⟩
  | cons a as ih =>
    obtain ⟨b, hb⟩ := h a List.mem_cons_self
    obtain ⟨bs, hbs⟩ := ih fun a ha => h a (List.mem_cons_of_mem _ ha)
    exact ⟨b :: bs, .cons hb hbs⟩

namespace RawFile

variable {now : Int} {f : RawFile} {dbs : List (ReadDb F)}

theorem Loads.valid (h : f.Loads now dbs) : f.Valid F where
  savedAt := h.savedAt
  count := h.count
  number d hd := by
    obtain ⟨_, _, hl⟩ := forall₂_left h.dbs d hd
    exact hl.number
  counts d hd := by
    obtain ⟨_, _, hl⟩ := forall₂_left h.dbs d hd
    exact hl.count
  entries d hd e he := by
    obtain ⟨_, _, hl⟩ := forall₂_left h.dbs d hd
    obtain ⟨_, _, hv⟩ := forall₂_left hl.entries e he
    obtain ⟨o, ho, _⟩ := hv.value
    exact ⟨o, ho⟩

theorem Valid.loads (now : Int) (h : f.Valid F) :
    ∃ dbs : List (ReadDb F), f.Loads now dbs := by
  have hdbs : ∀ d ∈ f.dbs, ∃ x : ReadDb F, d.Loads now x := by
    intro d hd
    have hes : ∀ e ∈ d.entries, ∃ x : Bytes × Option (Item F), e.Loads now x := by
      intro e he
      obtain ⟨o, ho⟩ := h.entries d hd e he
      exact ⟨(e.key, _), rfl, o, ho, rfl⟩
    obtain ⟨xs, hxs⟩ := forall₂_exists hes
    exact ⟨(d.index, xs), h.number d hd, rfl, h.counts d hd, hxs⟩
  obtain ⟨dbs, hf⟩ := forall₂_exists hdbs
  exact ⟨dbs, h.savedAt, h.count, hf⟩

theorem Loads.mem_rebuilt (h : f.Loads now dbs) {o : Item F}
    (hm : (db, key, o) ∈ rebuilt dbs) : ∃ d ∈ f.dbs, d.index = db ∧
      ∃ e ∈ d.entries, e.key = key ∧ e.deadline = o.expireAtMs ∧ ¬e.Expired now ∧ e.Holds o.toObj := by
  unfold rebuilt at hm
  obtain ⟨x, hx, hm⟩ := List.mem_flatMap.mp hm
  obtain ⟨y, hy, hm⟩ := List.mem_filterMap.mp hm
  obtain ⟨o', ho', heq⟩ := Option.map_eq_some_iff.mp hm
  rw [Prod.mk.injEq, Prod.mk.injEq] at heq
  obtain ⟨rfl, rfl, rfl⟩ := heq
  obtain ⟨d, hd, hl⟩ := forall₂_right h.dbs x hx
  obtain ⟨e, he, hk, v, hv, hval⟩ := forall₂_right hl.entries y hy
  refine ⟨d, hd, hl.index.symm, e, he, hk.symm, ?_⟩
  rw [ho'] at hval
  by_cases hex : e.Expired now
  · rw [if_pos hex] at hval
    cases hval
  · rw [if_neg hex, Option.some.injEq] at hval
    rw [hval]
    exact ⟨rfl, hex, hv⟩

theorem Loads.rebuilt_of (h : f.Loads now dbs) {d : RawDb} (hd : d ∈ f.dbs) {e : RawEntry}
    (he : e ∈ d.entries) (hex : ¬e.Expired now) : ∃ o, (d.index, e.key, o) ∈ rebuilt dbs := by
  obtain ⟨x, hx, hl⟩ := forall₂_left h.dbs d hd
  obtain ⟨y, hy, hk, o, ho, hval⟩ := forall₂_left hl.entries e he
  rw [if_neg hex] at hval
  refine ⟨{ o with expireAtMs := e.deadline }, ?_⟩
  refine List.mem_flatMap.mpr ⟨x, hx, List.mem_filterMap.mpr ⟨y, hy, ?_⟩⟩
  rw [hval, hl.index, hk]
  rfl

end RawFile

theorem loadFromString_binary {data : Bytes} (h : 7 ≤ data.length ∧ data.take 6 = lit "SYRDB2") :
    (KvStore.loadFromString data : StoreM F _) = KvStore.loadBinaryV2 data := by
  unfold KvStore.loadFromString
  have hne : data.isEmpty = false := by
    cases data with
    | nil => exact absurd h.1 (by decide)
    | cons b bs => rfl
  rw [hne, if_neg (by decide), if_pos h]

/-! ## Top theorem -/

/-- A binary load is all or nothing exactly when no well-formed snapshot with an unexpired entry
under a number outside 0 to 15 is loaded, and `reserve` throws for no stream. -/
theorem all_or_nothing_iff (env : Env) (s : KvStore F) (data : Bytes)
    (h : 7 ≤ data.length ∧ data.take 6 = lit "SYRDB2") :
    AllOrNothing env s data ↔ Numbered F env.now data ∧ ¬Overbooked F env.now data := by
  have hload : KvStore.loadFromString data env s = KvStore.loadBinaryV2 data env s := by
    rw [loadFromString_binary h]
  constructor
  · intro hall
    refine ⟨fun file rest hv hdata d hd hex => ?_, fun hover => hall.returns (stops_readV2.mpr hover)⟩
    obtain ⟨e, he, hex⟩ := hex
    obtain ⟨dbs, hl⟩ := hv.loads env.now
    have hread := readV2_iff.mpr ⟨file, hl, hdata⟩
    have hrun : KvStore.loadFromString data env s = (.ok (), s.install (rebuilt dbs)) := by
      rw [hload, KvStore.loadBinaryV2, hread]
    obtain ⟨o, ho⟩ := hl.rebuilt_of hd he hex
    have hsome : ((s.install (rebuilt dbs)).entry d.index e.key).isSome :=
      KvStore.entry_foldl_put_isSome (.inr ⟨o, ho⟩)
    obtain ⟨e', he'⟩ := Option.isSome_iff_exists.mp hsome
    have hloaded := hall.loaded (by rw [hrun]) d.index e.key e' (by rw [hrun]; exact he')
    exact hloaded.2.1
  · rintro ⟨hnum, hover⟩
    refine ⟨(sound_readV2 env.now).inside data, fun hstop => hover (stops_readV2.mp hstop), ?_, ?_⟩
    · intro err herr
      rw [hload] at herr ⊢
      unfold KvStore.loadBinaryV2 at herr ⊢
      split
      · rfl
      next hok =>
        rw [hok] at herr
        cases herr
    · intro hok db key e he
      rw [hload] at hok he
      unfold KvStore.loadBinaryV2 at hok he
      split at hok
      · cases hok
      next dbs rest hread =>
        rw [hread] at he
        obtain ⟨file, hl, hdata⟩ := readV2_iff.mp hread
        obtain ⟨d, hd, rfl, raw, hraw, rfl, hdl, hex, hv⟩ :=
          hl.mem_rebuilt (KvStore.mem_of_entry_install he)
        refine ⟨⟨file, rest, hl.valid, hdata, d, hd, rfl, raw, hraw, rfl, hdl, hv⟩, ?_, hv.valid⟩
        exact hnum file rest hl.valid hdata d hd ⟨raw, hraw, hex⟩

/-- A snapshot of one string key `k` under a database number. -/
def oneKey (number : Int) : RawFile where
  savedAt := 0
  dbs := [⟨number, [⟨lit "k", 0, 0, appendStr (lit "v")⟩]⟩]

theorem all_or_nothing_iff_three :
    (7 ≤ (oneKey 3).bytes.length ∧ (oneKey 3).bytes.take 6 = lit "SYRDB2") ∧
      (AllOrNothing { now := 0 } (KvStore.empty : KvStore Int) (oneKey 3).bytes ↔
        Numbered Int 0 (oneKey 3).bytes ∧ ¬Overbooked Int 0 (oneKey 3).bytes) :=
  ⟨by decide, all_or_nothing_iff { now := 0 } KvStore.empty (oneKey 3).bytes (by decide)⟩

/-- The loader takes a key of database 99. -/
theorem loads_database_99 :
    ¬AllOrNothing { now := 0 } (KvStore.empty : KvStore Int) (oneKey 99).bytes := by
  intro h
  have hok : (KvStore.loadFromString (oneKey 99).bytes { now := 0 } (KvStore.empty : KvStore Int)).1 =
      .ok () := by decide
  have hsome : ((KvStore.loadFromString (oneKey 99).bytes { now := 0 }
      (KvStore.empty : KvStore Int)).2.entry 99 (lit "k")).isSome := by decide
  obtain ⟨e, he⟩ := Option.isSome_iff_exists.mp hsome
  have hdb := (h.loaded hok 99 (lit "k") e he).2.1
  exact absurd hdb.2 (by decide)

end Kv
