import ZeroFrameworks.Core.ByteArrayPositional
import ZeroFrameworks.Core.ByteArrayTyped

/-!
# Typed reads that throw (`core/io/bytearray.cc`)

A `Kept` call is one of `ByteArrayTyped` with the array it leaves, also when it throws.  A value of one piece is
checked before it is taken; a varint and a string are taken piece by piece.

    a read that throws leaves the array alone ↔ its first piece is missing, or nothing is   (atomic_tried_iff)
-/

namespace Core

open Kv (Bytes)
open Cells (overlay window Uniform)

/-! ## Algorithm -/

def Kept (α : Type) := ByteArray → Result α × ByteArray

instance : Monad Kept where
  pure x b := (.returned x, b)
  bind c f b :=
    match c b with
    | (.returned x, b') => f x b'
    | (.thrown, b') => (.thrown, b')
    | (.crashed, b') => (.crashed, b')

namespace Kept

/-- `read(&x, n)`, which throws before it moves. -/
def take (n : Nat) : Kept Bytes := fun b =>
  match b.read n with
  | .returned (cells, b') => (.returned (cells.map (·.getD 0)), b')
  | .thrown => (.thrown, b)
  | .crashed => (.crashed, b)

def isLittleEndian : Kept Bool := fun b => (.returned b.littleEndian, b)

def readByte : Kept (BitVec 8) := do
  let v ← take 1
  pure (v.headD 0).toBitVec

def readFixed (w : Nat) : Kept (BitVec w) := do
  let v ← take (w / 8)
  let littleEndian ← isLittleEndian
  pure (BitVec.ofNat w (Codec.ofLe (if littleEndian then v else v.reverse)))

def varintLoop (w : Nat) : Nat → Nat → Nat → Kept Nat
  | 0, _, result => pure result
  | turns + 1, i, result => do
    let b ← readByte
    if b.toNat < 0x80 then pure ((result ||| b.toNat <<< i) % 2 ^ w)
    else varintLoop w turns (i + 7) ((result ||| (b.toNat % 0x80) <<< i) % 2 ^ w)

def readVarint (w : Nat) : Kept (BitVec w) := do
  let result ← varintLoop w ((w + 6) / 7) 0 0
  pure (BitVec.ofNat w result)

def readStringF (w : Nat) : Kept Bytes := do
  let len ← readFixed w
  take len.toNat

def readStringVint : Kept Bytes := do
  let len ← readVarint 64
  take len.toNat

end Kept

/-- The read call for the way `v` was written. -/
def Typed.tried : Typed → Kept Typed
  | fint8 _ => do return fint8 (← Kept.readByte)
  | fuint8 _ => do return fuint8 (← Kept.readByte)
  | fint16 _ => do return fint16 (← Kept.readFixed 16)
  | fuint16 _ => do return fuint16 (← Kept.readFixed 16)
  | fint32 _ => do return fint32 (← Kept.readFixed 32)
  | fuint32 _ => do return fuint32 (← Kept.readFixed 32)
  | fint64 _ => do return fint64 (← Kept.readFixed 64)
  | fuint64 _ => do return fuint64 (← Kept.readFixed 64)
  | int32 _ => do return int32 (decodeZigzag (← Kept.readVarint 32))
  | uint32 _ => do return uint32 (← Kept.readVarint 32)
  | int64 _ => do return int64 (decodeZigzag (← Kept.readVarint 64))
  | uint64 _ => do return uint64 (← Kept.readVarint 64)
  | float _ => do return float (← Kept.readFixed 32)
  | double _ => do return double (← Kept.readFixed 64)
  | stringF16 _ => do return stringF16 (← Kept.readStringF 16)
  | stringF32 _ => do return stringF32 (← Kept.readStringF 32)
  | stringF64 _ => do return stringF64 (← Kept.readStringF 64)
  | stringVint _ => do return stringVint (← Kept.readStringVint)

/-! ## Specification -/

/-- The array of a call that throws is forgotten. -/
def Kept.forget {α : Type} (c : Kept α) : Call α := fun b =>
  match c b with
  | (.returned x, b') => .returned (x, b')
  | (.thrown, _) => .thrown
  | (.crashed, _) => .crashed

/-- The bytes from the position on; one that was never written can have any value, and zero stands for it. -/
def ByteArray.ahead (b : ByteArray) : Bytes :=
  (window b.flat.bytes b.position b.getReadSize).map (·.getD 0)

namespace Typed

/-- If the read throws, the position, the size, the current chunk and the content are as before. -/
def Atomic (v : Typed) (b : ByteArray) : Prop := (v.tried b).1 = .thrown → (v.tried b).2 = b

/-- A varint at the head of the bytes, and how many it takes; `none` when they end in it. -/
def varintAhead (w : Nat) : Nat → Nat → Nat → Bytes → Option (Nat × Nat)
  | 0, _, result, _ => some (result, 0)
  | _ + 1, _, _, [] => none
  | turns + 1, i, result, b :: rest =>
    if b.toNat < 0x80 then some ((result ||| b.toNat <<< i) % 2 ^ w, 1)
    else (varintAhead w turns (i + 7) ((result ||| (b.toNat % 0x80) <<< i) % 2 ^ w) rest).map fun p => (p.1, p.2 + 1)

/-- How many bytes the first piece of the value has. -/
def first : Typed → Nat
  | fint8 _ | fuint8 _ => 1
  | fint16 _ | fuint16 _ | stringF16 _ => 2
  | fint32 _ | fuint32 _ | float _ | stringF32 _ => 4
  | fint64 _ | fuint64 _ | double _ | stringF64 _ => 8
  | int32 _ | uint32 _ | int64 _ | uint64 _ | stringVint _ => 1

/-- A length of `w` bits is there, and as many bytes as it says. -/
def EnoughString (w : Nat) (b : ByteArray) : Prop :=
  w / 8 ≤ b.ahead.length ∧
    w / 8 + Codec.ofLe (if b.littleEndian then b.ahead.take (w / 8) else (b.ahead.take (w / 8)).reverse) ≤ b.ahead.length

/-- All bytes of the value are there. -/
def Enough (b : ByteArray) : Typed → Prop
  | fint8 _ | fuint8 _ => 1 ≤ b.ahead.length
  | fint16 _ | fuint16 _ => 2 ≤ b.ahead.length
  | fint32 _ | fuint32 _ | float _ => 4 ≤ b.ahead.length
  | fint64 _ | fuint64 _ | double _ => 8 ≤ b.ahead.length
  | int32 _ | uint32 _ => (varintAhead 32 5 0 0 b.ahead).isSome
  | int64 _ | uint64 _ => (varintAhead 64 10 0 0 b.ahead).isSome
  | stringF16 _ => EnoughString 16 b
  | stringF32 _ => EnoughString 32 b
  | stringF64 _ => EnoughString 64 b
  | stringVint _ => ∃ len n, varintAhead 64 10 0 0 b.ahead = some (len, n) ∧ n + len ≤ b.ahead.length

end Typed

/-! ## Lemmas -/

namespace Kept

variable {α β : Type}

theorem bind_eq (c : Kept α) (f : α → Kept β) (b : ByteArray) : (c >>= f) b =
    match c b with
    | (.returned x, b') => f x b'
    | (.thrown, b') => (.thrown, b')
    | (.crashed, b') => (.crashed, b') := rfl

theorem forget_bind (c : Kept α) (f : α → Kept β) : forget (c >>= f) = forget c >>= fun x => forget (f x) := by
  funext b
  show _ = (forget c b >>= fun p => forget (f p.1) p.2)
  rw [forget, forget, bind_eq]
  obtain ⟨r, b'⟩ := c b
  cases r with
  | returned x => rfl
  | thrown => rfl
  | crashed => rfl

theorem forget_take (n : Nat) : forget (take n) = ByteArray.take n := by
  funext b
  show _ = (b.read n >>= fun p => _)
  rw [forget, take]
  cases b.read n with
  | returned p => rfl
  | thrown => rfl
  | crashed => rfl

theorem forget_readByte : forget readByte = ByteArray.readByte := by
  rw [readByte, forget_bind, forget_take]
  rfl

theorem forget_readFixed (w : Nat) : forget (readFixed w) = ByteArray.readFixed w := by
  rw [readFixed, forget_bind, forget_take]
  rfl

theorem forget_varintLoop (w turns i result : Nat) :
    forget (varintLoop w turns i result) = ByteArray.varintLoop w turns i result := by
  induction turns generalizing i result with
  | zero => rfl
  | succ turns ih =>
    rw [varintLoop, ByteArray.varintLoop, forget_bind, forget_readByte]
    congr 1
    funext b
    split
    · rfl
    · exact ih _ _

theorem forget_readVarint (w : Nat) : forget (readVarint w) = ByteArray.readVarint w := by
  rw [readVarint, forget_bind, forget_varintLoop]
  rfl

theorem forget_return {c : Kept α} {d : Call α} (h : forget c = d) (f : α → β) :
    forget (do return f (← c)) = do return f (← d) := by
  rw [← h, forget_bind]
  rfl

theorem forget_zigzag {w : Nat} (f : BitVec w → β) :
    forget (readVarint w >>= fun v => pure (f (decodeZigzag v))) =
      ((ByteArray.readVarint w >>= fun v => pure (decodeZigzag v)) >>= fun x => pure (f x)) := by
  rw [forget_bind, forget_readVarint]
  funext b
  change Bind.bind (ByteArray.readVarint w b) _ = Bind.bind (Bind.bind (ByteArray.readVarint w b) _) _
  cases ByteArray.readVarint w b with
  | returned p => rfl
  | thrown => rfl
  | crashed => rfl

theorem forget_readStringF (w : Nat) :
    forget (readStringF w) = (ByteArray.readFixed w >>= fun len => ByteArray.take len.toNat) := by
  rw [readStringF, forget_bind, forget_readFixed]
  congr 1
  funext len
  exact forget_take _

theorem forget_readStringVint : forget readStringVint = ByteArray.readStringVint := by
  rw [readStringVint, forget_bind, forget_readVarint]
  show _ = (ByteArray.readVarint 64 >>= fun len => ByteArray.take len.toNat)
  congr 1
  funext len
  exact forget_take _

theorem forget_tried (v : Typed) : forget v.tried = v.read := by
  cases v with
  | fint8 | fuint8 => exact forget_return forget_readByte _
  | fint16 | fuint16 | fint32 | fuint32 | fint64 | fuint64 | float | double =>
    exact forget_return (forget_readFixed _) _
  | uint32 | uint64 => exact forget_return (forget_readVarint _) _
  | int32 | int64 => exact forget_zigzag _
  | stringF16 | stringF32 | stringF64 => exact forget_return (forget_readStringF _) _
  | stringVint => exact forget_return forget_readStringVint _

end Kept

/-! ### What a piece does -/

namespace ByteArray

variable {b : ByteArray}

theorem length_ahead (h : b.Good) : b.ahead.length = b.size - b.position := by
  have hread := h.read
  rw [ahead, List.length_map, getReadSize, Cells.window_length]
  rw [flat_length h]
  omega

variable {n : Nat}

theorem take_of_short (h : b.Good) (hn : b.ahead.length < n) : Kept.take n b = (.thrown, b) := by
  rw [length_ahead h] at hn
  have hthrown : b.read n = .thrown := if_pos hn
  rw [Kept.take, hthrown]

theorem take_zero (b : ByteArray) : (Kept.take 0 b).1 ≠ .thrown := by
  have hread : b.read 0 = .crashed ∨ b.read 0 = .returned ([], b) := by
    unfold read
    rw [if_neg (Nat.not_lt_zero _), readLoop]
    cases b.cur with
    | none => exact .inl rfl
    | some i => exact .inr rfl
  rw [Kept.take]
  rcases hread with h | h
  · rw [h]
    intro ht
    cases ht
  · rw [h]
    intro ht
    cases ht

/-- An array that has moved on by `n` bytes. -/
structure Moved (b b' : ByteArray) (n : Nat) : Prop where
  good : b'.Good
  ahead : b'.ahead = b.ahead.drop n
  position : b'.position = b.position + n
  order : b'.littleEndian = b.littleEndian

theorem take_of_le (h : b.Good) (h1 : 1 ≤ n) (hn : n ≤ b.ahead.length) :
    ∃ b', Kept.take n b = (.returned (b.ahead.take n), b') ∧ Moved b b' n := by
  rw [length_ahead h] at hn
  obtain ⟨cur, hread, hgood⟩ := read_spec h h1 hn
  refine ⟨{ b with cur := cur, position := b.position + n }, ?_, hgood, ?_, rfl, rfl⟩
  · rw [Kept.take, hread, ahead, window, window, getReadSize, ← List.map_take, List.take_take, Nat.min_eq_left hn]
  · show (window b.flat.bytes (b.position + n) (b.size - (b.position + n))).map _ = _
    rw [ahead, ← List.map_drop, getReadSize, window, window, List.drop_take, List.drop_drop, Nat.sub_sub]

theorem Moved.trans {b1 b2 : ByteArray} {m n : Nat} (h : Moved b b1 m) (h' : Moved b1 b2 n) : Moved b b2 (m + n) where
  good := h'.good
  ahead := by rw [h'.ahead, h.ahead, List.drop_drop]
  position := by rw [h'.position, h.position, Nat.add_assoc]
  order := h'.order.trans h.order

theorem Moved.ne {b' : ByteArray} (h : Moved b b' n) (hn : 1 ≤ n) : b' ≠ b := by
  rintro rfl
  have := h.position
  omega

theorem readByte_cons (h : b.Good) {x : UInt8} {rest : Bytes} (hx : b.ahead = x :: rest) :
    ∃ b', Kept.readByte b = (.returned x.toBitVec, b') ∧ Moved b b' 1 := by
  obtain ⟨b', htake, hmoved⟩ := take_of_le h (Nat.le_refl 1) (by rw [hx]; exact Nat.succ_le_succ (Nat.zero_le _))
  refine ⟨b', ?_, hmoved⟩
  rw [Kept.readByte, Kept.bind_eq, htake, hx]
  rfl

theorem varintLoop_some (h : b.Good) {w turns i result v n : Nat}
    (hv : Typed.varintAhead w turns i result b.ahead = some (v, n)) :
    ∃ b', Kept.varintLoop w turns i result b = (.returned v, b') ∧ (n = 0 ∧ b' = b ∨ Moved b b' n) ∧
      b'.Good ∧ (1 ≤ turns → 1 ≤ n) := by
  induction turns generalizing b i result v n with
  | zero =>
    obtain ⟨rfl, rfl⟩ := Prod.mk.inj (Option.some.inj hv)
    exact ⟨b, rfl, .inl ⟨rfl, rfl⟩, h, fun hle => absurd hle (by decide)⟩
  | succ turns ih =>
    cases hx : b.ahead with
    | nil =>
      rw [hx] at hv
      cases hv
    | cons x rest =>
      obtain ⟨b1, hread, hmoved⟩ := readByte_cons h hx
      rw [hx, Typed.varintAhead] at hv
      rw [Kept.varintLoop, Kept.bind_eq, hread]
      by_cases hlow : x.toNat < 0x80
      · rw [if_pos hlow] at hv
        obtain ⟨rfl, rfl⟩ := Prod.mk.inj (Option.some.inj hv)
        exact ⟨b1, congrFun (if_pos hlow) b1, .inr hmoved, hmoved.good, fun _ => Nat.le_refl 1⟩
      · rw [if_neg hlow] at hv
        obtain ⟨p, hp, heq⟩ := Option.map_eq_some_iff.mp hv
        obtain ⟨rfl, rfl⟩ := Prod.mk.inj heq
        have hahead : b1.ahead = rest := by rw [hmoved.ahead, hx]; rfl
        obtain ⟨b2, hloop, hor, hgood, -⟩ := ih hmoved.good (by rw [hahead]; exact hp)
        refine ⟨b2, ?_, .inr ?_, hgood, fun _ => Nat.succ_le_succ (Nat.zero_le _)⟩
        · exact (congrFun (if_neg hlow) b1).trans hloop
        · rcases hor with ⟨hzero, rfl⟩ | hmore
          · rw [hzero]
            exact hmoved
          · rw [Nat.add_comm]
            exact hmoved.trans hmore

/-- The bytes end in the varint: it throws with all of them taken. -/
theorem varintLoop_none (h : b.Good) {w turns i result : Nat}
    (hv : Typed.varintAhead w turns i result b.ahead = none) :
    ∃ b', Kept.varintLoop w turns i result b = (.thrown, b') ∧
      (b.ahead = [] ∧ b' = b ∨ 1 ≤ b.ahead.length ∧ b'.position = b.position + b.ahead.length) := by
  induction turns generalizing b i result with
  | zero => cases hv
  | succ turns ih =>
    cases hx : b.ahead with
    | nil =>
      refine ⟨b, ?_, .inl ⟨rfl, rfl⟩⟩
      rw [Kept.varintLoop, Kept.bind_eq, Kept.readByte, Kept.bind_eq, take_of_short h (by rw [hx]; decide)]
    | cons x rest =>
      obtain ⟨b1, hread, hmoved⟩ := readByte_cons h hx
      rw [hx, Typed.varintAhead] at hv
      rw [Kept.varintLoop, Kept.bind_eq, hread]
      by_cases hlow : x.toNat < 0x80
      · rw [if_pos hlow] at hv
        cases hv
      · rw [if_neg hlow] at hv
        have hahead : b1.ahead = rest := by rw [hmoved.ahead, hx]; rfl
        obtain ⟨b2, hloop, hor⟩ := ih hmoved.good (by rw [hahead]; exact Option.map_eq_none_iff.mp hv)
        refine ⟨b2, (congrFun (if_neg hlow) b1).trans hloop, .inr ⟨Nat.succ_le_succ (Nat.zero_le _), ?_⟩⟩
        rw [List.length_cons]
        rcases hor with ⟨hnil, rfl⟩ | ⟨-, hpos⟩
        · rw [hmoved.position, ← hahead, hnil]
          rfl
        · rw [hpos, hmoved.position, hahead]
          omega

/-! ### What a value does -/

/-- A call that throws when not all is there, and then leaves the array alone if not even the first `k` bytes are. -/
structure Behaves {α : Type} (b : ByteArray) (c : Kept α) (k : Nat) (all : Prop) : Prop where
  enough : all → (c b).1 ≠ .thrown
  missing : ¬all → (c b).1 = .thrown ∧ ((c b).2 = b ↔ b.ahead.length < k)

theorem Behaves.atomic_iff {α : Type} {c : Kept α} {k : Nat} {all : Prop} (h : Behaves b c k all) :
    ((c b).1 = .thrown → (c b).2 = b) ↔ b.ahead.length < k ∨ all := by
  by_cases hall : all
  · exact iff_of_true (fun ht => absurd ht (h.enough hall)) (.inr hall)
  · obtain ⟨hthrown, hsame⟩ := h.missing hall
    exact ⟨fun ht => .inl (hsame.mp (ht hthrown)), fun hor _ => hsame.mpr (hor.resolve_right hall)⟩

theorem Behaves.map {α β : Type} {c : Kept α} {k : Nat} {all : Prop} (h : Behaves b c k all) (f : α → β) :
    Behaves b (do return f (← c)) k all := by
  have hmap : ∀ r, (c b).1 = r → ((do return f (← c) : Kept β) b).2 = (c b).2 ∧
      (((do return f (← c) : Kept β) b).1 = .thrown ↔ (c b).1 = .thrown) := by
    intro r hr
    rw [Kept.bind_eq]
    obtain ⟨x, b'⟩ := c b
    cases x with
    | returned x => exact ⟨rfl, iff_of_false nofun nofun⟩
    | thrown => exact ⟨rfl, iff_of_true rfl rfl⟩
    | crashed => exact ⟨rfl, iff_of_false nofun nofun⟩
  obtain ⟨hsnd, hfst⟩ := hmap _ rfl
  refine ⟨fun hall => (not_congr hfst).mpr (h.enough hall), fun hall => ?_⟩
  rw [hsnd]
  exact ⟨hfst.mpr (h.missing hall).1, (h.missing hall).2⟩

theorem behaves_take {α : Type} (h : b.Good) (hn : 1 ≤ n) {c : Kept α} {f : Bytes → Kept α}
    (hc : c = Kept.take n >>= f) (hf : ∀ v b', (f v b').1 ≠ .thrown) : Behaves b c n (n ≤ b.ahead.length) := by
  rw [hc]
  constructor
  · intro hle
    obtain ⟨b', htake, -⟩ := take_of_le h hn hle
    rw [Kept.bind_eq, htake]
    exact hf _ _
  · intro hlt
    have hlt := Nat.lt_of_not_le hlt
    rw [Kept.bind_eq, take_of_short h hlt]
    exact ⟨rfl, iff_of_true rfl hlt⟩

theorem behaves_readByte (h : b.Good) : Behaves b Kept.readByte 1 (1 ≤ b.ahead.length) :=
  behaves_take h (Nat.le_refl 1) rfl fun _ _ => nofun

theorem behaves_readFixed (h : b.Good) {w : Nat} (hw : 1 ≤ w / 8) :
    Behaves b (Kept.readFixed w) (w / 8) (w / 8 ≤ b.ahead.length) :=
  behaves_take h hw rfl fun _ _ => nofun

theorem behaves_readVarint (h : b.Good) (w : Nat) :
    Behaves b (Kept.readVarint w) 1 ((Typed.varintAhead w ((w + 6) / 7) 0 0 b.ahead).isSome = true) := by
  suffices hloop : Behaves b (Kept.varintLoop w ((w + 6) / 7) 0 0) 1
      ((Typed.varintAhead w ((w + 6) / 7) 0 0 b.ahead).isSome = true) from hloop.map (BitVec.ofNat w)
  constructor
  · intro hsome
    obtain ⟨p, hp⟩ := Option.isSome_iff_exists.mp hsome
    obtain ⟨b', hloop, -⟩ := varintLoop_some h hp
    rw [hloop]
    nofun
  · intro hnone
    obtain ⟨b', hloop, hor⟩ := varintLoop_none h (Option.not_isSome_iff_eq_none.mp hnone)
    rw [hloop]
    refine ⟨rfl, ?_⟩
    rcases hor with ⟨hnil, rfl⟩ | ⟨hsome, hpos⟩
    · exact iff_of_true rfl (by rw [hnil]; decide)
    · refine iff_of_false (fun heq => ?_) (Nat.not_lt.mpr hsome)
      have hpos' : b'.position = b.position := congrArg ByteArray.position heq
      omega

theorem behaves_string {w k n : Nat} {len : Kept (BitVec w)} {v : BitVec w} {b1 : ByteArray}
    (hlen : len b = (.returned v, b1)) (hmoved : Moved b b1 n) (hk : k ≤ n) (h1 : 1 ≤ n) (hn : n ≤ b.ahead.length) :
    Behaves b (len >>= fun x => Kept.take x.toNat) k (n + v.toNat ≤ b.ahead.length) := by
  have hahead : b1.ahead.length = b.ahead.length - n := by rw [hmoved.ahead, List.length_drop]
  constructor
  · intro hall
    rw [Kept.bind_eq, hlen]
    show (Kept.take v.toNat b1).1 ≠ _
    rcases Nat.eq_zero_or_pos v.toNat with hzero | hpos
    · rw [hzero]
      exact take_zero b1
    · obtain ⟨b2, htake, -⟩ := take_of_le hmoved.good hpos (by omega)
      rw [htake]
      nofun
  · intro hall
    rw [Kept.bind_eq, hlen]
    show (Kept.take v.toNat b1).1 = _ ∧ ((Kept.take v.toNat b1).2 = b ↔ _)
    rw [take_of_short hmoved.good (by omega)]
    exact ⟨rfl, iff_of_false (hmoved.ne h1) (by omega)⟩

theorem Behaves.congr {α : Type} {c : Kept α} {k : Nat} {all all' : Prop} (h : Behaves b c k all)
    (heq : all ↔ all') : Behaves b c k all' := ⟨fun ha => h.enough (heq.mpr ha), fun ha => h.missing (mt heq.mp ha)⟩

theorem behaves_noLength {w k : Nat} {len : Kept (BitVec w)} {all : Prop} (h : Behaves b len k all) (hall : ¬all) :
    Behaves b (len >>= fun x => Kept.take x.toNat) k False := by
  obtain ⟨hthrown, hsame⟩ := h.missing hall
  refine ⟨False.elim, fun _ => ?_⟩
  rw [Kept.bind_eq]
  rcases hp : len b with ⟨r, b'⟩
  rw [hp] at hthrown hsame
  obtain rfl : r = .thrown := hthrown
  exact ⟨rfl, hsame⟩

theorem behaves_readStringF (h : b.Good) {w : Nat} (hw : w = 16 ∨ w = 32 ∨ w = 64) :
    Behaves b (Kept.readStringF w) (w / 8) (Typed.EnoughString w b) := by
  have h1 : 1 ≤ w / 8 := by omega
  by_cases hle : w / 8 ≤ b.ahead.length
  · obtain ⟨b1, htake, hmoved⟩ := take_of_le h h1 hle
    generalize hv : (if b.littleEndian then b.ahead.take (w / 8) else (b.ahead.take (w / 8)).reverse) = v
    have hread : Kept.readFixed w b = (.returned (BitVec.ofNat w (Codec.ofLe v)), b1) := by
      rw [Kept.readFixed, Kept.bind_eq, htake, ← hv, ← hmoved.order]
      rfl
    have hlen : v.length = w / 8 := by
      rw [← hv]
      split
      · rw [List.length_take, Nat.min_eq_left hle]
      · rw [List.length_reverse, List.length_take, Nat.min_eq_left hle]
    have hlt : Codec.ofLe v < 2 ^ w := by
      have hbound := Codec.ofLe_lt v
      rw [hlen, show (256 : Nat) = 2 ^ 8 from rfl, ← Nat.pow_mul, show 8 * (w / 8) = w by omega] at hbound
      exact hbound
    refine (behaves_string hread hmoved (Nat.le_refl _) h1 hle).congr ?_
    rw [BitVec.toNat_ofNat, Nat.mod_eq_of_lt hlt, Typed.EnoughString, hv]
    exact (and_iff_right hle).symm
  · exact (behaves_noLength (behaves_readFixed h h1) hle).congr (iff_of_false not_false fun hall => hle hall.1)

theorem varintAhead_bounds {w turns i result v n : Nat} {input : Bytes} (hr : result < 2 ^ w)
    (hv : Typed.varintAhead w turns i result input = some (v, n)) : n ≤ input.length ∧ v < 2 ^ w := by
  induction turns generalizing i result v n input with
  | zero =>
    obtain ⟨rfl, rfl⟩ := Prod.mk.inj (Option.some.inj hv)
    exact ⟨Nat.zero_le _, hr⟩
  | succ turns ih =>
    cases input with
    | nil => cases hv
    | cons x rest =>
      have hmod : ∀ m, m % 2 ^ w < 2 ^ w := fun m => Nat.mod_lt m (Nat.two_pow_pos w)
      rw [Typed.varintAhead] at hv
      by_cases hlow : x.toNat < 0x80
      · rw [if_pos hlow] at hv
        obtain ⟨rfl, rfl⟩ := Prod.mk.inj (Option.some.inj hv)
        exact ⟨Nat.succ_le_succ (Nat.zero_le _), hmod _⟩
      · rw [if_neg hlow] at hv
        obtain ⟨p, hp, heq⟩ := Option.map_eq_some_iff.mp hv
        obtain ⟨rfl, rfl⟩ := Prod.mk.inj heq
        obtain ⟨hn, hlt⟩ := ih (hmod _) hp
        exact ⟨Nat.succ_le_succ hn, hlt⟩

theorem behaves_readStringVint (h : b.Good) : Behaves b Kept.readStringVint 1
    (∃ len n, Typed.varintAhead 64 10 0 0 b.ahead = some (len, n) ∧ n + len ≤ b.ahead.length) := by
  cases hv : Typed.varintAhead 64 10 0 0 b.ahead with
  | none =>
    refine (behaves_noLength (behaves_readVarint h 64) ?_).congr (iff_of_false not_false ?_)
    · show ¬(Typed.varintAhead 64 10 0 0 b.ahead).isSome = true
      rw [hv]
      nofun
    · rintro ⟨len, n, heq, -⟩
      cases heq
  | some p =>
    obtain ⟨v, n⟩ := p
    obtain ⟨b1, hloop, hor, -, hturn⟩ := varintLoop_some h hv
    have h1 := hturn (by decide)
    have hmoved : Moved b b1 n := hor.resolve_left fun hzero => by omega
    have hread : Kept.readVarint 64 b = (.returned (BitVec.ofNat 64 v), b1) := by
      rw [Kept.readVarint, Kept.bind_eq, hloop]
      rfl
    obtain ⟨hn, hlt⟩ := varintAhead_bounds (by decide) hv
    refine (behaves_string hread hmoved h1 h1 hn).congr ?_
    rw [BitVec.toNat_ofNat, Nat.mod_eq_of_lt hlt]
    constructor
    · exact fun hle => ⟨v, n, rfl, hle⟩
    · rintro ⟨len, m, heq, hle⟩
      obtain ⟨rfl, rfl⟩ := Prod.mk.inj (Option.some.inj heq)
      exact hle

theorem behaves_tried (h : b.Good) (v : Typed) : Behaves b v.tried v.first (v.Enough b) := by
  cases v with
  | fint8 | fuint8 => exact (behaves_readByte h).map _
  | fint16 | fuint16 | fint32 | fuint32 | fint64 | fuint64 | float | double =>
    exact (behaves_readFixed h (by decide)).map _
  | uint32 | uint64 => exact (behaves_readVarint h _).map _
  | int32 | int64 => exact (behaves_readVarint h _).map fun v => _
  | stringF16 | stringF32 | stringF64 => exact (behaves_readStringF h (by decide)).map _
  | stringVint => exact (behaves_readStringVint h).map _

/-! ## Top theorem -/

/-- A typed read that throws leaves the array as it was when its first piece is missing, and only then. -/
theorem atomic_tried_iff (h : b.Reachable) (v : Typed) : v.Atomic b ↔ b.ahead.length < v.first ∨ v.Enough b :=
  (behaves_tried h.good v).atomic_iff

/-- The length of a string without its bytes, from the position before it. -/
def lengthOnly : ByteArray := (((create 4).step (.write [0, 5])).2.step (.setPosition 0)).2

theorem reachable_lengthOnly : lengthOnly.Reachable := ((Reachable.create 4 (by decide)).step _).step _

theorem atomic_lengthOnly : Typed.Atomic (.fuint32 0) lengthOnly ↔
    lengthOnly.ahead.length < Typed.first (.fuint32 0) ∨ Typed.Enough lengthOnly (.fuint32 0) :=
  atomic_tried_iff reachable_lengthOnly (.fuint32 0)

/-- The length is gone, and a second try reads what follows for the length. -/
theorem lengthOnly_taken : lengthOnly.Reachable ∧ ¬Typed.Atomic (.stringF16 []) lengthOnly := by
  refine ⟨reachable_lengthOnly, fun h => ?_⟩
  have hpos : ((Typed.stringF16 []).tried lengthOnly).2.position = 2 := by rfl
  rw [h (by rfl)] at hpos
  cases hpos

end ByteArray

end Core
