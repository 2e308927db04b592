import ZeroFrameworks.Http.Hpack

/-!
# HPACK decoding of arbitrary bytes

`decodeInteger` reads its first byte unasked, shifts by seven more for every group, and stops where the input does.
The reading in full takes an integer only if it ends in the input and fits 32 bits.

    every field that decode reaches is read as in full ↔ the block is tame   (safe_iff_tame)

In a tame block each integer is there and has at most five groups, and one that is cut off or does not fit is
refused for its value modulo 2 ^ 32.
-/

namespace Http.Http2

open Kv (Bytes lit)

/-! ## Specification -/

/-- An integer as it lies in the bytes: its value, whether it ends in them, its groups, and what follows. -/
structure Numeral where
  value : Nat
  ended : Bool
  count : Nat
  rest : Bytes

def readGroups : Bytes → Numeral
  | [] => ⟨0, false, 0, []⟩
  | b :: rest =>
    if b &&& 0x80 = 0 then ⟨b.toNat % 128, true, 1, rest⟩
    else ⟨b.toNat % 128 + 128 * (readGroups rest).value, (readGroups rest).ended, (readGroups rest).count + 1,
      (readGroups rest).rest⟩

/-- The integer with a prefix of `n` bits in `b`. -/
def numeral (n : Nat) (b : UInt8) (input : Bytes) : Numeral :=
  if b.toNat % 2 ^ n < 2 ^ n - 1 then ⟨b.toNat % 2 ^ n, true, 0, input⟩
  else { readGroups input with value := 2 ^ n - 1 + (readGroups input).value }

def Numeral.Proper (x : Numeral) : Prop := x.ended = true ∧ x.value < 2 ^ 32

instance (x : Numeral) : Decidable x.Proper := inferInstanceAs (Decidable (_ ∧ _))

def Refused (idx : Nat) : Prop := idx = 0 ∨ idx ≥ kStaticTableSize

instance (idx : Nat) : Decidable (Refused idx) := inferInstanceAs (Decidable (_ ∨ _))

/-! ### The reading in full -/

def fullInteger (n : Nat) : Reader Nat
  | [] => .error (.stop ())
  | b :: input =>
    if (numeral n b input).Proper then .ok ((numeral n b input).value, (numeral n b input).rest)
    else .error (.stop ())

def fullString : Reader Bytes := fun input =>
  match input with
  | [] => .error (.stop ())
  | b :: _ => do
    let (strLen, rest) ← fullInteger 7 input
    if rest.length < strLen then .error (.stop ())
    else if b &&& 0x80 ≠ 0 then .error (.stop ())
    else .ok (rest.take strLen, rest.drop strLen)

def fullName (b : UInt8) (prefixBits : Nat) : Reader Bytes := do
  if b &&& UInt8.ofNat (2 ^ prefixBits - 1) ≠ 0 then
    let idx ← fullInteger prefixBits
    if Refused idx then Codec.fail () else pure (tableEntry idx).1
  else fullString

def fullLiteral (b : UInt8) (prefixBits : Nat) : Reader (Bytes × Bytes) := do
  let name ← fullName b prefixBits
  let value ← fullString
  pure (name, value)

def fullIndexed : Reader (Bytes × Bytes) := do
  let idx ← fullInteger 7
  if Refused idx then Codec.fail () else pure (tableEntry idx)

def fullField : Reader (Bytes × Bytes) := fun input =>
  match input with
  | [] => .error (.stop ())
  | b :: rest =>
    if b &&& 0x80 ≠ 0 then fullIndexed input
    else if b &&& 0xC0 = 0x40 then fullLiteral b 6 rest
    else if b &&& 0xF0 = 0x00 ∨ b &&& 0xF0 = 0x10 then fullLiteral b 4 rest
    else .error (.stop ())

/-- `rest` is where the loop of `decode` gets to. -/
inductive Reaches : Bytes → Bytes → Prop where
  | here (data : Bytes) : Reaches data data
  | field {data mid rest : Bytes} {kv : Bytes × Bytes} (h : decodeField data = .ok (kv, mid)) (hr : Reaches mid rest) :
    Reaches data rest

/-- `decode` ends without a read past the input or a shift by 32 or more, and takes no integer for what it is not. -/
structure Safe (data : Bytes) : Prop where
  defined : ∀ headers, (decode data headers).isSome
  exact : ∀ rest, Reaches data rest → rest ≠ [] → decodeField rest = fullField rest

/-! ### The tame blocks -/

def TameString : Bytes → Prop
  | [] => True
  | b :: input => (numeral 7 b input).count ≤ 5 ∧
    ((numeral 7 b input).Proper ∨ b &&& 0x80 ≠ 0 ∨ (numeral 7 b input).rest.length < (numeral 7 b input).value % 2 ^ 32)

def TameIndexed (b : UInt8) (input : Bytes) : Prop :=
  (numeral 7 b input).count ≤ 5 ∧ ((numeral 7 b input).Proper ∨ Refused ((numeral 7 b input).value % 2 ^ 32))

/-- After a name that is not one in full the value has to be refused. -/
def TameValue (x : Numeral) (rest : Bytes) : Prop :=
  TameString rest ∧ (x.Proper ∨ fullString rest = .error (.stop ()))

def TameLiteral (b : UInt8) (n : Nat) (input : Bytes) : Prop :=
  if b &&& UInt8.ofNat (2 ^ n - 1) ≠ 0 then
    ∃ c rest, input = c :: rest ∧ (numeral n c rest).count ≤ 5 ∧
      (Refused ((numeral n c rest).value % 2 ^ 32) ∨ TameValue (numeral n c rest) (numeral n c rest).rest)
  else ∀ c rest, input = c :: rest → (numeral 7 c rest).count ≤ 5 ∧
    ((numeral 7 c rest).rest.length < (numeral 7 c rest).value % 2 ^ 32 ∨ c &&& 0x80 ≠ 0 ∨
      TameValue (numeral 7 c rest) ((numeral 7 c rest).rest.drop ((numeral 7 c rest).value % 2 ^ 32)))

def TameField : Bytes → Prop
  | [] => True
  | b :: rest =>
    if b &&& 0x80 ≠ 0 then TameIndexed b rest
    else if b &&& 0xC0 = 0x40 then TameLiteral b 6 rest
    else if b &&& 0xF0 = 0x00 ∨ b &&& 0xF0 = 0x10 then TameLiteral b 4 rest
    else True

/-- Every field is tame, to the end or to the first that is refused. -/
inductive Tame : Bytes → Prop where
  | nil : Tame []
  | refused {data : Bytes} (h : TameField data) (hf : fullField data = .error (.stop ())) : Tame data
  | field {data rest : Bytes} {kv : Bytes × Bytes} (h : TameField data) (hf : fullField data = .ok (kv, rest))
    (hr : Tame rest) : Tame data

/-! ## Lemmas -/

variable {b : UInt8}

theorem readGroups_cons_of_low (rest : Bytes) (h : b &&& 0x80 = 0) :
    readGroups (b :: rest) = ⟨b.toNat % 128, true, 1, rest⟩ := if_pos h

theorem readGroups_cons_of_high (rest : Bytes) (h : b &&& 0x80 ≠ 0) : readGroups (b :: rest) =
    ⟨b.toNat % 128 + 128 * (readGroups rest).value, (readGroups rest).ended, (readGroups rest).count + 1,
      (readGroups rest).rest⟩ := if_neg h

/-- What the loop of `decodeInteger` makes of the groups after the first `k`. -/
theorem decodeGroups_eq (input : Bytes) {value k : Nat} (hv : value < 2 ^ 32) (hk : k ≤ 5) :
    decodeGroups value (7 * k) input =
      if k + (readGroups input).count ≤ 5 then
        .ok ((value + (readGroups input).value * 2 ^ (7 * k)) % 2 ^ 32, (readGroups input).rest)
      else .error .past := by
  induction input generalizing value k with
  | nil =>
    rw [decodeGroups]
    refine Eq.trans ?_ (if_pos (show k + 0 ≤ 5 by omega)).symm
    show _ = Except.ok ((value + 0 * 2 ^ (7 * k)) % 2 ^ 32, [])
    rw [Nat.zero_mul, Nat.add_zero, Nat.mod_eq_of_lt hv]
  | cons b input ih =>
    rw [decodeGroups]
    by_cases hwide : 32 ≤ 7 * k
    · have hcount : 1 ≤ (readGroups (b :: input)).count := by
        by_cases hb : b &&& 0x80 = 0
        · rw [readGroups_cons_of_low input hb]
        · rw [readGroups_cons_of_high input hb]
          exact Nat.succ_le_succ (Nat.zero_le _)
      rw [if_pos hwide, if_neg (by omega)]
    · rw [if_neg hwide]
      dsimp only
      by_cases hb : b &&& 0x80 = 0
      · rw [if_pos hb, readGroups_cons_of_low input hb]
        exact (if_pos (by show k + 1 ≤ 5; omega)).symm
      · rw [if_neg hb, readGroups_cons_of_high input hb, show 7 * k + 7 = 7 * (k + 1) by omega,
          ih (Nat.mod_lt _ (by decide)) (by omega)]
        rw [show k + 1 + (readGroups input).count = k + ((readGroups input).count + 1) by omega]
        rw [Nat.mod_add_mod, Nat.add_mul, Nat.add_assoc, show 7 * (k + 1) = 7 * k + 7 by omega, Nat.pow_add,
          show (readGroups input).value * (2 ^ (7 * k) * 2 ^ 7) = 128 * (readGroups input).value * 2 ^ (7 * k) by
            rw [Nat.mul_comm (2 ^ (7 * k)), ← Nat.mul_assoc, Nat.mul_comm _ (2 ^ 7), show (2 : Nat) ^ 7 = 128 from rfl]]

variable {n : Nat}

theorem decodeInteger_eq (hn : n ≤ 7) (b : UInt8) (input : Bytes) :
    decodeInteger n (b :: input) =
      if (numeral n b input).count ≤ 5 then .ok ((numeral n b input).value % 2 ^ 32, (numeral n b input).rest)
      else .error .past := by
  have hpow : 2 ^ n ≤ 2 ^ 7 := Nat.pow_le_pow_right (by decide) hn
  change (if _ then _ else _ : Reader Nat) input = _
  by_cases hlow : b.toNat % 2 ^ n < 2 ^ n - 1
  · rw [if_pos hlow, numeral, if_pos hlow, if_pos (Nat.zero_le _), Nat.mod_eq_of_lt (a := b.toNat % 2 ^ n) (by omega)]
    rfl
  · have hfull : b.toNat % 2 ^ n = 2 ^ n - 1 := by
      have := Nat.mod_lt b.toNat (Nat.two_pow_pos n)
      omega
    rw [if_neg hlow, numeral, if_neg hlow, hfull]
    have hgroups : decodeGroups (2 ^ n - 1) (7 * 0) input = _ := decodeGroups_eq input (by omega) (by omega)
    rw [Nat.zero_add, Nat.mul_zero, Nat.pow_zero, Nat.mul_one] at hgroups
    exact hgroups

/-! ### Where the two readings agree -/

theorem fullInteger_cons (n : Nat) (b : UInt8) (input : Bytes) :
    fullInteger n (b :: input) = if (numeral n b input).Proper then
      .ok ((numeral n b input).value, (numeral n b input).rest) else .error (.stop ()) := rfl

theorem decodeStringLiteral_cons (b : UInt8) (input : Bytes) : decodeStringLiteral (b :: input) =
    if (numeral 7 b input).count ≤ 5 then
      if (numeral 7 b input).rest.length < (numeral 7 b input).value % 2 ^ 32 then .error (.stop ())
      else if b &&& 0x80 ≠ 0 then .error (.stop ())
      else .ok ((numeral 7 b input).rest.take ((numeral 7 b input).value % 2 ^ 32),
        (numeral 7 b input).rest.drop ((numeral 7 b input).value % 2 ^ 32))
    else .error .past := by
  change (decodeInteger 7 (b :: input)).bind _ = _
  rw [decodeInteger_eq (by decide)]
  by_cases h : (numeral 7 b input).count ≤ 5
  · rw [if_pos h, if_pos h]
    rfl
  · rw [if_neg h, if_neg h]
    rfl

theorem fullString_cons (b : UInt8) (input : Bytes) : fullString (b :: input) =
    if (numeral 7 b input).Proper then
      if (numeral 7 b input).rest.length < (numeral 7 b input).value then .error (.stop ())
      else if b &&& 0x80 ≠ 0 then .error (.stop ())
      else .ok ((numeral 7 b input).rest.take (numeral 7 b input).value,
        (numeral 7 b input).rest.drop (numeral 7 b input).value)
    else .error (.stop ()) := by
  change (fullInteger 7 (b :: input)).bind _ = _
  rw [fullInteger_cons]
  by_cases h : (numeral 7 b input).Proper
  · rw [if_pos h, if_pos h]
    rfl
  · rw [if_neg h, if_neg h]
    rfl

theorem string_iff (input : Bytes) : decodeStringLiteral input = fullString input ↔ TameString input := by
  cases input with
  | nil => exact iff_of_true rfl trivial
  | cons b input =>
    rw [decodeStringLiteral_cons, fullString_cons, TameString]
    by_cases hshort : (numeral 7 b input).count ≤ 5
    · rw [if_pos hshort]
      by_cases hproper : (numeral 7 b input).Proper
      · rw [if_pos hproper, Nat.mod_eq_of_lt hproper.2]
        exact iff_of_true rfl ⟨hshort, .inl hproper⟩
      · rw [if_neg hproper]
        -- the cut integer is refused for its length, or for the Huffman bit
        by_cases hlong : (numeral 7 b input).rest.length < (numeral 7 b input).value % 2 ^ 32
        · rw [if_pos hlong]
          exact iff_of_true rfl ⟨hshort, .inr (.inr hlong)⟩
        · rw [if_neg hlong]
          by_cases hhuffman : b &&& 0x80 ≠ 0
          · rw [if_pos hhuffman]
            exact iff_of_true rfl ⟨hshort, .inr (.inl hhuffman)⟩
          · rw [if_neg hhuffman]
            exact iff_of_false nofun fun h => h.2.elim hproper fun h => h.elim hhuffman hlong
    · rw [if_neg hshort]
      refine iff_of_false ?_ fun h => hshort h.1
      split
      · split
        · nofun
        · split <;> nofun
      · nofun

theorem fullString_ne_past (input : Bytes) : fullString input ≠ .error .past := by
  cases input with
  | nil => nofun
  | cons b input =>
    rw [fullString_cons]
    split
    · split
      · nofun
      · split <;> nofun
    · nofun

theorem decodeStringLiteral_stop_iff (input : Bytes) :
    decodeStringLiteral input = .error (.stop ()) ↔ TameString input ∧ fullString input = .error (.stop ()) := by
  constructor
  · intro h
    suffices hfull : fullString input = .error (.stop ()) from ⟨(string_iff input).mp (h.trans hfull.symm), hfull⟩
    cases input with
    | nil => rfl
    | cons b input =>
      rw [decodeStringLiteral_cons] at h
      rw [fullString_cons]
      by_cases hproper : (numeral 7 b input).Proper
      · rw [if_pos hproper]
        by_cases hshort : (numeral 7 b input).count ≤ 5
        · rwa [if_pos hshort, Nat.mod_eq_of_lt hproper.2] at h
        · rw [if_neg hshort] at h
          cases h
      · rw [if_neg hproper]
  · rintro ⟨htame, hstop⟩
    exact ((string_iff input).mpr htame).trans hstop

theorem indexed_iff (b : UInt8) (input : Bytes) :
    decodeIndexed (b :: input) = fullIndexed (b :: input) ↔ TameIndexed b input := by
  change (decodeInteger 7 (b :: input)).bind (fun p => (if Refused p.1 then Codec.fail () else pure (tableEntry p.1) :
    Reader (Bytes × Bytes)) p.2) = (fullInteger 7 (b :: input)).bind (fun p => (if Refused p.1 then Codec.fail ()
      else pure (tableEntry p.1) : Reader (Bytes × Bytes)) p.2) ↔ _
  rw [decodeInteger_eq (by decide), fullInteger_cons, TameIndexed]
  by_cases hshort : (numeral 7 b input).count ≤ 5
  · rw [if_pos hshort]
    by_cases hproper : (numeral 7 b input).Proper
    · rw [if_pos hproper, Nat.mod_eq_of_lt hproper.2]
      exact iff_of_true rfl ⟨hshort, .inl hproper⟩
    · rw [if_neg hproper]
      show (if Refused ((numeral 7 b input).value % 2 ^ 32) then Codec.fail ()
        else pure (tableEntry ((numeral 7 b input).value % 2 ^ 32)) : Reader (Bytes × Bytes)) _ = _ ↔ _
      by_cases hrefused : Refused ((numeral 7 b input).value % 2 ^ 32)
      · rw [if_pos hrefused]
        exact iff_of_true rfl ⟨hshort, .inr hrefused⟩
      · rw [if_neg hrefused]
        exact iff_of_false nofun fun h => h.2.elim hproper hrefused
  · rw [if_neg hshort]
    refine iff_of_false ?_ fun h => hshort h.1
    by_cases hproper : (numeral 7 b input).Proper
    · rw [if_pos hproper]
      show Except.error _ ≠ (if Refused (numeral 7 b input).value then Codec.fail ()
        else pure (tableEntry (numeral 7 b input).value) : Reader (Bytes × Bytes)) _
      split <;> nofun
    · rw [if_neg hproper]
      nofun

/-- A literal that has its name reads its value. -/
def withValue (string : Reader Bytes) (name rest : Bytes) : Except (Codec.Fault Unit) ((Bytes × Bytes) × Bytes) :=
  (string rest).bind fun p => .ok ((name, p.1), p.2)

theorem decodeLiteral_index (hn : n ≤ 7) (hb : b &&& UInt8.ofNat (2 ^ n - 1) ≠ 0) (c : UInt8)
    (rest : Bytes) : decodeLiteral b n (c :: rest) =
      if (numeral n c rest).count ≤ 5 then
        if Refused ((numeral n c rest).value % 2 ^ 32) then .error (.stop ())
        else withValue decodeStringLiteral (tableEntry ((numeral n c rest).value % 2 ^ 32)).1 (numeral n c rest).rest
      else .error .past := by
  change (decodeName b n (c :: rest)).bind (fun p => withValue decodeStringLiteral p.1 p.2) = _
  have hname : decodeName b n (c :: rest) = (decodeInteger n (c :: rest)).bind fun p =>
      (if Refused p.1 then Codec.fail () else pure (tableEntry p.1).1 : Reader Bytes) p.2 := by
    rw [decodeName, if_pos hb]
    rfl
  rw [hname, decodeInteger_eq hn]
  by_cases hshort : (numeral n c rest).count ≤ 5
  · rw [if_pos hshort, if_pos hshort]
    show ((if Refused ((numeral n c rest).value % 2 ^ 32) then Codec.fail ()
      else pure (tableEntry ((numeral n c rest).value % 2 ^ 32)).1 : Reader Bytes) (numeral n c rest).rest).bind _ = _
    split <;> rfl
  · rw [if_neg hshort, if_neg hshort]
    rfl

theorem fullLiteral_index (hb : b &&& UInt8.ofNat (2 ^ n - 1) ≠ 0) (c : UInt8)
    (rest : Bytes) : fullLiteral b n (c :: rest) =
      if (numeral n c rest).Proper then
        if Refused (numeral n c rest).value then .error (.stop ())
        else withValue fullString (tableEntry (numeral n c rest).value).1 (numeral n c rest).rest
      else .error (.stop ()) := by
  change (fullName b n (c :: rest)).bind (fun p => withValue fullString p.1 p.2) = _
  have hname : fullName b n (c :: rest) = (fullInteger n (c :: rest)).bind fun p =>
      (if Refused p.1 then Codec.fail () else pure (tableEntry p.1).1 : Reader Bytes) p.2 := by
    rw [fullName, if_pos hb]
    rfl
  rw [hname, fullInteger_cons]
  by_cases hproper : (numeral n c rest).Proper
  · rw [if_pos hproper, if_pos hproper]
    show ((if Refused (numeral n c rest).value then Codec.fail ()
      else pure (tableEntry (numeral n c rest).value).1 : Reader Bytes) (numeral n c rest).rest).bind _ = _
    split <;> rfl
  · rw [if_neg hproper, if_neg hproper]
    rfl

theorem decodeLiteral_name (hb : ¬b &&& UInt8.ofNat (2 ^ n - 1) ≠ 0) (input : Bytes) :
    decodeLiteral b n input = (decodeStringLiteral input).bind fun p => withValue decodeStringLiteral p.1 p.2 := by
  change (decodeName b n input).bind (fun p => withValue decodeStringLiteral p.1 p.2) = _
  rw [decodeName, if_neg hb]

theorem fullLiteral_name (hb : ¬b &&& UInt8.ofNat (2 ^ n - 1) ≠ 0) (input : Bytes) :
    fullLiteral b n input = (fullString input).bind fun p => withValue fullString p.1 p.2 := by
  change (fullName b n input).bind (fun p => withValue fullString p.1 p.2) = _
  rw [fullName, if_neg hb]

theorem withValue_inj {r r' : Reader Bytes} {name input : Bytes} :
    withValue r name input = withValue r' name input ↔ r input = r' input := by
  refine ⟨fun h => ?_, fun h => by rw [withValue, withValue, h]⟩
  rw [withValue, withValue] at h
  cases hr : r input with
  | error e =>
    rw [hr] at h
    cases hr' : r' input with
    | error e' =>
      rw [hr'] at h
      exact congrArg Except.error (Except.error.inj h)
    | ok p =>
      rw [hr'] at h
      cases h
  | ok p =>
    rw [hr] at h
    cases hr' : r' input with
    | error e' =>
      rw [hr'] at h
      cases h
    | ok p' =>
      rw [hr'] at h
      obtain ⟨hp, hrest⟩ := Prod.mk.inj (Except.ok.inj h)
      exact congrArg Except.ok (Prod.ext (Prod.mk.inj hp).2 hrest)

theorem withValue_stop {r : Reader Bytes} {name input : Bytes} :
    withValue r name input = .error (.stop ()) ↔ r input = .error (.stop ()) := by
  rw [withValue]
  cases r input with
  | error e => exact ⟨fun h => congrArg Except.error (Except.error.inj h), fun h => by rw [h]; rfl⟩
  | ok p => exact iff_of_false nofun nofun

theorem fullLiteral_ne_past (b : UInt8) (n : Nat) (input : Bytes) : fullLiteral b n input ≠ .error .past := by
  have hvalue : ∀ name rest, withValue fullString name rest ≠ .error .past := by
    intro name rest h
    rw [withValue] at h
    cases hs : fullString rest with
    | error e =>
      rw [hs] at h
      exact fullString_ne_past rest (hs.trans (congrArg Except.error (Except.error.inj h)))
    | ok p =>
      rw [hs] at h
      cases h
  by_cases hb : b &&& UInt8.ofNat (2 ^ n - 1) ≠ 0
  · cases input with
    | nil =>
      change (fullName b n []).bind _ ≠ _
      rw [fullName, if_pos hb]
      nofun
    | cons c rest =>
      rw [fullLiteral_index hb]
      split
      · split
        · nofun
        · exact hvalue _ _
      · nofun
  · rw [fullLiteral_name hb]
    intro h
    cases hs : fullString input with
    | error e =>
      rw [hs] at h
      exact fullString_ne_past input (hs.trans (congrArg Except.error (Except.error.inj h)))
    | ok p =>
      rw [hs] at h
      exact hvalue _ _ h

theorem literal_iff (hn : n ≤ 7) (input : Bytes) :
    decodeLiteral b n input = fullLiteral b n input ↔ TameLiteral b n input := by
  rw [TameLiteral]
  by_cases hb : b &&& UInt8.ofNat (2 ^ n - 1) ≠ 0
  · rw [if_pos hb]
    cases input with
    | nil =>
      -- the index is read from past the end
      have hpast : decodeLiteral b n [] = .error .past := by
        change (decodeName b n []).bind _ = _
        rw [decodeName, if_pos hb]
        rfl
      rw [hpast]
      exact iff_of_false (fullLiteral_ne_past b n []).symm (by rintro ⟨c, rest, h, -⟩; cases h)
    | cons c rest =>
      rw [decodeLiteral_index hn hb]
      by_cases hshort : (numeral n c rest).count ≤ 5
      · rw [if_pos hshort]
        by_cases hproper : (numeral n c rest).Proper
        · rw [fullLiteral_index hb, if_pos hproper, Nat.mod_eq_of_lt hproper.2]
          by_cases hrefused : Refused (numeral n c rest).value
          · rw [if_pos hrefused, if_pos hrefused]
            exact iff_of_true rfl ⟨c, rest, rfl, hshort, .inl (by rwa [Nat.mod_eq_of_lt hproper.2])⟩
          · rw [if_neg hrefused, if_neg hrefused, withValue_inj, string_iff]
            constructor
            · exact fun h => ⟨c, rest, rfl, hshort, .inr ⟨h, .inl hproper⟩⟩
            · rintro ⟨c', rest', heq, -, hor⟩
              obtain ⟨rfl, rfl⟩ := List.cons.inj heq
              rw [Nat.mod_eq_of_lt hproper.2] at hor
              exact hor.elim (fun h => absurd h hrefused) fun h => h.1
        · rw [fullLiteral_index hb, if_neg hproper]
          by_cases hrefused : Refused ((numeral n c rest).value % 2 ^ 32)
          · rw [if_pos hrefused]
            exact iff_of_true rfl ⟨c, rest, rfl, hshort, .inl hrefused⟩
          · rw [if_neg hrefused, withValue_stop, decodeStringLiteral_stop_iff]
            constructor
            · exact fun h => ⟨c, rest, rfl, hshort, .inr ⟨h.1, .inr h.2⟩⟩
            · rintro ⟨c', rest', heq, -, hor⟩
              obtain ⟨rfl, rfl⟩ := List.cons.inj heq
              obtain ⟨htame, hstop⟩ := hor.resolve_left hrefused
              exact ⟨htame, hstop.resolve_left hproper⟩
      · rw [if_neg hshort]
        refine iff_of_false (fullLiteral_ne_past b n _).symm ?_
        rintro ⟨c', rest', heq, hcount, -⟩
        obtain ⟨rfl, rfl⟩ := List.cons.inj heq
        exact hshort hcount
  · rw [if_neg hb]
    cases input with
    | nil =>
      rw [decodeLiteral_name hb, fullLiteral_name hb]
      exact iff_of_true rfl fun c rest h => nomatch h
    | cons c rest =>
      suffices h : decodeLiteral b n (c :: rest) = fullLiteral b n (c :: rest) ↔ (numeral 7 c rest).count ≤ 5 ∧
          ((numeral 7 c rest).rest.length < (numeral 7 c rest).value % 2 ^ 32 ∨ c &&& 0x80 ≠ 0 ∨
            TameValue (numeral 7 c rest) ((numeral 7 c rest).rest.drop ((numeral 7 c rest).value % 2 ^ 32))) by
        rw [h]
        constructor
        · rintro h c' rest' heq
          obtain ⟨rfl, rfl⟩ := List.cons.inj heq
          exact h
        · exact fun h => h c rest rfl
      rw [decodeLiteral_name hb, decodeStringLiteral_cons]
      by_cases hshort : (numeral 7 c rest).count ≤ 5
      · rw [if_pos hshort]
        by_cases hrefused : (numeral 7 c rest).rest.length < (numeral 7 c rest).value % 2 ^ 32 ∨ c &&& 0x80 ≠ 0
        · refine iff_of_true ?_ ⟨hshort, or_assoc.mp (.inl hrefused)⟩
          have hstring := (decodeStringLiteral_stop_iff (c :: rest)).mp (by
            rw [decodeStringLiteral_cons, if_pos hshort]
            rcases hrefused with h | h
            · rw [if_pos h]
            · rw [if_pos h, ite_self])
          rw [fullLiteral_name hb, hstring.2]
          rcases hrefused with h | h
          · rw [if_pos h]
            rfl
          · rw [if_pos h, ite_self]
            rfl
        · obtain ⟨hlen, hhuffman⟩ := not_or.mp hrefused
          rw [if_neg hlen, if_neg hhuffman]
          have hgoal : (numeral 7 c rest).count ≤ 5 ∧
              ((numeral 7 c rest).rest.length < (numeral 7 c rest).value % 2 ^ 32 ∨ c &&& 0x80 ≠ 0 ∨
                TameValue (numeral 7 c rest) ((numeral 7 c rest).rest.drop ((numeral 7 c rest).value % 2 ^ 32))) ↔
              TameValue (numeral 7 c rest) ((numeral 7 c rest).rest.drop ((numeral 7 c rest).value % 2 ^ 32)) :=
            ⟨fun h => (h.2.resolve_left hlen).resolve_left hhuffman, fun h => ⟨hshort, .inr (.inr h)⟩⟩
          rw [hgoal, fullLiteral_name hb, fullString_cons]
          show withValue decodeStringLiteral _ _ = _ ↔ _
          by_cases hproper : (numeral 7 c rest).Proper
          · rw [Nat.mod_eq_of_lt hproper.2] at hlen ⊢
            rw [if_pos hproper, if_neg hlen, if_neg hhuffman]
            show _ = withValue fullString _ _ ↔ _
            rw [withValue_inj, string_iff]
            exact ⟨fun h => ⟨h, .inl hproper⟩, fun h => h.1⟩
          · rw [if_neg hproper]
            show _ = Except.error _ ↔ _
            rw [withValue_stop, decodeStringLiteral_stop_iff]
            exact ⟨fun h => ⟨h.1, .inr h.2⟩, fun h => ⟨h.1, h.2.resolve_left hproper⟩⟩
      · rw [if_neg hshort]
        refine iff_of_false ?_ fun h => hshort h.1
        exact fun h => fullLiteral_ne_past b n _ h.symm

theorem field_iff {input : Bytes} (h : input ≠ []) : decodeField input = fullField input ↔ TameField input := by
  cases input with
  | nil => exact absurd rfl h
  | cons b rest =>
    change (if _ then _ else _ : Except _ _) = (if _ then _ else _) ↔ (if _ then _ else _)
    by_cases hindexed : b &&& 0x80 ≠ 0
    · rw [if_pos hindexed, if_pos hindexed, if_pos hindexed]
      exact indexed_iff b rest
    · rw [if_neg hindexed, if_neg hindexed, if_neg hindexed]
      by_cases hincremental : b &&& 0xC0 = 0x40
      · rw [if_pos hincremental, if_pos hincremental, if_pos hincremental]
        exact literal_iff (by decide) rest
      · rw [if_neg hincremental, if_neg hincremental, if_neg hincremental]
        by_cases hplain : b &&& 0xF0 = 0x00 ∨ b &&& 0xF0 = 0x10
        · rw [if_pos hplain, if_pos hplain, if_pos hplain]
          exact literal_iff (by decide) rest
        · rw [if_neg hplain, if_neg hplain, if_neg hplain]
          exact iff_of_true rfl trivial

theorem fullField_ne_past (input : Bytes) : fullField input ≠ .error .past := by
  cases input with
  | nil => nofun
  | cons b rest =>
    change (if _ then _ else _ : Except _ _) ≠ _
    split
    · change (fullInteger 7 (b :: rest)).bind _ ≠ _
      rw [fullInteger_cons]
      split
      · show (if Refused _ then Codec.fail () else pure _ : Reader (Bytes × Bytes)) _ ≠ _
        split <;> nofun
      · nofun
    · split
      · exact fullLiteral_ne_past b 6 rest
      · split
        · exact fullLiteral_ne_past b 4 rest
        · nofun

theorem length_lt_of_decodeField {input rest : Bytes} {kv : Bytes × Bytes} (h : decodeField input = .ok (kv, rest)) :
    rest.length < input.length := by
  cases input with
  | nil => cases h
  | cons b input =>
    change (if _ then _ else _ : Except _ _) = _ at h
    suffices hle : rest.length ≤ input.length by
      rw [List.length_cons]
      omega
    split at h
    · obtain ⟨idx, mid, hint, hentry⟩ := bind_ok h
      split at hentry
      · cases hentry
      · obtain ⟨-, rfl⟩ := Prod.mk.inj (Except.ok.inj hentry)
        exact (decodeInteger_cons hint).length_le
    · split at h
      · exact (decodeLiteral_ok h).1.length_le
      · split at h
        · exact (decodeLiteral_ok h).1.length_le
        · cases h

theorem isSome_decodeLoop {fuel : Nat} {data : Bytes} (hlen : data.length ≤ fuel)
    (h : ∀ rest, Reaches data rest → rest ≠ [] → decodeField rest = fullField rest) (headers : HeaderMap) :
    (decodeLoop fuel data headers).isSome := by
  induction fuel generalizing data headers with
  | zero =>
    rw [List.eq_nil_of_length_eq_zero (Nat.le_zero.mp hlen), decodeLoop_nil]
    rfl
  | succ fuel ih =>
    by_cases hnil : data = []
    · rw [hnil, decodeLoop_nil]
      rfl
    · have hfield := h data (.here data) hnil
      rw [decodeLoop, if_neg hnil]
      cases hd : decodeField data with
      | ok p =>
        have hlt := length_lt_of_decodeField hd
        exact ih (by omega) (fun rest hr => h rest (.field hd hr)) _
      | error e =>
        cases e with
        | past => exact absurd (hfield.symm.trans hd) (fullField_ne_past data)
        | stop _ => rfl

theorem tame_of_exact {data : Bytes} (hlen : data.length ≤ n)
    (h : ∀ rest, Reaches data rest → rest ≠ [] → decodeField rest = fullField rest) : Tame data := by
  induction n generalizing data with
  | zero =>
    rw [List.eq_nil_of_length_eq_zero (Nat.le_zero.mp hlen)]
    exact .nil
  | succ n ih =>
    by_cases hnil : data = []
    · rw [hnil]
      exact .nil
    · have hfield := h data (.here data) hnil
      have htame := (field_iff hnil).mp hfield
      cases hf : fullField data with
      | ok p =>
        have hd := hfield.trans hf
        have hlt := length_lt_of_decodeField hd
        exact .field htame hf (ih (by omega) fun rest hr => h rest (.field hd hr))
      | error e =>
        cases e with
        | past => exact absurd hf (fullField_ne_past data)
        | stop _ => exact .refused htame hf

theorem exact_of_tame {data rest : Bytes} (hr : Reaches data rest) (h : Tame data) (hne : rest ≠ []) :
    decodeField rest = fullField rest := by
  induction hr with
  | here data =>
    cases h with
    | nil => exact absurd rfl hne
    | refused h _ => exact (field_iff hne).mpr h
    | field h _ _ => exact (field_iff hne).mpr h
  | @field data mid rest kv hd hr ih =>
    cases h with
    | nil => cases hd
    | refused h hf =>
      have hdata : data ≠ [] := by
        rintro rfl
        cases hd
      cases hd.symm.trans (((field_iff hdata).mpr h).trans hf)
    | field h hf hrest =>
      have hdata : data ≠ [] := by
        rintro rfl
        cases hd
      obtain ⟨-, rfl⟩ := Prod.mk.inj (Except.ok.inj (hd.symm.trans (((field_iff hdata).mpr h).trans hf)))
      exact ih hrest hne

/-! ## Top theorem -/

theorem safe_iff_tame (data : Bytes) : Safe data ↔ Tame data := by
  constructor
  · exact fun h => tame_of_exact (Nat.le_refl _) h.exact
  · intro h
    have hexact : ∀ rest, Reaches data rest → rest ≠ [] → decodeField rest = fullField rest :=
      fun rest hr hne => exact_of_tame hr h hne
    exact ⟨isSome_decodeLoop (Nat.le_refl _) hexact, hexact⟩

/-- An index cut off before its first byte; a group shifted by 35; an index of `2 ^ 32 + 2` that is taken for 2. -/
theorem unsafe_blocks :
    ¬Safe [0x41] ∧ ¬Safe [0xFF, 0x80, 0x80, 0x80, 0x80, 0x80, 0x00] ∧ ¬Safe [0xFF, 0x83, 0xFF, 0xFF, 0xFF, 0x0F] := by
  refine ⟨fun h => ?_, fun h => ?_, fun h => ?_⟩
  · have hpast : decode [0x41] ∅ = none := by rfl
    exact absurd (h.defined ∅) (by rw [hpast]; decide)
  · have hpast : decode [0xFF, 0x80, 0x80, 0x80, 0x80, 0x80, 0x00] ∅ = none := by rfl
    exact absurd (h.defined ∅) (by rw [hpast]; decide)
  · have hfield := h.exact _ (.here _) (by decide)
    have hnumeral : numeral 7 0xFF [0x83, 0xFF, 0xFF, 0xFF, 0x0F] = ⟨2 ^ 32 + 2, true, 5, []⟩ := by rfl
    have htame := (field_iff (by decide)).mp hfield
    change TameIndexed 0xFF _ at htame
    rw [TameIndexed, hnumeral] at htame
    exact absurd htame (by decide)

end Http.Http2
