import ZeroFrameworks.Kv.Bytes
import ZeroFrameworks.Lib.Codec
import ZeroFrameworks.Lib.Varint

/-!
# HPACK header compression (`http/hpack.cc`)

A header block is a list of field representations.  `encode` writes a field either as an index into the static
table or as a literal; `decode` also takes the forms that only other encoders write.

    decode (encode headers) = headers   (hpack_roundTrip)
    no literal takes its name from the table  →  decode reads what RFC 7541 says   (decode_rfc)

A literal whose name is an index is misread: the index is taken from the byte after the one that holds it.
-/

namespace Http.Http2

open Kv (Bytes lit)

/-! ## Algorithm -/

abbrev HeaderMap := Kv.BMap Bytes

def kStaticTable : List (Bytes × Bytes) :=
  [(lit "", lit ""), (lit ":authority", lit ""), (lit ":method", lit "GET"), (lit ":method", lit "POST"),
    (lit ":path", lit "/"), (lit ":path", lit "/index.html"), (lit ":scheme", lit "http"), (lit ":scheme", lit "https"),
    (lit ":status", lit "200"), (lit ":status", lit "204"), (lit ":status", lit "206"), (lit ":status", lit "304"),
    (lit ":status", lit "400"), (lit ":status", lit "404"), (lit ":status", lit "500"), (lit "accept-charset", lit ""),
    (lit "accept-encoding", lit "gzip, deflate"), (lit "accept-language", lit ""), (lit "accept-ranges", lit ""),
    (lit "accept", lit ""), (lit "access-control-allow-origin", lit ""), (lit "age", lit ""), (lit "allow", lit ""),
    (lit "authorization", lit ""), (lit "cache-control", lit ""), (lit "content-disposition", lit ""),
    (lit "content-encoding", lit ""), (lit "content-language", lit ""), (lit "content-length", lit ""),
    (lit "content-location", lit ""), (lit "content-range", lit ""), (lit "content-type", lit ""),
    (lit "cookie", lit ""), (lit "date", lit ""), (lit "etag", lit ""), (lit "expect", lit ""), (lit "expires", lit ""),
    (lit "from", lit ""), (lit "host", lit ""), (lit "if-match", lit ""), (lit "if-modified-since", lit ""),
    (lit "if-none-match", lit ""), (lit "if-range", lit ""), (lit "if-unmodified-since", lit ""),
    (lit "last-modified", lit ""), (lit "link", lit ""), (lit "location", lit ""), (lit "max-forwards", lit ""),
    (lit "proxy-authenticate", lit ""), (lit "proxy-authorization", lit ""), (lit "range", lit ""),
    (lit "referer", lit ""), (lit "refresh", lit ""), (lit "retry-after", lit ""), (lit "server", lit ""),
    (lit "set-cookie", lit ""), (lit "strict-transport-security", lit ""), (lit "transfer-encoding", lit ""),
    (lit "user-agent", lit ""), (lit "vary", lit ""), (lit "via", lit ""), (lit "www-authenticate", lit "")]

def kStaticTableSize : Nat := kStaticTable.length

def tableEntry (idx : Nat) : Bytes × Bytes := kStaticTable.getD idx ([], [])

/-- The least index from 1 on that holds the field; `0` for none. -/
def lookupStaticTable (name value : Bytes) : Nat :=
  ((List.range' 1 (kStaticTableSize - 1)).find? fun i => tableEntry i == (name, value)).getD 0

/-- `value` is a `uint32_t`. -/
def encodeInteger (value prefixBits : Nat) : Bytes :=
  let maxPrefix := 2 ^ prefixBits - 1
  if value < maxPrefix then [UInt8.ofNat value]
  else UInt8.ofNat maxPrefix :: Varint.groups (value - maxPrefix)

/-- The length is stored in a `uint32_t`; `out[0] &= 0x7F`. -/
def encodeStringLiteral (str : Bytes) : Bytes :=
  (encodeInteger (str.length % 2 ^ 32) 7).modifyHead (· &&& 0x7F) ++ str

def encodeField (kv : Bytes × Bytes) : Bytes :=
  let idx := lookupStaticTable kv.1 kv.2
  if idx > 0 then (encodeInteger idx 7).modifyHead (· ||| 0x80)
  else 0x40 :: (encodeStringLiteral kv.1 ++ encodeStringLiteral kv.2)

def encode (headers : HeaderMap) : Bytes := headers.toList.flatMap encodeField

/-- What is read: the bytes from `offset` to `len`.  A read past them and a shift by 32 or more are `Fault.past`,
`return false` is `Fault.stop`. -/
abbrev Reader := Codec.Reader UInt8 Unit

/-- `data[offset++]`. -/
def next : Reader UInt8 := fun input =>
  match input with
  | [] => .error .past
  | b :: rest => .ok (b, rest)

/-- The loop of `decodeInteger`. -/
def decodeGroups (value m : Nat) : Reader Nat
  | [] => .ok (value, [])
  | byte :: rest =>
    if 32 ≤ m then .error .past
    else
      let sum := (value + byte.toNat % 128 * 2 ^ m) % 2 ^ 32
      if byte &&& 0x80 = 0 then .ok (sum, rest) else decodeGroups sum (m + 7) rest

def decodeInteger (prefixBits : Nat) : Reader Nat := do
  let maxPrefix := 2 ^ prefixBits - 1
  let b ← next
  let v := b.toNat % 2 ^ prefixBits
  if v < maxPrefix then pure v else decodeGroups v 0

def decodeStringLiteral : Reader Bytes := fun input =>
  match input with
  | [] => .error (.stop ())
  | b :: _ => do
    let (strLen, rest) ← decodeInteger 7 input
    if rest.length < strLen then .error (.stop ())
    else if b &&& 0x80 ≠ 0 then .error (.stop ())
    else .ok (rest.take strLen, rest.drop strLen)

/-- The name of a literal: its index is read with `prefixBits` unless the low bits of the first byte are zero. -/
def decodeName (b : UInt8) (prefixBits : Nat) : Reader Bytes := do
  if b &&& UInt8.ofNat (2 ^ prefixBits - 1) ≠ 0 then
    let idx ← decodeInteger prefixBits
    if idx = 0 ∨ idx ≥ kStaticTableSize then Codec.fail () else pure (tableEntry idx).1
  else decodeStringLiteral

def decodeLiteral (b : UInt8) (prefixBits : Nat) : Reader (Bytes × Bytes) := do
  let name ← decodeName b prefixBits
  let value ← decodeStringLiteral
  pure (name, value)

def decodeIndexed : Reader (Bytes × Bytes) := do
  let idx ← decodeInteger 7
  if idx = 0 ∨ idx ≥ kStaticTableSize then Codec.fail () else pure (tableEntry idx)

/-- One turn of the loop of `decode`. -/
def decodeField : Reader (Bytes × Bytes) := fun input =>
  match input with
  | [] => .error .past
  | b :: rest =>
    if b &&& 0x80 ≠ 0 then decodeIndexed input
    else if b &&& 0xC0 = 0x40 then decodeLiteral b 6 rest
    else if b &&& 0xF0 = 0x00 ∨ b &&& 0xF0 = 0x10 then decodeLiteral b 4 rest
    else .error (.stop ())

/-- `fuel` bounds the number of fields. -/
def decodeLoop : Nat → Bytes → HeaderMap → Option (Bool × HeaderMap)
  | 0, rest, headers => if rest = [] then some (true, headers) else none
  | fuel + 1, rest, headers =>
    if rest = [] then some (true, headers)
    else
      match decodeField rest with
      | .ok (kv, rest') => decodeLoop fuel rest' (headers.insert kv.1 kv.2)
      | .error .past => none
      | .error (.stop _) => some (false, headers)

/-- Whether `decode` returns true, and the headers it leaves; `none` where its behaviour is undefined. -/
def decode (data : Bytes) (headers : HeaderMap) : Option (Bool × HeaderMap) := decodeLoop data.length data headers

/-! ## The encoding of RFC 7541 -/

/-- An index into the static table. -/
structure StaticIndex where
  idx : Nat
  pos : 1 ≤ idx
  le : idx ≤ 61

/-- How a literal is to be indexed. -/
inductive Indexing where
  | incremental
  | without
  | never

inductive Name where
  | index (i : StaticIndex)
  | literal (name : Bytes)

/-- A field representation that needs neither the dynamic table nor the Huffman code. -/
inductive Representation where
  | indexed (i : StaticIndex)
  | literal (how : Indexing) (name : Name) (value : Bytes)

/-- The first byte's pattern and the width of the index in it. -/
def Indexing.pattern : Indexing → UInt8 × Nat
  | .incremental => (0x40, 6)
  | .without => (0x00, 4)
  | .never => (0x10, 4)

/-- An integer with a prefix of `n` bits in a byte whose other bits are `flags`. -/
def rfcInteger (flags : UInt8) (n value : Nat) : Bytes :=
  if value < 2 ^ n - 1 then [flags ||| UInt8.ofNat value]
  else (flags ||| UInt8.ofNat (2 ^ n - 1)) :: Varint.groups (value - (2 ^ n - 1))

def rfcString (s : Bytes) : Bytes := rfcInteger 0 7 s.length ++ s

def Representation.encode : Representation → Bytes
  | .indexed i => rfcInteger 0x80 7 i.idx
  | .literal how (.index i) value => rfcInteger how.pattern.1 how.pattern.2 i.idx ++ rfcString value
  | .literal how (.literal name) value => rfcInteger how.pattern.1 how.pattern.2 0 ++ rfcString name ++ rfcString value

def Representation.field : Representation → Bytes × Bytes
  | .indexed i => tableEntry i.idx
  | .literal _ (.index i) value => ((tableEntry i.idx).1, value)
  | .literal _ (.literal name) value => (name, value)

/-- The headers a block denotes: later fields override earlier ones. -/
def denote (block : List Representation) : HeaderMap :=
  block.foldl (fun headers r => headers.insert r.field.1 r.field.2) ∅

def rfcEncode (block : List Representation) : Bytes := block.flatMap Representation.encode

/-- The representation names its field itself, and its strings have a length below `2^32`. -/
def Representation.Plain : Representation → Prop
  | .indexed _ => True
  | .literal _ (.index _) _ => False
  | .literal _ (.literal name) value => name.length < 2 ^ 32 ∧ value.length < 2 ^ 32

/-! ## Lemmas -/

theorem high_bit (b : UInt8) : b &&& 0x80 = 0 ↔ b.toNat < 128 := by
  refine Kv.forall_byte (P := fun b => b &&& 0x80 = 0 ↔ b.toNat < 128) ?_ b
  decide +kernel

theorem mask_low (n : Nat) (h : n ≤ 127) : UInt8.ofNat n &&& 0x7F = UInt8.ofNat n := by
  have hall : ∀ n < 128, UInt8.ofNat n &&& 0x7F = UInt8.ofNat n := by decide
  exact hall n (by omega)

/-- A byte whose low `n` bits are all in `v`. -/
theorem toNat_ofNat_lt {v n : Nat} (hn : n ≤ 8) (hv : v < 2 ^ n) : (UInt8.ofNat v).toNat = v := by
  have hpow : 2 ^ n ≤ 2 ^ 8 := Nat.pow_le_pow_right (by decide) hn
  rw [UInt8.toNat_ofNat']
  omega

theorem decodeGroups_groups (v value m : Nat) (rest : Bytes) (h : v * 2 ^ m < 2 ^ 32) (hm : m < 32) :
    decodeGroups value m (Varint.groups v ++ rest) = .ok ((value + v * 2 ^ m) % 2 ^ 32, rest) := by
  induction v using Varint.induct generalizing value m with
  | last v hv =>
    have hb := Varint.last_group hv
    rw [Varint.groups_of_lt hv]
    show decodeGroups value m (_ :: rest) = _
    rw [decodeGroups, if_neg (by omega)]
    dsimp only
    rw [if_pos ((high_bit _).mpr (by omega)), hb, Nat.mod_eq_of_lt hv]
  | low v hv ih =>
    have hb := Varint.low_group v
    have hsplit := Varint.split_shift v m
    have hleft : v / 128 * 2 ^ (m + 7) < 2 ^ 32 := by omega
    have hm' : m + 7 < 32 := Varint.next_shift_lt hv h
    rw [Varint.groups_of_ge hv]
    show decodeGroups value m (_ :: (_ ++ rest)) = _
    rw [decodeGroups, if_neg (by omega)]
    dsimp only
    rw [if_neg (fun hz => by have := (high_bit _).mp hz; omega), hb, ih _ _ hleft hm', hsplit]
    congr 2
    rw [show (v % 128 + 128) % 128 = v % 128 by omega]
    omega

theorem parses_integer (n v : Nat) (hn : n ≤ 8) (hv : v < 2 ^ 32) :
    Codec.Parses (decodeInteger n) (encodeInteger v n) v := by
  intro rest
  have hpos : 0 < 2 ^ n := Nat.two_pow_pos n
  unfold encodeInteger
  dsimp only
  by_cases h : v < 2 ^ n - 1
  · have hb : (UInt8.ofNat v).toNat % 2 ^ n = v := by
      rw [toNat_ofNat_lt hn (by omega), Nat.mod_eq_of_lt (by omega)]
    rw [if_pos h]
    show (if _ then _ else _ : Reader Nat) rest = _
    rw [hb, if_pos h]
    rfl
  · have hb : (UInt8.ofNat (2 ^ n - 1)).toNat % 2 ^ n = 2 ^ n - 1 := by
      rw [toNat_ofNat_lt hn (by omega), Nat.mod_eq_of_lt (by omega)]
    rw [if_neg h]
    show (if _ then _ else _ : Reader Nat) (Varint.groups (v - (2 ^ n - 1)) ++ rest) = _
    rw [hb, if_neg (by omega), decodeGroups_groups _ _ 0 rest (by omega) (by decide)]
    rw [Nat.pow_zero, Nat.mul_one, show 2 ^ n - 1 + (v - (2 ^ n - 1)) = v by omega, Nat.mod_eq_of_lt hv]

/-- The first byte of a string literal has its high bit clear. -/
theorem encodeInteger_head (v : Nat) : ∃ b rest, encodeInteger v 7 = b :: rest ∧ b.toNat < 128 ∧ b &&& 0x7F = b := by
  unfold encodeInteger
  dsimp only
  by_cases h : v < 2 ^ 7 - 1
  · rw [if_pos h]
    exact ⟨_, _, rfl, by rw [Varint.last_group (by omega)]; omega, mask_low v (by omega)⟩
  · rw [if_neg h]
    exact ⟨_, _, rfl, by decide, by decide⟩

theorem encodeStringLiteral_eq (s : Bytes) (h : s.length < 2 ^ 32) :
    encodeStringLiteral s = encodeInteger s.length 7 ++ s := by
  obtain ⟨b, rest, heq, -, hmask⟩ := encodeInteger_head s.length
  unfold encodeStringLiteral
  rw [Nat.mod_eq_of_lt h, heq, List.modifyHead_cons, hmask]

theorem parses_string (s : Bytes) (h : s.length < 2 ^ 32) :
    Codec.Parses decodeStringLiteral (encodeStringLiteral s) s := by
  intro rest
  rw [encodeStringLiteral_eq s h]
  have hint := parses_integer 7 s.length (by decide) h (s ++ rest)
  obtain ⟨b, bs, heq, hlow, -⟩ := encodeInteger_head s.length
  rw [heq] at hint ⊢
  rw [← List.append_assoc] at hint
  show (decodeInteger 7 (b :: bs ++ s ++ rest)).bind _ = _
  rw [hint]
  show (if _ then _ else _ : Except _ _) = _
  rw [if_neg (by simp), if_neg (not_not_intro ((high_bit b).mpr hlow)), List.take_left, List.drop_left]

variable {name value : Bytes}

theorem lookupStaticTable_spec (h : 0 < lookupStaticTable name value) :
    lookupStaticTable name value < kStaticTableSize ∧ tableEntry (lookupStaticTable name value) = (name, value) := by
  unfold lookupStaticTable at h ⊢
  cases hf : (List.range' 1 (kStaticTableSize - 1)).find? fun i => tableEntry i == (name, value) with
  | none =>
    rw [hf] at h
    exact absurd h (Nat.lt_irrefl 0)
  | some i =>
    have hmem := List.mem_range'_1.mp (List.mem_of_find?_eq_some hf)
    have hsize : kStaticTableSize = 62 := rfl
    have heq := List.find?_some hf
    exact ⟨by rw [Option.getD_some]; omega, beq_iff_eq.mp heq⟩

theorem encodeInteger_of_lt {v n : Nat} (h : v < 2 ^ n - 1) : encodeInteger v n = [UInt8.ofNat v] := by
  unfold encodeInteger
  exact if_pos h

theorem index_byte : ∀ i < kStaticTableSize, 0 < i →
    (UInt8.ofNat i ||| 0x80) &&& 0x80 ≠ 0 ∧ (UInt8.ofNat i ||| 0x80).toNat % 2 ^ 7 = i ∧
      0x80 ||| UInt8.ofNat i = UInt8.ofNat i ||| 0x80 := by
  decide +kernel

theorem parses_indexed {i : Nat} (h : i < kStaticTableSize) (h0 : 0 < i) :
    Codec.Parses decodeField [UInt8.ofNat i ||| 0x80] (tableEntry i) := by
  intro rest
  obtain ⟨hbit, hmod, -⟩ := index_byte i h h0
  have hsize : kStaticTableSize = 62 := rfl
  have hint : decodeInteger 7 ((UInt8.ofNat i ||| 0x80) :: rest) = .ok (i, rest) := by
    show (if _ then _ else _ : Reader Nat) rest = _
    rw [hmod, if_pos (by omega)]
    rfl
  show (if _ then _ else _ : Except _ _) = _
  rw [if_pos hbit]
  show (decodeInteger 7 ((UInt8.ofNat i ||| 0x80) :: rest)).bind _ = _
  rw [hint]
  show (if _ then _ else _ : Reader (Bytes × Bytes)) rest = _
  rw [if_neg (by omega)]
  rfl

variable {b : UInt8}

theorem parses_literal {n : Nat} (hb : b &&& UInt8.ofNat (2 ^ n - 1) = 0)
    (hname : name.length < 2 ^ 32) (hvalue : value.length < 2 ^ 32) :
    Codec.Parses (decodeLiteral b n) (encodeStringLiteral name ++ encodeStringLiteral value) (name, value) := by
  have hn : Codec.Parses (decodeName b n) (encodeStringLiteral name) name := by
    unfold decodeName
    rw [if_neg (not_not_intro hb)]
    exact parses_string name hname
  exact hn.bind ((parses_string value hvalue).bind_pure (name, ·))

theorem parses_encodeField (kv : Bytes × Bytes) (h : kv.1.length < 2 ^ 32) (h' : kv.2.length < 2 ^ 32) :
    Codec.Parses decodeField (encodeField kv) kv := by
  have hsize : kStaticTableSize = 62 := rfl
  unfold encodeField
  dsimp only
  by_cases hidx : lookupStaticTable kv.1 kv.2 > 0
  · obtain ⟨hlt, heq⟩ := lookupStaticTable_spec hidx
    have hp := parses_indexed hlt hidx
    rw [if_pos hidx, encodeInteger_of_lt (by omega), List.modifyHead_cons]
    rwa [heq] at hp
  · intro rest
    rw [if_neg hidx]
    exact parses_literal (b := 0x40) (n := 6) (by decide) h h' rest

theorem encodeField_ne_nil (kv : Bytes × Bytes) : encodeField kv ≠ [] := by
  unfold encodeField
  dsimp only
  split
  next =>
    obtain ⟨b, rest, heq, -⟩ := encodeInteger_head (lookupStaticTable kv.1 kv.2)
    rw [heq]
    exact List.cons_ne_nil _ _
  next => exact List.cons_ne_nil _ _

theorem decodeLoop_nil (fuel : Nat) (headers : HeaderMap) : decodeLoop fuel [] headers = some (true, headers) := by
  cases fuel with
  | zero => rfl
  | succ fuel => rfl

theorem decodeLoop_fields {β : Type} {enc : β → Bytes} {f : β → Bytes × Bytes} {block : List β}
    (h : ∀ x ∈ block, enc x ≠ [] ∧ Codec.Parses decodeField (enc x) (f x)) (fuel : Nat)
    (hfuel : (block.flatMap enc).length ≤ fuel) (headers : HeaderMap) :
    decodeLoop fuel (block.flatMap enc) headers =
      some (true, block.foldl (fun hs x => hs.insert (f x).1 (f x).2) headers) := by
  induction block generalizing fuel headers with
  | nil => exact decodeLoop_nil fuel headers
  | cons x block ih =>
    obtain ⟨hne, hparse⟩ := h x List.mem_cons_self
    rw [List.flatMap_cons] at hfuel ⊢
    have hlen : 0 < (enc x).length := List.length_pos_of_ne_nil hne
    rw [List.length_append] at hfuel
    obtain ⟨fuel, rfl⟩ : ∃ n, fuel = n + 1 := ⟨fuel - 1, by omega⟩
    rw [decodeLoop, if_neg (List.append_ne_nil_of_left_ne_nil hne _), hparse]
    exact ih (fun y hy => h y (List.mem_cons_of_mem _ hy)) fuel (by omega) _

theorem foldl_insert_toList (headers : HeaderMap) :
    headers.toList.foldl (fun hs kv => hs.insert kv.1 kv.2) ∅ = headers := by
  rw [← Std.ExtTreeMap.ofList_eq_foldl]
  apply Std.ExtTreeMap.ext_getElem?
  intro k
  cases hk : headers[k]? with
  | some v =>
    exact Std.ExtTreeMap.getElem?_ofList_of_mem Std.ReflCmp.compare_self Std.ExtTreeMap.distinct_keys_toList
      (Std.ExtTreeMap.mem_toList_iff_getElem?_eq_some.mpr hk)
  | none =>
    apply Std.ExtTreeMap.getElem?_ofList_of_contains_eq_false
    rw [Std.ExtTreeMap.map_fst_toList_eq_keys]
    rw [← Bool.not_eq_true, List.contains_iff_mem, Std.ExtTreeMap.mem_keys]
    rw [Std.ExtTreeMap.mem_iff_isSome_getElem?, hk]
    exact Bool.false_ne_true

theorem rfcInteger_zero (v : Nat) : rfcInteger 0 7 v = encodeInteger v 7 := by
  unfold rfcInteger encodeInteger
  dsimp only
  rw [UInt8.zero_or, UInt8.zero_or]

theorem rfcString_eq {s : Bytes} (h : s.length < 2 ^ 32) : rfcString s = encodeStringLiteral s := by
  rw [rfcString, rfcInteger_zero, encodeStringLiteral_eq s h]

/-- The low bits of a literal's first byte are zero when it gives its name. -/
theorem pattern_low (how : Indexing) :
    how.pattern.1 &&& UInt8.ofNat (2 ^ how.pattern.2 - 1) = 0 ∧ rfcInteger how.pattern.1 how.pattern.2 0 = [how.pattern.1] := by
  cases how with
  | incremental => exact ⟨by decide, by decide⟩
  | without => exact ⟨by decide, by decide⟩
  | never => exact ⟨by decide, by decide⟩

theorem decodeField_pattern (how : Indexing) (rest : Bytes) :
    decodeField (how.pattern.1 :: rest) = decodeLiteral how.pattern.1 how.pattern.2 rest := by
  cases how with
  | incremental => rfl
  | without => rfl
  | never => rfl

theorem parses_plain {r : Representation} (h : r.Plain) : r.encode ≠ [] ∧ Codec.Parses decodeField r.encode r.field := by
  cases r with
  | indexed i =>
    have hsize : kStaticTableSize = 62 := rfl
    have hle := i.le
    have hlt : i.idx < kStaticTableSize := by omega
    have hp := parses_indexed hlt i.pos
    obtain ⟨-, -, hcomm⟩ := index_byte i.idx hlt i.pos
    rw [← hcomm] at hp
    show rfcInteger 0x80 7 i.idx ≠ [] ∧ Codec.Parses decodeField (rfcInteger 0x80 7 i.idx) _
    rw [rfcInteger, if_pos (by omega)]
    exact ⟨List.cons_ne_nil _ _, hp⟩
  | literal how name value =>
    cases name with
    | index i => exact h.elim
    | literal name =>
      obtain ⟨hname, hvalue⟩ := h
      obtain ⟨hlow, hfirst⟩ := pattern_low how
      show rfcInteger _ _ 0 ++ rfcString name ++ rfcString value ≠ [] ∧
        Codec.Parses decodeField (rfcInteger _ _ 0 ++ rfcString name ++ rfcString value) _
      rw [hfirst, rfcString_eq hname, rfcString_eq hvalue, List.append_assoc]
      refine ⟨List.cons_ne_nil _ _, fun rest => ?_⟩
      show decodeField (how.pattern.1 :: _) = _
      rw [decodeField_pattern]
      exact parses_literal hlow hname hvalue rest

/-! ### Literals whose name is an index -/

variable {input rest : Bytes}

theorem decodeGroups_suffix {value m v : Nat} (h : decodeGroups value m input = .ok (v, rest)) :
    rest <:+ input := by
  induction input generalizing value m with
  | nil =>
    obtain ⟨-, rfl⟩ := Prod.mk.inj (Except.ok.inj h)
    exact List.suffix_refl _
  | cons byte input ih =>
    rw [decodeGroups] at h
    split at h
    next => cases h
    next =>
      dsimp only at h
      split at h
      next =>
        obtain ⟨-, rfl⟩ := Prod.mk.inj (Except.ok.inj h)
        exact List.suffix_cons _ _
      next => exact (ih h).trans (List.suffix_cons _ _)

theorem decodeInteger_cons {n v : Nat} (h : decodeInteger n (b :: input) = .ok (v, rest)) :
    rest <:+ input := by
  change (if _ then _ else _ : Reader Nat) input = _ at h
  split at h
  next =>
    obtain ⟨-, rfl⟩ := Prod.mk.inj (Except.ok.inj h)
    exact List.suffix_refl _
  next => exact decodeGroups_suffix h

theorem bind_ok {α β : Type} {r : Reader α} {f : α → Reader β} {y : β}
    (h : (r >>= f) input = .ok (y, rest)) : ∃ x mid, r input = .ok (x, mid) ∧ f x mid = .ok (y, rest) := by
  change (r input).bind (fun p => f p.1 p.2) = _ at h
  cases hr : r input with
  | error e =>
    rw [hr] at h
    cases h
  | ok p =>
    rw [hr] at h
    exact ⟨p.1, p.2, rfl, h⟩

theorem decodeStringLiteral_ok {input rest s : Bytes} (h : decodeStringLiteral input = .ok (s, rest)) :
    rest <:+ input ∧ s.length + rest.length < input.length := by
  cases input with
  | nil => cases h
  | cons b input =>
    change (decodeInteger 7 (b :: input)).bind _ = _ at h
    cases hint : decodeInteger 7 (b :: input) with
    | error e =>
      rw [hint] at h
      cases h
    | ok p =>
      obtain ⟨strLen, mid⟩ := p
      have hsuf := decodeInteger_cons hint
      rw [hint] at h
      change (if _ then _ else _ : Except _ _) = _ at h
      split at h
      next => cases h
      next hlen =>
        split at h
        next => cases h
        next =>
          obtain ⟨rfl, rfl⟩ := Prod.mk.inj (Except.ok.inj h)
          have hle := hsuf.length_le
          refine ⟨(List.drop_suffix _ _).trans (hsuf.trans (List.suffix_cons _ _)), ?_⟩
          rw [List.length_take, List.length_drop, List.length_cons]
          omega

theorem decodeName_ok {n : Nat} {input rest name : Bytes} (h : decodeName b n input = .ok (name, rest)) :
    rest <:+ input := by
  unfold decodeName at h
  split at h
  next =>
    obtain ⟨idx, mid, hint, hname⟩ := bind_ok h
    split at hname
    next => cases hname
    next =>
      obtain ⟨-, rfl⟩ := Prod.mk.inj (Except.ok.inj hname)
      cases input with
      | nil => cases hint
      | cons b input => exact (decodeInteger_cons hint).trans (List.suffix_cons _ _)
  next => exact (decodeStringLiteral_ok h).1

theorem decodeLiteral_ok {n : Nat} {kv : Bytes × Bytes}
    (h : decodeLiteral b n input = .ok (kv, rest)) : rest <:+ input ∧ kv.2.length + rest.length < input.length := by
  obtain ⟨name, mid, hname, hmid⟩ := bind_ok h
  obtain ⟨value, last, hvalue, hlast⟩ := bind_ok hmid
  obtain ⟨rfl, rfl⟩ := Prod.mk.inj (Except.ok.inj hlast)
  have hmid := decodeName_ok hname
  have hval := decodeStringLiteral_ok hvalue
  have hle := hmid.length_le
  exact ⟨hval.1.trans hmid, by dsimp only; omega⟩

/-- Where the value of a field can come from: a piece of the input after the field's first byte, or the static table
when the input has a byte with its high bit set. -/
def Sourced (input value : Bytes) : Prop :=
  value.length < input.length ∨ (∃ b ∈ input, 128 ≤ b.toNat) ∧ ∃ i, value = (tableEntry i).2

theorem Sourced.suffix {input input' value : Bytes} (h : Sourced input' value) (hsuf : input' <:+ input) :
    Sourced input value := by
  obtain hlt | ⟨⟨b, hb, hhigh⟩, hval⟩ := h
  · exact .inl (Nat.lt_of_lt_of_le hlt hsuf.length_le)
  · exact .inr ⟨⟨b, hsuf.subset hb, hhigh⟩, hval⟩

theorem decodeField_ok {kv : Bytes × Bytes} (h : decodeField input = .ok (kv, rest)) :
    rest <:+ input ∧ Sourced input kv.2 := by
  cases input with
  | nil => cases h
  | cons b input =>
    have hcons := List.suffix_cons b input
    have hliteral : ∀ n, decodeLiteral b n input = .ok (kv, rest) → rest <:+ b :: input ∧ Sourced (b :: input) kv.2 := by
      intro n hn
      obtain ⟨hsuf, hlen⟩ := decodeLiteral_ok hn
      exact ⟨hsuf.trans hcons, .inl (by rw [List.length_cons]; omega)⟩
    change (if _ then _ else _ : Except _ _) = _ at h
    split at h
    next hhigh =>
      obtain ⟨idx, mid, hint, hentry⟩ := bind_ok h
      split at hentry
      next => cases hentry
      next =>
        obtain ⟨rfl, rfl⟩ := Prod.mk.inj (Except.ok.inj hentry)
        have hb : 128 ≤ b.toNat := Nat.le_of_not_lt fun hlt => hhigh ((high_bit b).mpr hlt)
        exact ⟨(decodeInteger_cons hint).trans hcons, .inr ⟨⟨b, List.mem_cons_self, hb⟩, idx, rfl⟩⟩
    next =>
      split at h
      next => exact hliteral 6 h
      next =>
        split at h
        next => exact hliteral 4 h
        next => cases h

/-- Every header there is at the end was there before or is in the input. -/
theorem decodeLoop_sourced {fuel : Nat} {rest : Bytes} {headers headers' : HeaderMap}
    (h : decodeLoop fuel rest headers = some (true, headers')) (hv : headers'[name]? = some value) :
    headers[name]? = some value ∨ Sourced rest value := by
  induction fuel generalizing rest headers with
  | zero =>
    rw [decodeLoop] at h
    split at h
    next =>
      obtain ⟨-, rfl⟩ := Prod.mk.inj (Option.some.inj h)
      exact .inl hv
    next => cases h
  | succ fuel ih =>
    rw [decodeLoop] at h
    split at h
    next =>
      obtain ⟨-, rfl⟩ := Prod.mk.inj (Option.some.inj h)
      exact .inl hv
    next =>
      split at h
      next kv rest' hf =>
        obtain ⟨hsuf, hsrc⟩ := decodeField_ok hf
        obtain hold | hlater := ih h
        · rw [Std.ExtTreeMap.getElem?_insert] at hold
          split at hold
          next =>
            obtain rfl := Option.some.inj hold
            exact .inr hsrc
          next => exact .inl hold
        · exact .inr (hlater.suffix hsuf)
      next => cases h
      next => cases (Prod.mk.inj (Option.some.inj h)).1

theorem table_ascii : ∀ i < kStaticTableSize, (tableEntry i).2.all (fun b => decide (b.toNat < 128)) = true := by
  decide +kernel

theorem tableEntry_ascii (i : Nat) (hb : b ∈ (tableEntry i).2) : b.toNat < 128 := by
  by_cases hi : i < kStaticTableSize
  · exact of_decide_eq_true (List.all_eq_true.mp (table_ascii i hi) b hb)
  · unfold tableEntry at hb
    rw [List.getD_eq_getElem?_getD, List.getElem?_eq_none (Nat.le_of_not_lt hi)] at hb
    exact absurd hb List.not_mem_nil

/-- A string does not come from a part of itself. -/
theorem not_sourced {input value : Bytes} (h : input <:+ value) : ¬Sourced input value := by
  rintro (hlt | ⟨⟨b, hb, hhigh⟩, i, rfl⟩)
  · have := h.length_le
    omega
  · have := tableEntry_ascii i (h.subset hb)
    omega

theorem misread {fuel : Nat} {mid rest name name' value v : Bytes} {headers' : HeaderMap}
    (hmid : mid <:+ value) (hv : decodeStringLiteral mid = .ok (v, rest))
    (hloop : decodeLoop fuel rest ((∅ : HeaderMap).insert name' v) = some (true, headers')) :
    headers'[name]? ≠ some value := by
  intro hfound
  obtain ⟨hsuf, hlen⟩ := decodeStringLiteral_ok hv
  obtain hfirst | hlater := decodeLoop_sourced hloop hfound
  · rw [Std.ExtTreeMap.getElem?_insert] at hfirst
    split at hfirst
    next =>
      have hle := hmid.length_le
      obtain rfl := Option.some.inj hfirst
      omega
    next =>
      rw [Std.ExtTreeMap.getElem?_empty] at hfirst
      cases hfirst
  · exact not_sourced (hsuf.trans hmid) hlater

theorem decodeInteger_rfcString {n v : Nat} {value rest : Bytes} (hn : n ≤ 7) (h : value.length < 2 ^ 32)
    (hint : decodeInteger n (rfcString value) = .ok (v, rest)) : rest <:+ value := by
  rw [rfcString, rfcInteger_zero] at hint
  unfold encodeInteger at hint
  dsimp only at hint
  by_cases hs : value.length < 2 ^ 7 - 1
  · rw [if_pos hs] at hint
    exact decodeInteger_cons hint
  · have hmod : (UInt8.ofNat (2 ^ 7 - 1)).toNat % 2 ^ n = 2 ^ n - 1 := by
      have hall : ∀ n ≤ 7, (UInt8.ofNat (2 ^ 7 - 1)).toNat % 2 ^ n = 2 ^ n - 1 := by decide
      exact hall n hn
    rw [if_neg hs] at hint
    change (if _ then _ else _ : Reader Nat) (Varint.groups (value.length - (2 ^ 7 - 1)) ++ value) = _ at hint
    rw [hmod, if_neg (Nat.lt_irrefl _), decodeGroups_groups _ _ 0 value (by omega) (by decide)] at hint
    obtain ⟨-, rfl⟩ := Prod.mk.inj (Except.ok.inj hint)
    exact List.suffix_refl _

theorem pattern_index (how : Indexing) : ∀ idx < kStaticTableSize, 0 < idx → ∀ first : UInt8,
    first = how.pattern.1 ||| UInt8.ofNat (min idx (2 ^ how.pattern.2 - 1)) →
      first &&& UInt8.ofNat (2 ^ how.pattern.2 - 1) ≠ 0 ∧ first &&& 0x80 = 0 ∧
        (how.pattern.2 = 6 ∧ first &&& 0xC0 = 0x40 ∨
          how.pattern.2 = 4 ∧ first &&& 0xC0 ≠ 0x40 ∧ (first &&& 0xF0 = 0x00 ∨ first &&& 0xF0 = 0x10)) := by
  cases how with
  | incremental =>
    rintro idx h h0 first rfl
    revert idx
    decide +kernel
  | without =>
    rintro idx h h0 first rfl
    revert idx
    decide
  | never =>
    rintro idx h h0 first rfl
    revert idx
    decide

theorem decodeField_index {how : Indexing} {idx : Nat} (h : idx < kStaticTableSize) (h0 : 0 < idx) {first : UInt8}
    (hfirst : first = how.pattern.1 ||| UInt8.ofNat (min idx (2 ^ how.pattern.2 - 1))) (rest : Bytes) :
    decodeField (first :: rest) = decodeLiteral first how.pattern.2 rest := by
  obtain ⟨-, hhigh, hcase⟩ := pattern_index how idx h h0 first hfirst
  show (if _ then _ else _ : Except _ _) = _
  rw [if_neg (not_not_intro hhigh)]
  obtain ⟨hn, htag⟩ | ⟨hn, htag, hlow⟩ := hcase
  · rw [if_pos htag, hn]
  · rw [if_neg htag, if_pos hlow, hn]

theorem names_differ : ∀ idx < kStaticTableSize, 15 ≤ idx →
    (tableEntry ((idx - 15) % 16)).1 ≠ (tableEntry idx).1 := by decide

theorem second_byte {idx : Nat} (h : idx < kStaticTableSize) :
    (UInt8.ofNat (idx - 15)).toNat = idx - 15 := by
  have hsize : kStaticTableSize = 62 := rfl
  exact Varint.last_group (by omega)

/-- What is left of `c :: rfcString value` after an index was read from it: either the value whole, with the name
that `c` gives, or a part of the value. -/
theorem decodeInteger_second {c : UInt8} {v : Nat} {value rest : Bytes} (h : value.length < 2 ^ 32)
    (hint : decodeInteger 4 (c :: rfcString value) = .ok (v, rest)) (hv : v < kStaticTableSize) :
    v = c.toNat % 16 ∧ rest = rfcString value ∨ rest <:+ value := by
  have hsize : kStaticTableSize = 62 := rfl
  change (if _ then _ else _ : Reader Nat) (rfcString value) = _ at hint
  split at hint
  next =>
    obtain ⟨rfl, rfl⟩ := Prod.mk.inj (Except.ok.inj hint)
    exact .inl ⟨rfl, rfl⟩
  next hc =>
    right
    rw [rfcString, rfcInteger_zero] at hint
    unfold encodeInteger at hint
    dsimp only at hint
    by_cases hs : value.length < 2 ^ 7 - 1
    · rw [if_pos hs] at hint
      change decodeGroups _ 0 (_ :: value) = _ at hint
      rw [decodeGroups, if_neg (by decide)] at hint
      dsimp only at hint
      rw [if_pos ((high_bit _).mpr (by rw [Varint.last_group (by omega)]; omega))] at hint
      obtain ⟨-, rfl⟩ := Prod.mk.inj (Except.ok.inj hint)
      exact List.suffix_refl _
    · rw [if_neg hs] at hint
      change decodeGroups _ 0 (_ :: _) = _ at hint
      rw [decodeGroups, if_neg (by decide)] at hint
      dsimp only at hint
      rw [if_pos (by decide)] at hint
      obtain ⟨rfl, -⟩ := Prod.mk.inj (Except.ok.inj hint)
      have hseven : (UInt8.ofNat (2 ^ 7 - 1)).toNat = 127 := by decide
      have hlt : c.toNat % 2 ^ 4 < 2 ^ 4 := Nat.mod_lt _ (by decide)
      rw [hseven] at hv
      omega

theorem encode_index (how : Indexing) (i : StaticIndex) (value : Bytes) :
    ∃ first, first = how.pattern.1 ||| UInt8.ofNat (min i.idx (2 ^ how.pattern.2 - 1)) ∧
      ((Representation.literal how (.index i) value).encode = first :: rfcString value ∨
        how.pattern.2 = 4 ∧ 15 ≤ i.idx ∧
          (Representation.literal how (.index i) value).encode =
            first :: UInt8.ofNat (i.idx - 15) :: rfcString value) := by
  refine ⟨_, rfl, ?_⟩
  have hle := i.le
  show rfcInteger _ _ i.idx ++ rfcString value = _ ∨ _ ∧ _ ∧ rfcInteger _ _ i.idx ++ rfcString value = _
  by_cases h : i.idx < 2 ^ how.pattern.2 - 1
  · left
    rw [rfcInteger, if_pos h, Nat.min_eq_left (Nat.le_of_lt h)]
    rfl
  · right
    have hn : how.pattern.2 = 4 := by
      cases how with
      | incremental => exact absurd (show i.idx < 2 ^ 6 - 1 by omega) h
      | without => rfl
      | never => rfl
    rw [hn] at h ⊢
    rw [rfcInteger, if_neg h, Nat.min_eq_right (by omega), Varint.groups_of_lt (by omega)]
    exact ⟨rfl, by omega, rfl⟩

theorem decode_index (how : Indexing) (i : StaticIndex) (value : Bytes) (h : value.length < 2 ^ 32) :
    decode (rfcEncode [.literal how (.index i) value]) ∅ ≠ some (true, denote [.literal how (.index i) value]) := by
  intro heq
  have hsize : kStaticTableSize = 62 := rfl
  have hle := i.le
  have hlt : i.idx < kStaticTableSize := by omega
  -- what the block denotes
  have hdenote : (denote [.literal how (.index i) value])[(tableEntry i.idx).1]? = some value := by
    show ((∅ : HeaderMap).insert (tableEntry i.idx).1 value)[(tableEntry i.idx).1]? = some value
    exact Std.ExtTreeMap.getElem?_insert_self
  obtain ⟨first, hfirst, hbytes⟩ := encode_index how i value
  obtain ⟨hname, -, -⟩ := pattern_index how i.idx hlt i.pos first hfirst
  obtain ⟨tail, htail, hcase⟩ : ∃ tail, rfcEncode [.literal how (.index i) value] = first :: tail ∧
      (tail = rfcString value ∨
        how.pattern.2 = 4 ∧ 15 ≤ i.idx ∧ tail = UInt8.ofNat (i.idx - 15) :: rfcString value) := by
    show ∃ tail, (Representation.literal how (.index i) value).encode ++ [] = _ ∧ _
    rw [List.append_nil]
    obtain hone | ⟨hn, h15, htwo⟩ := hbytes
    · exact ⟨_, hone, .inl rfl⟩
    · exact ⟨_, htwo, .inr ⟨hn, h15, rfl⟩⟩
  unfold decode at heq
  rw [htail, List.length_cons, decodeLoop, if_neg (List.cons_ne_nil _ _), decodeField_index hlt i.pos hfirst] at heq
  split at heq
  next kv rest hfield =>
    obtain ⟨name, mid, hdn, hrest⟩ := bind_ok hfield
    obtain ⟨v, last, hdv, hpure⟩ := bind_ok hrest
    obtain ⟨rfl, rfl⟩ := Prod.mk.inj (Except.ok.inj hpure)
    unfold decodeName at hdn
    rw [if_pos hname] at hdn
    obtain ⟨idx, mid', hint, hentry⟩ := bind_ok hdn
    split at hentry
    next => cases hentry
    next hidx =>
      obtain ⟨rfl, rfl⟩ := Prod.mk.inj (Except.ok.inj hentry)
      obtain rfl | ⟨hn, h15, rfl⟩ := hcase
      · have hmid := decodeInteger_rfcString (by cases how <;> decide) h hint
        exact misread hmid hdv heq hdenote
      · rw [hn] at hint
        obtain ⟨hval, rfl⟩ | hmid := decodeInteger_second h hint (by omega)
        · -- the value is read whole, under the name of another index
          have hread := parses_string value h []
          rw [List.append_nil, ← rfcString_eq h, hdv] at hread
          obtain ⟨rfl, rfl⟩ := Prod.mk.inj (Except.ok.inj hread)
          rw [decodeLoop_nil] at heq
          have hmap := (Prod.mk.inj (Option.some.inj heq)).2
          have hc := second_byte hlt
          rw [← hmap, Std.ExtTreeMap.getElem?_insert] at hdenote
          split at hdenote
          next hcmp =>
            have hnames : (tableEntry idx).1 = (tableEntry i.idx).1 := Std.compare_eq_iff_eq.mp hcmp
            rw [hval, hc] at hnames
            exact names_differ i.idx hlt h15 hnames
          next =>
            rw [Std.ExtTreeMap.getElem?_empty] at hdenote
            cases hdenote
        · exact misread hmid hdv heq hdenote
  next => cases heq
  next => cases (Prod.mk.inj (Option.some.inj heq)).1

/-! ## Top theorem -/

/-- **Round trip**: what is decoded is what was encoded. -/
theorem hpack_roundTrip (headers : HeaderMap)
    (h : ∀ name value : Bytes, headers[name]? = some value → name.length < 2 ^ 28 ∧ value.length < 2 ^ 28) :
    decode (encode headers) ∅ = some (true, headers) := by
  have hfields : ∀ kv ∈ headers.toList, encodeField kv ≠ [] ∧ Codec.Parses decodeField (encodeField kv) kv := by
    intro kv hkv
    have hlen := h kv.1 kv.2 (Std.ExtTreeMap.mem_toList_iff_getElem?_eq_some.mp hkv)
    exact ⟨encodeField_ne_nil kv, parses_encodeField kv (by omega) (by omega)⟩
  unfold decode encode
  rw [decodeLoop_fields (f := id) hfields _ (Nat.le_refl _)]
  exact congrArg (fun hs => some (true, hs)) (foldl_insert_toList headers)

/-- Nothing is lost on a header of each kind. -/
theorem hpack_roundTrip_sample :
    decode (encode ((∅ : HeaderMap).insert (lit ":method") (lit "GET") |>.insert (lit "x") (lit "y"))) ∅ =
      some (true, (∅ : HeaderMap).insert (lit ":method") (lit "GET") |>.insert (lit "x") (lit "y")) := by
  refine hpack_roundTrip _ fun name value h => ?_
  rw [Std.ExtTreeMap.getElem?_insert] at h
  split at h
  next hx =>
    obtain rfl := Std.compare_eq_iff_eq.mp hx
    obtain rfl := Option.some.inj h
    decide
  next =>
    rw [Std.ExtTreeMap.getElem?_insert] at h
    split at h
    next hm =>
      obtain rfl := Std.compare_eq_iff_eq.mp hm
      obtain rfl := Option.some.inj h
      decide
    next =>
      rw [Std.ExtTreeMap.getElem?_empty] at h
      cases h

/-- **Decoding of what others encode**: blocks whose literals give their names are read as the standard says, however
many representations there are; a literal with an indexed name, alone in its block, never is. -/
theorem decode_rfc (block : List Representation) :
    ((∀ r ∈ block, r.Plain) → decode (rfcEncode block) ∅ = some (true, denote block)) ∧
      ∀ how i value, block = [.literal how (.index i) value] → value.length < 2 ^ 32 →
        decode (rfcEncode block) ∅ ≠ some (true, denote block) := by
  refine ⟨fun h => decodeLoop_fields (fun r hr => parses_plain (h r hr)) _ (Nat.le_refl _) ∅, ?_⟩
  rintro how i value rfl hlength
  exact decode_index how i value hlength

theorem decode_rfc_sample :
    decode (rfcEncode [.indexed ⟨2, by decide, by decide⟩, .literal .never (.literal (lit "x")) (lit "y")]) ∅ =
      some (true, denote [.indexed ⟨2, by decide, by decide⟩, .literal .never (.literal (lit "x")) (lit "y")]) := by
  refine (decode_rfc _).1 fun r hr => ?_
  obtain rfl | hr := List.mem_cons.mp hr
  · trivial
  · obtain rfl := List.mem_singleton.mp hr
    exact ⟨by decide, by decide⟩

/-- `:authority` with the value `x`: the length is taken for the index and `x` for the length. -/
theorem decode_authority :
    decode (rfcEncode [.literal .incremental (.index ⟨1, by decide, by decide⟩) (lit "x")]) ∅ = some (false, ∅) ∧
      ¬∀ block, decode (rfcEncode block) ∅ = some (true, denote block) := by
  have hfalse : decode (rfcEncode [.literal .incremental (.index ⟨1, by decide, by decide⟩) (lit "x")]) ∅ =
      some (false, ∅) := rfl
  refine ⟨hfalse, fun hall => ?_⟩
  have htrue := hall [.literal .incremental (.index ⟨1, by decide, by decide⟩) (lit "x")]
  rw [hfalse] at htrue
  cases (Prod.mk.inj (Option.some.inj htrue)).1

end Http.Http2
