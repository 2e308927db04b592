import ZeroFrameworks.Kv.Resp.Value

/-!
# RespReader

The reader looks at the bytes from its position to the end of the buffer, so each function
takes that suffix and says how many bytes it went past.  `parseValue` follows the nesting of
arrays with `fuel`; a buffer of `n` bytes nests less than `n` deep.

    tryParse (encode v ++ rest) = what `decoded v` says, (encode v).length bytes   (tryParse_decoded)
    tryParse (encode v ++ rest) = ok v (encode v).length     for every v that is `wire`
      (tryParse_encode)

`wire` names values whose encoding is right: no CR LF inside a line and no negative integer (see
`appendInt64`; `reread` is the number that comes back).
-/

namespace Kv

inductive ParseResult where
  | ok (v : RespValue) (consumed : Nat)
  | needMore
  | error
  deriving Repr

/-! ## Algorithm -/

/-- `find_crlf`: position of the first CR LF. -/
def findCrlf : Bytes → Option Nat
  | [] => none
  | c :: rest =>
    if c = 13 ∧ rest.head? = some 10 then some 0 else (findCrlf rest).map (· + 1)

/-- `readLine`: the line and the number of bytes up to and past its CR LF. -/
def readLine (inp : Bytes) : Option (Bytes × Nat) :=
  (findCrlf inp).map fun i => (inp.take i, i + 2)

/-- One round of the loop of `readInt64`, with its overflow check. -/
def accDigit (val : Nat) (d : UInt8) : Option Nat :=
  let digit := d.toNat - 48
  if (2 ^ 63 - 1 - digit) / 10 < val then none else some (val * 10 + digit)

/-- `readInt64`: the number and the bytes it takes, sign included. -/
def readInt64 (inp : Bytes) : Option (Int × Nat) :=
  let neg := inp.head? == some 45
  let signed := neg || inp.head? == some 43
  let digits := (if signed then inp.tail else inp).takeWhile isDigit
  if digits.isEmpty then none
  else (digits.foldlM accDigit 0).map fun val =>
    (if neg then -(val : Int) else val, (if signed then 1 else 0) + digits.length)

/-- `parseInline`: a line of words. -/
def parseInline (inp : Bytes) : ParseResult :=
  match readLine inp with
  | none => .needMore
  | some (line, n) =>
    if line.isEmpty then .error
    else
      let words := (line.splitOnP isSpace).filter (· ≠ [])
      if words.isEmpty then .error else .ok (.array (words.map .bulk)) n

/-- The item loop of an array, given the parser for one item. -/
def parseItems (parse : Bytes → ParseResult) : Nat → Bytes → ParseResult
  | 0, _ => .ok (.array []) 0
  | count + 1, inp =>
    match parse inp with
    | .ok v n =>
      match parseItems parse count (inp.drop n) with
      | .ok (.array vs) m => .ok (.array (v :: vs)) (n + m)
      | .ok _ _ => .error
      | .needMore => .needMore
      | .error => .error
    | .needMore => .needMore
    | .error => .error

/-- The `'$'` case, after the prefix.  The CR LF after the length is looked for but, unless the
buffer ends there, skipped unseen. -/
def parseBulk (body : Bytes) : ParseResult :=
  match readInt64 body with
  | none => .error
  | some (len, k) =>
    if ¬ ((body.drop k).take 2 = crlf) ∧ body.length ≤ k then .needMore
    else if len < 0 then .ok .nullBulk (1 + k + 2)
    else if body.length < k + 2 + len.toNat + 2 then .needMore
    else if (body.drop (k + 2 + len.toNat)).take 2 = crlf then
      .ok (.bulk ((body.drop (k + 2)).take len.toNat)) (1 + k + 2 + len.toNat + 2)
    else .error

/-- `parseValue`: dispatch on the prefix byte. -/
def parseValue : Nat → Bytes → ParseResult
  | _, [] => .needMore
  | 0, _ :: _ => .needMore
  | fuel + 1, c :: body =>
    if c = 43 ∨ c = 45 then
      match readLine body with
      | none => .needMore
      | some (line, n) => .ok (if c = 43 then .simple line else .error line) (1 + n)
    else if c = 58 then
      match readInt64 body with
      | none => .error
      | some (val, k) =>
        if (body.drop k).take 2 = crlf then .ok (.integer val) (1 + k + 2) else .needMore
    else if c = 36 then parseBulk body
    else if c = 42 then
      match readInt64 body with
      | none => .error
      | some (count, k) =>
        if (body.drop k).take 2 = crlf then
          if count < 0 then .error
          else
            match parseItems (parseValue fuel) count.toNat (body.drop (k + 2)) with
            | .ok v n => .ok v (1 + k + 2 + n)
            | .needMore => .needMore
            | .error => .error
        else .needMore
    else .error

def isRespPrefix (c : UInt8) : Bool := c == 42 || c == 36 || c == 43 || c == 45 || c == 58

/-- `RespReader::tryParse`. -/
def tryParse (data : Bytes) : ParseResult :=
  match data.head? with
  | some c => if isRespPrefix c then parseValue data.length data else parseInline data
  | none => .needMore

/-! ## Values the encoder writes correctly -/

mutual

/-- The encoding of `v` is RESP for `v`. -/
def wire : RespValue → Bool
  | .simple s | .error s => (findCrlf s).isNone
  | .integer n => decide (0 ≤ n) && decide (n < 2 ^ 63)
  | .bulk s => decide (s.length < 2 ^ 63)
  | .nullBulk => true
  | .array xs => decide (xs.length < 2 ^ 63) && wireItems xs
  | .null => false

def wireItems : List RespValue → Bool
  | [] => true
  | x :: xs => wire x && wireItems xs

end

mutual

/-- Nesting depth, the fuel `parseValue` needs. -/
def depth : RespValue → Nat
  | .array xs => depthItems xs + 1
  | _ => 1

def depthItems : List RespValue → Nat
  | [] => 0
  | x :: xs => max (depth x) (depthItems xs)

end

/-! ## What comes back of an encoding -/

mutual

/-- The values the format is for: no CR LF inside a line, numbers of 64 bits. -/
def sendable : RespValue → Bool
  | .simple s | .error s => (findCrlf s).isNone
  | .integer n => decide (-(2 ^ 63) ≤ n) && decide (n < 2 ^ 63)
  | .bulk s => decide (s.length < 2 ^ 63)
  | .nullBulk | .null => true
  | .array xs => decide (xs.length < 2 ^ 63) && sendableItems xs

def sendableItems : List RespValue → Bool
  | [] => true
  | x :: xs => sendable x && sendableItems xs

end

/-- The number that the text of `appendInt64` reads as; `none` where it is no number. -/
def reread (n : Int) : Option Int :=
  if 0 ≤ n ∨ n.tmod 10 = 0 then some n else if -10 < n then none else some (n + 10)

mutual

/-- The value that an encoding reads as; `none` where it is an error. -/
def decoded : RespValue → Option RespValue
  | .integer n => (reread n).map .integer
  | .array xs => (decodedItems xs).map .array
  | .null => some .nullBulk
  | v => some v

def decodedItems : List RespValue → Option (List RespValue)
  | [] => some []
  | x :: xs => (decoded x).bind fun y => (decodedItems xs).map (y :: ·)

end

/-- A value that was read, or the error. -/
def ParseResult.of (v : Option RespValue) (consumed : Nat) : ParseResult :=
  v.elim .error fun v => .ok v consumed

/-! ## Lemmas -/

theorem findCrlf_append (s rest : Bytes) (h : findCrlf s = none) :
    findCrlf (s ++ 13 :: 10 :: rest) = some s.length := by
  induction s with
  | nil => simp [findCrlf]
  | cons c s ih =>
    unfold findCrlf at h
    split at h
    · cases h
    next hc =>
      have hs : findCrlf s = none := by simpa using h
      rw [List.cons_append]
      unfold findCrlf
      rw [ih hs, if_neg]
      · rfl
      · rintro ⟨rfl, h10⟩
        cases s with
        | nil => simp at h10
        | cons d s => exact hc ⟨rfl, by simpa using h10⟩

theorem readLine_append (s rest : Bytes) (h : findCrlf s = none) :
    readLine (s ++ crlf ++ rest) = some (s, s.length + 2) := by
  simp [readLine, crlf, findCrlf_append s rest h]

theorem le_foldl_digits (ds : Bytes) : ∀ k : Nat, k ≤ ds.foldl (fun n d => n * 10 + (d.toNat - 48)) k := by
  induction ds with
  | nil => intro k; exact Nat.le_refl k
  | cons d ds ih =>
    intro k
    have := ih (k * 10 + (d.toNat - 48))
    simp only [List.foldl_cons]
    omega

/-- The loop of `readInt64` computes the value of the digits while it fits. -/
theorem foldlM_accDigit (ds : Bytes) : ∀ m : Nat,
    ds.foldl (fun n d => n * 10 + (d.toNat - 48)) m < 2 ^ 63 →
    ds.foldlM accDigit m = some (ds.foldl (fun n d => n * 10 + (d.toNat - 48)) m) := by
  induction ds with
  | nil => intro m _; rfl
  | cons d ds ih =>
    intro m h
    simp only [List.foldl_cons] at h
    have hle := le_foldl_digits ds (m * 10 + (d.toNat - 48))
    have hacc : accDigit m d = some (m * 10 + (d.toNat - 48)) := by
      unfold accDigit
      rw [if_neg (by omega)]
    rw [List.foldlM_cons, hacc]
    exact ih _ h

/-- A number with its sign, up to the end or what is no digit. -/
theorem readInt64_digits (neg : Bool) (ds : Bytes) (hne : ds ≠ []) (hd : ∀ d ∈ ds, isDigit d = true)
    (hv : natOf ds < 2 ^ 63) (rest : Bytes) (hrest : rest.head? = none ∨ rest.head? = some 13) :
    readInt64 ((if neg then [45] else []) ++ ds ++ rest) =
      some (if neg then -(natOf ds : Int) else natOf ds, (if neg then 1 else 0) + ds.length) := by
  obtain ⟨d, ds', hds⟩ := List.exists_cons_of_ne_nil hne
  have hd0 : isDigit d = true := hd d (by rw [hds]; exact List.mem_cons_self)
  obtain ⟨h45, h43⟩ := isDigit_not_sign d hd0
  have hh : (ds ++ rest).head? = some d := by rw [hds]; rfl
  have e45 : (some d == some (45 : UInt8)) = false := by simpa using h45
  have e43 : (some d == some (43 : UInt8)) = false := by simpa using h43
  have htw : (ds ++ rest).takeWhile isDigit = ds := by
    rw [List.takeWhile_append_of_pos hd]
    cases rest with
    | nil => rw [List.takeWhile_nil, List.append_nil]
    | cons c rest =>
      obtain rfl : c = 13 := by simpa using hrest
      rw [List.takeWhile_cons_of_neg (by decide), List.append_nil]
  have hf : ds.foldlM accDigit 0 = some (natOf ds) := foldlM_accDigit ds 0 hv
  have hempty : ds.isEmpty = false := by simpa using hne
  cases neg with
  | false =>
    simp only [Bool.false_eq_true, if_false, List.nil_append, readInt64, hh, e45, e43, Bool.or_false,
      htw, hempty, hf]
    rfl
  | true =>
    simp [readInt64, htw, hempty, hf]

theorem natOf_snoc (ds : Bytes) (d : Nat) (hd : d < 10) :
    natOf (ds ++ [digit d]) = natOf ds * 10 + d := by
  simp [natOf, digit_toNat d hd]

theorem printNat_digits (n : Nat) (d : Nat) (hd : d < 10) :
    printNat n ++ [digit d] ≠ [] ∧ (∀ b ∈ printNat n ++ [digit d], isDigit b = true) ∧
      natOf (printNat n ++ [digit d]) = n * 10 + d := by
  obtain ⟨hne, hds, hv⟩ := printNat_spec n
  refine ⟨by simp, fun b hb => ?_, by rw [natOf_snoc _ d hd, hv]⟩
  rcases List.mem_append.mp hb with hb | hb
  · exact hds b hb
  · rw [List.mem_singleton.mp hb]
    exact digit_isDigit d hd

theorem tmod_ten {n : Int} (h : n < 0) :
    -10 < n.tmod 10 ∧ n.tmod 10 ≤ 0 ∧ 10 * n.tdiv 10 + n.tmod 10 = n := by
  have h1 := Int.mul_tdiv_add_tmod n 10
  have h2 : n.tmod 10 = -((-n).tmod 10) := by rw [Int.neg_tmod, Int.neg_neg]
  have h3 := Int.tmod_nonneg 10 (show (0 : Int) ≤ -n by omega)
  have h4 := Int.tmod_lt_of_pos (-n) (show (0 : Int) < 10 by decide)
  omega

/-- The text of a number is a sign and digits, but for the numbers from -9 to -1. -/
theorem appendInt64_text (n : Int) (hlo : -(2 ^ 63) ≤ n) (hhi : n < 2 ^ 63) :
    (∃ m neg ds, reread n = some m ∧ appendInt64 n = (if neg = true then [45] else []) ++ ds ∧ ds ≠ [] ∧
      (∀ d ∈ ds, isDigit d = true) ∧ natOf ds < 2 ^ 63 ∧
      m = if neg = true then -(natOf ds : Int) else natOf ds) ∨
    (reread n = none ∧ ∃ ds, appendInt64 n = 45 :: 47 :: ds) := by
  by_cases hn : 0 ≤ n
  · obtain ⟨k, rfl⟩ := Int.eq_ofNat_of_zero_le hn
    obtain ⟨hne, hd, hv⟩ := printNat_spec k
    refine .inl ⟨k, false, printNat k, if_pos (.inl hn), appendInt64_natCast k, hne, hd, by omega, ?_⟩
    simp [hv]
  · have hneg : n < 0 := by omega
    obtain ⟨h1, h2, h3⟩ := tmod_ten hneg
    unfold appendInt64 appendDigits reread
    rw [if_pos hneg]
    by_cases hr : n.tmod 10 = 0
    · -- a multiple of ten is printed as it is
      have hq : ¬ -(n.tdiv 10) < 0 := by omega
      obtain ⟨hne, hd, hv⟩ := printNat_digits (-(n.tdiv 10)).toNat (n.tmod 10).toNat (by omega)
      refine .inl ⟨n, true, _, if_pos (.inr hr), ?_, hne, hd, by omega, ?_⟩
      · rw [if_neg (by omega), if_neg hq]
        rfl
      · rw [if_pos rfl, hv]
        omega
    · have hlt : n.tmod 10 < 0 := by omega
      rw [if_pos hlt, if_neg (by omega)]
      by_cases hsmall : -10 < n
      · -- the quotient has become 1, and its negative is printed as the byte before '0'
        have hq : n.tdiv 10 = 0 := by omega
        refine .inr ⟨if_pos hsmall, [digit (-n.tmod 10).toNat], ?_⟩
        rw [hq]
        rfl
      · have hq : ¬ -(n.tdiv 10 + 1) < 0 := by omega
        obtain ⟨hne, hd, hv⟩ :=
          printNat_digits (-(n.tdiv 10 + 1)).toNat (-n.tmod 10).toNat (by omega)
        refine .inl ⟨n + 10, true, _, if_neg hsmall, ?_, hne, hd, by omega, ?_⟩
        · rw [if_neg hq]
          rfl
        · rw [if_pos rfl, hv]
          omega

theorem readInt64_append (n : Int) (hlo : -(2 ^ 63) ≤ n) (hhi : n < 2 ^ 63) (rest : Bytes)
    (hrest : rest.head? = some 13) :
    readInt64 (appendInt64 n ++ rest) = (reread n).map fun m => (m, (appendInt64 n).length) := by
  rcases appendInt64_text n hlo hhi with ⟨m, neg, ds, hm, htext, hne, hd, hv, rfl⟩ | ⟨hm, ds, htext⟩
  · rw [hm, htext, readInt64_digits neg ds hne hd hv rest (.inr hrest)]
    cases neg <;> simp [Nat.add_comm]
  · rw [hm, htext]
    rfl

theorem readInt64_length (n : Nat) (hn : n < 2 ^ 63) (rest : Bytes) (hrest : rest.head? = some 13) :
    readInt64 (printNat n ++ rest) = some ((n : Int), (printNat n).length) := by
  have h := readInt64_append n (by omega) (by omega) rest hrest
  rw [appendInt64_natCast, reread, if_pos (.inl (by omega))] at h
  exact h

theorem drop_printNat (n : Nat) (rest : Bytes) : (printNat n ++ rest).drop (printNat n).length = rest := by
  simp

theorem parseBulk_encode (s rest : Bytes) (hs : s.length < 2 ^ 63) :
    parseBulk (appendInt64 s.length ++ crlf ++ (s ++ crlf) ++ rest) =
      .ok (.bulk s) (encode (.bulk s)).length := by
  rw [appendInt64_natCast]
  have hr := readInt64_length s.length hs (crlf ++ (s ++ crlf) ++ rest) rfl
  have hassoc : printNat s.length ++ crlf ++ (s ++ crlf) ++ rest
      = printNat s.length ++ (crlf ++ (s ++ crlf) ++ rest) := by simp
  unfold parseBulk
  rw [hassoc, hr]
  simp only [drop_printNat, Int.toNat_natCast]
  have hneg : ¬ ((s.length : Int) < 0) := by omega
  have h1 : (crlf ++ (s ++ crlf) ++ rest).take 2 = crlf := rfl
  have h2 : (printNat s.length ++ (crlf ++ (s ++ crlf) ++ rest)).drop ((printNat s.length).length + 2)
      = s ++ crlf ++ rest := by
    rw [← List.drop_drop, drop_printNat]; rfl
  have h3 : (printNat s.length ++ (crlf ++ (s ++ crlf) ++ rest)).drop
      ((printNat s.length).length + 2 + s.length) = crlf ++ rest := by
    rw [← List.drop_drop, h2]; simp
  have h4 : ¬ (printNat s.length ++ (crlf ++ (s ++ crlf) ++ rest)).length
      < (printNat s.length).length + 2 + s.length + 2 := by
    simp [crlf]
    omega
  have h5 : (crlf ++ rest).take 2 = crlf := rfl
  rw [if_neg (fun h => h.1 h1), if_neg hneg, if_neg h4, h3, h2, if_pos h5]
  simp [encode, appendInt64_natCast, crlf]
  omega

mutual

/-- Reading an encoding, with anything behind it. -/
theorem parseValue_encode (v : RespValue) (fuel : Nat) (rest : Bytes) (hs : sendable v = true)
    (hf : depth v ≤ fuel) :
    parseValue fuel (encode v ++ rest) = .of (decoded v) (encode v).length := by
  cases fuel with
  | zero => cases v <;> simp [depth] at hf
  | succ fuel =>
    cases v with
    | simple s =>
      have hl := readLine_append s rest (by simpa [sendable] using hs)
      rw [show encode (.simple s) ++ rest = 43 :: (s ++ crlf ++ rest) from rfl]
      simp only [parseValue, hl]
      simp [encode, crlf, decoded, ParseResult.of]
      omega
    | error s =>
      have hl := readLine_append s rest (by simpa [sendable] using hs)
      rw [show encode (.error s) ++ rest = 45 :: (s ++ crlf ++ rest) from rfl]
      simp only [parseValue, hl]
      simp [encode, crlf, decoded, ParseResult.of]
      omega
    | integer n =>
      simp only [sendable, Bool.and_eq_true, decide_eq_true_eq] at hs
      have hr := readInt64_append n hs.1 hs.2 (crlf ++ rest) rfl
      simp only [encode, List.cons_append, List.append_assoc, parseValue, hr, decoded]
      cases reread n with
      | none => rfl
      | some m =>
        simp [crlf, ParseResult.of]
        omega
    | bulk s =>
      have hb := parseBulk_encode s rest (by simpa [sendable] using hs)
      simp only [encode, List.cons_append, parseValue]
      simpa [encode, decoded, ParseResult.of] using hb
    | nullBulk => rfl
    | null => rfl
    | array xs =>
      simp only [sendable, Bool.and_eq_true, decide_eq_true_eq] at hs
      simp only [depth, Nat.add_le_add_iff_right] at hf
      have hr := readInt64_length xs.length hs.1 (crlf ++ (encodeItems xs ++ rest)) rfl
      have hi := parseItems_encode xs fuel rest hs.2 hf
      have hd : (printNat xs.length ++ (crlf ++ (encodeItems xs ++ rest))).drop
          ((printNat xs.length).length + 2) = encodeItems xs ++ rest := by
        rw [← List.drop_drop, drop_printNat]; rfl
      have hneg : ¬ ((xs.length : Int) < 0) := by omega
      simp only [encode, appendInt64_natCast, List.cons_append, List.append_assoc, parseValue, hr,
        drop_printNat, hd, Int.toNat_natCast, if_neg hneg, hi, decoded]
      cases decodedItems xs with
      | none => rfl
      | some ys =>
        simp [crlf, ParseResult.of]
        omega

theorem parseItems_encode (xs : List RespValue) (fuel : Nat) (rest : Bytes)
    (hs : sendableItems xs = true) (hf : depthItems xs ≤ fuel) :
    parseItems (parseValue fuel) xs.length (encodeItems xs ++ rest) =
      .of ((decodedItems xs).map .array) (encodeItems xs).length := by
  cases xs with
  | nil => rfl
  | cons x xs =>
    simp only [sendableItems, Bool.and_eq_true] at hs
    simp only [depthItems, Nat.max_le] at hf
    have hx := parseValue_encode x fuel (encodeItems xs ++ rest) hs.1 hf.1
    have hxs := parseItems_encode xs fuel rest hs.2 hf.2
    simp only [encodeItems, List.length_cons, parseItems, List.append_assoc, hx, decodedItems]
    cases decoded x with
    | none => rfl
    | some y =>
      simp only [ParseResult.of, Option.elim_some, List.drop_left, hxs, Option.bind_some]
      cases decodedItems xs with
      | none => rfl
      | some ys => simp

end

mutual

theorem decoded_of_wire (v : RespValue) (hw : wire v = true) :
    sendable v = true ∧ decoded v = some v := by
  cases v with
  | array xs =>
    simp only [wire, Bool.and_eq_true, decide_eq_true_eq] at hw
    obtain ⟨h1, h2⟩ := decodedItems_of_wire xs hw.2
    simp only [sendable, decoded, decide_eq_true hw.1, h1, h2, Bool.and_self, Option.map_some, and_self]
  | integer n =>
    simp only [wire, Bool.and_eq_true, decide_eq_true_eq] at hw
    refine ⟨?_, by simp [decoded, reread, hw.1]⟩
    simp only [sendable, Bool.and_eq_true, decide_eq_true_eq]
    omega
  | null => cases hw
  | _ => exact ⟨hw, rfl⟩

theorem decodedItems_of_wire (xs : List RespValue) (hw : wireItems xs = true) :
    sendableItems xs = true ∧ decodedItems xs = some xs := by
  cases xs with
  | nil => exact ⟨rfl, rfl⟩
  | cons x xs =>
    simp only [wireItems, Bool.and_eq_true] at hw
    obtain ⟨h1, h2⟩ := decoded_of_wire x hw.1
    obtain ⟨h3, h4⟩ := decodedItems_of_wire xs hw.2
    simp [sendableItems, decodedItems, h1, h2, h3, h4]

end

mutual

theorem depth_le_encode (v : RespValue) : depth v ≤ (encode v).length := by
  cases v with
  | array xs =>
    have := depthItems_le_encode xs
    simp only [depth, encode, List.length_cons, List.length_append]
    omega
  | _ => simp [depth, encode, lit_nullBulk]

theorem depthItems_le_encode (xs : List RespValue) : depthItems xs ≤ (encodeItems xs).length := by
  cases xs with
  | nil => simp [depthItems]
  | cons x xs =>
    have h1 := depth_le_encode x
    have h2 := depthItems_le_encode xs
    simp only [depthItems, encodeItems, List.length_append]
    omega

end

theorem encode_prefix (v : RespValue) (rest : Bytes) :
    ∃ c, (encode v ++ rest).head? = some c ∧ isRespPrefix c = true := by
  cases v <;> simp [encode, lit_nullBulk, isRespPrefix]

/-! ## Top theorem -/

theorem tryParse_decoded (v : RespValue) (rest : Bytes) (hs : sendable v = true) :
    tryParse (encode v ++ rest) = .of (decoded v) (encode v).length := by
  obtain ⟨c, hc, hp⟩ := encode_prefix v rest
  unfold tryParse
  rw [hc]
  simp only [hp, if_true]
  refine parseValue_encode v _ rest hs ?_
  have := depth_le_encode v
  simp only [List.length_append]
  omega

theorem tryParse_encode (v : RespValue) (rest : Bytes) (hw : wire v = true) :
    tryParse (encode v ++ rest) = .ok v (encode v).length := by
  obtain ⟨hs, hd⟩ := decoded_of_wire v hw
  rw [tryParse_decoded v rest hs, hd]
  rfl

end Kv
