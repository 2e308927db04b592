import ZeroFrameworks.Kv.Resp.Accepted

/-!
# The position of the reader

`RespReader` moves a position over a buffer of `m_len` bytes.  Here every read is checked, `none` is one outside of
the buffer.  There is none, but the position itself is two bytes behind a number before anybody has seen them: a null
bulk string without its last byte leaves it behind the end.

    Cursor.parseValue data fuel pos = some (what parseValue makes of data.drop pos, counted from pos)   (parseValue_eq)
    no read outside, and a value of 1 to data.length bytes ↔ ¬NullCut data   (inside_iff)
-/

namespace Kv

/-- A result whose bytes are counted from the front of the buffer. -/
def ParseResult.shift (pos : Nat) : ParseResult → ParseResult
  | .ok v n => .ok v (pos + n)
  | r => r

namespace Cursor

/-! ## Algorithm -/

/-- `data[pos, pos + n)`. -/
def slice (data : Bytes) (pos n : Nat) : Option Bytes :=
  if pos + n ≤ data.length then some ((data.drop pos).take n) else none

/-- `find_crlf` from `p` on. -/
def findCrlf (data : Bytes) : Nat → Nat → Option (Option Nat)
  | 0, _ => some none
  | fuel + 1, p =>
    if data.length ≤ p + 1 then some none
    else do
      let c ← data[p]?
      if c = 13 then
        let d ← data[p + 1]?
        if d = 10 then some (some p) else findCrlf data fuel (p + 1)
      else findCrlf data fuel (p + 1)

def readLine (data : Bytes) (pos : Nat) : Option (Option (Bytes × Nat)) :=
  if data.length ≤ pos then some none
  else do
    match ← findCrlf data (data.length - pos) pos with
    | none => some none
    | some found =>
      let line ← slice data pos (found - pos)
      some (some (line, found + 2))

/-- The loop of `readInt64`. -/
def readDigits (data : Bytes) : Nat → Nat → Nat → Option (Option (Nat × Nat))
  | 0, p, val => some (some (val, p))
  | fuel + 1, p, val =>
    if data.length ≤ p then some (some (val, p))
    else do
      let d ← data[p]?
      if isDigit d then
        match accDigit val d with
        | none => some none
        | some val => readDigits data fuel (p + 1) val
      else some (some (val, p))

/-- `readInt64`: the number and the place behind it. -/
def readInt64 (data : Bytes) (p : Nat) : Option (Option (Int × Nat)) :=
  if data.length ≤ p then some none
  else do
    let c ← data[p]?
    let start := if c = 45 ∨ c = 43 then p + 1 else p
    if data.length ≤ start then some none
    else do
      let d ← data[start]?
      if isDigit d then
        match ← readDigits data (data.length - start) start 0 with
        | none => some none
        | some (val, numEnd) => some (some (if c = 45 then -(val : Int) else val, numEnd))
      else some none

/-- `p[0] == '\r' && p[1] == '\n'`. -/
def isCrlf (data : Bytes) (p : Nat) : Option Bool := do
  let c ← data[p]?
  if c = 13 then
    let d ← data[p + 1]?
    some (d == 10)
  else some false

/-- `isCrlf` behind a look at the end. -/
def endsInCrlf (data : Bytes) (p : Nat) : Option Bool :=
  if data.length ≤ p + 1 then some false else isCrlf data p

def parseBulk (data : Bytes) (pos : Nat) : Option ParseResult := do
  match ← readInt64 data pos with
  | none => some .error
  | some (len, numEnd) =>
    let ended ← endsInCrlf data numEnd
    if ended = false ∧ data.length ≤ numEnd then some .needMore
    else if len < 0 then some (.ok .nullBulk (numEnd + 2))
    else if data.length < numEnd + 2 + len.toNat + 2 then some .needMore
    else
      let s ← slice data (numEnd + 2) len.toNat
      let closed ← isCrlf data (numEnd + 2 + len.toNat)
      if closed then some (.ok (.bulk s) (numEnd + 2 + len.toNat + 2)) else some .error

def parseItems (parse : Nat → Option ParseResult) : Nat → Nat → Option ParseResult
  | 0, pos => some (.ok (.array []) pos)
  | count + 1, pos => do
    match ← parse pos with
    | .ok v pos =>
      match ← parseItems parse count pos with
      | .ok (.array vs) pos => some (.ok (.array (v :: vs)) pos)
      | .ok _ _ => some .error
      | .needMore => some .needMore
      | .error => some .error
    | .needMore => some .needMore
    | .error => some .error

def parseValue (data : Bytes) : Nat → Nat → Option ParseResult
  | 0, _ => some .needMore
  | fuel + 1, pos =>
    if data.length ≤ pos then some .needMore
    else do
      let c ← data[pos]?
      if c = 43 ∨ c = 45 then
        match ← readLine data (pos + 1) with
        | none => some .needMore
        | some (line, pos) => some (.ok (if c = 43 then .simple line else .error line) pos)
      else if c = 58 then
        match ← readInt64 data (pos + 1) with
        | none => some .error
        | some (val, numEnd) =>
          let ended ← endsInCrlf data numEnd
          if ended then some (.ok (.integer val) (numEnd + 2)) else some .needMore
      else if c = 36 then parseBulk data (pos + 1)
      else if c = 42 then
        match ← readInt64 data (pos + 1) with
        | none => some .error
        | some (count, numEnd) =>
          let ended ← endsInCrlf data numEnd
          if ended then
            if count < 0 then some .error else parseItems (parseValue data fuel) count.toNat (numEnd + 2)
          else some .needMore
      else some .error

def parseInline (data : Bytes) : Option ParseResult := do
  match ← readLine data 0 with
  | none => some .needMore
  | some (line, pos) =>
    if line.isEmpty then some .error
    else
      let words := (line.splitOnP isSpace).filter (· ≠ [])
      if words.isEmpty then some .error else some (.ok (.array (words.map .bulk)) pos)

def tryParse (data : Bytes) : Option ParseResult :=
  if 0 < data.length then do
    let c ← data[0]?
    if isRespPrefix c then parseValue data data.length 0 else parseInline data
  else parseValue data data.length 0

/-! ## Lemmas -/

variable {data : Bytes}

theorem at_end {p : Nat} (h : data.drop p = []) : data.length ≤ p := List.drop_eq_nil_iff.mp h

theorem at_byte {data rest : Bytes} {p : Nat} {c : UInt8} (h : data.drop p = c :: rest) :
    data[p]? = some c ∧ data.drop (p + 1) = rest ∧ data.length = p + 1 + rest.length := by
  have hlen := congrArg List.length h
  rw [List.length_drop, List.length_cons] at hlen
  refine ⟨?_, ?_, by omega⟩
  · rw [← List.head?_drop, h, List.head?_cons]
  · rw [← List.drop_drop, h, List.drop_succ_cons, List.drop_zero]

theorem slice_eq {p n : Nat} (h : n ≤ (data.drop p).length) (hp : p ≤ data.length) :
    slice data p n = some ((data.drop p).take n) := by
  rw [List.length_drop] at h
  rw [slice, if_pos (by omega)]

theorem findCrlf_eq (data : Bytes) {fuel p : Nat} (hf : data.length ≤ p + fuel) :
    findCrlf data fuel p = some ((Kv.findCrlf (data.drop p)).map (p + ·)) := by
  induction fuel generalizing p with
  | zero =>
    rw [List.drop_eq_nil_of_le (show data.length ≤ p from hf)]
    rfl
  | succ fuel ih =>
    have hnext := ih (p := p + 1) (by omega)
    rw [findCrlf]
    cases hd : data.drop p with
    | nil =>
      have hend := at_end hd
      rw [if_pos (by omega)]
      rfl
    | cons c rest =>
      obtain ⟨hc, hrest, hlen⟩ := at_byte hd
      rw [hrest] at hnext
      have hgo : (Kv.findCrlf rest).map (p + 1 + ·) = ((Kv.findCrlf rest).map (· + 1)).map (p + ·) := by
        rw [Option.map_map]
        congr 1
        funext i
        simp only [Function.comp_apply]
        omega
      cases hr : rest with
      | nil =>
        subst hr
        rw [if_pos (by simp only [List.length_nil] at hlen; omega)]
        simp [Kv.findCrlf]
      | cons d more =>
        obtain ⟨hd1, -, -⟩ := at_byte (hrest.trans hr)
        rw [if_neg (by rw [hr, List.length_cons] at hlen; omega)]
        simp only [hc, hd1, hnext, hgo, Option.bind_eq_bind, Option.bind_some]
        rw [← hr, Kv.findCrlf]
        by_cases h13 : c = 13
        · by_cases h10 : d = 10
          · simp [h13, h10, hr]
          · simp [h13, h10, hr]
        · simp [h13]

theorem readLine_eq (data : Bytes) {pos : Nat} (hp : pos ≤ data.length) :
    readLine data pos = some ((Kv.readLine (data.drop pos)).map fun r => (r.1, pos + r.2)) := by
  unfold readLine
  cases hd : data.drop pos with
  | nil =>
    rw [if_pos (at_end hd)]
    rfl
  | cons c rest =>
    obtain ⟨-, -, hlen⟩ := at_byte hd
    rw [if_neg (by omega), findCrlf_eq data (by omega), hd]
    cases hf : Kv.findCrlf (c :: rest) with
    | none => simp [Kv.readLine, hf]
    | some i =>
      obtain ⟨l, more, heq, rfl, -⟩ := findCrlf_sound hf
      have hle : l.length ≤ (data.drop pos).length := by
        rw [hd, heq, List.length_append, List.length_append]
        omega
      simp only [Option.map_some, Option.bind_eq_bind, Option.bind_some, Nat.add_sub_cancel_left, slice_eq hle hp, hd,
        Kv.readLine, hf, Nat.add_assoc]

theorem readDigits_eq (data : Bytes) {fuel p val : Nat} (hf : data.length ≤ p + fuel) :
    readDigits data fuel p val =
      some ((((data.drop p).takeWhile isDigit).foldlM accDigit val).map
        (·, p + ((data.drop p).takeWhile isDigit).length)) := by
  induction fuel generalizing p val with
  | zero =>
    rw [List.drop_eq_nil_of_le (show data.length ≤ p from hf)]
    rfl
  | succ fuel ih =>
    rw [readDigits]
    cases hd : data.drop p with
    | nil =>
      rw [if_pos (at_end hd)]
      rfl
    | cons c rest =>
      obtain ⟨hc, hrest, hlen⟩ := at_byte hd
      rw [if_neg (by omega)]
      simp only [hc, Option.bind_eq_bind, Option.bind_some]
      by_cases hdig : isDigit c = true
      · rw [if_pos hdig, List.takeWhile_cons_of_pos hdig, List.foldlM_cons]
        cases hacc : accDigit val c with
        | none => rfl
        | some v =>
          have hnext : readDigits data fuel (p + 1) v = _ := ih (by omega)
          rw [hrest] at hnext
          simp only [hnext, Option.bind_eq_bind, Option.bind_some, List.length_cons]
          congr 2
          funext w
          congr 1
          omega
      · rw [if_neg hdig, List.takeWhile_cons_of_neg hdig]
        rfl

theorem readInt64_eq (data : Bytes) (p : Nat) :
    readInt64 data p = some ((Kv.readInt64 (data.drop p)).map fun r => (r.1, p + r.2)) := by
  unfold readInt64
  cases hd : data.drop p with
  | nil =>
    rw [if_pos (at_end hd)]
    rfl
  | cons c body =>
    obtain ⟨hc, hbody, hlen⟩ := at_byte hd
    rw [if_neg (by omega)]
    simp only [hc, Option.bind_eq_bind, Option.bind_some]
    by_cases hsign : c = 45 ∨ c = 43
    · have hread : Kv.readInt64 (c :: body) =
          if (body.takeWhile isDigit).isEmpty then none
          else ((body.takeWhile isDigit).foldlM accDigit 0).map fun (val : Nat) =>
            (if c = 45 then -(val : Int) else val, 1 + (body.takeWhile isDigit).length) := by
        cases hf : (body.takeWhile isDigit).foldlM accDigit 0 <;> rcases hsign with rfl | rfl <;>
          simp [Kv.readInt64, hf]
      rw [hread, if_pos hsign]
      cases hb : body with
      | nil =>
        subst hb
        rw [if_pos (by simp only [List.length_nil] at hlen; omega)]
        rfl
      | cons d rest =>
        obtain ⟨hd1, -, -⟩ := at_byte (hbody.trans hb)
        rw [if_neg (by rw [hb, List.length_cons] at hlen; omega), ← hb]
        simp only [hd1, Option.bind_some]
        by_cases hdig : isDigit d = true
        · have hne : (body.takeWhile isDigit).isEmpty = false := by
            rw [hb, List.takeWhile_cons_of_pos hdig]
            rfl
          rw [if_pos hdig, readDigits_eq data (by omega), hbody, hne]
          cases (body.takeWhile isDigit).foldlM accDigit 0 with
          | none => rfl
          | some val => simp [Nat.add_assoc]
        · have hempty : (body.takeWhile isDigit).isEmpty = true := by
            rw [hb, List.takeWhile_cons_of_neg hdig]
            rfl
          rw [if_neg hdig, hempty]
          rfl
    · have hread : Kv.readInt64 (c :: body) =
          if ((c :: body).takeWhile isDigit).isEmpty then none
          else (((c :: body).takeWhile isDigit).foldlM accDigit 0).map fun (val : Nat) =>
            ((val : Int), ((c :: body).takeWhile isDigit).length) := by
        rw [not_or] at hsign
        cases hf : ((c :: body).takeWhile isDigit).foldlM accDigit 0 <;> simp [Kv.readInt64, hsign.1, hsign.2, hf]
      rw [hread, if_neg hsign, if_neg (by omega)]
      simp only [hc, Option.bind_some]
      have h45 : c ≠ 45 := fun he => hsign (.inl he)
      by_cases hdig : isDigit c = true
      · have hne : ((c :: body).takeWhile isDigit).isEmpty = false := by
          rw [List.takeWhile_cons_of_pos hdig]
          rfl
        rw [if_pos hdig, readDigits_eq data (by omega), hd, hne]
        cases ((c :: body).takeWhile isDigit).foldlM accDigit 0 with
        | none => rfl
        | some val => simp [h45]
      · have hempty : ((c :: body).takeWhile isDigit).isEmpty = true := by
          rw [List.takeWhile_cons_of_neg hdig]
          rfl
        rw [if_neg hdig, hempty]
        rfl

theorem isCrlf_eq {p : Nat} (h : p + 2 ≤ data.length) :
    isCrlf data p = some (decide ((data.drop p).take 2 = crlf)) := by
  cases hd : data.drop p with
  | nil =>
    have hend := at_end hd
    omega
  | cons c rest =>
    obtain ⟨hc, hrest, hlen⟩ := at_byte hd
    cases hr : rest with
    | nil =>
      rw [hr, List.length_nil] at hlen
      omega
    | cons d more =>
      obtain ⟨hd1, -, -⟩ := at_byte (hrest.trans hr)
      unfold isCrlf
      simp only [hc, hd1, Option.bind_eq_bind, Option.bind_some]
      by_cases h13 : c = 13
      · by_cases h10 : d = 10
        · simp [h13, h10, crlf]
        · simp [h13, h10, crlf]
      · simp [h13, crlf]

theorem endsInCrlf_eq (data : Bytes) (p : Nat) :
    endsInCrlf data p = some (decide ((data.drop p).take 2 = crlf)) := by
  unfold endsInCrlf
  by_cases h : data.length ≤ p + 1
  · have hshort : ¬(data.drop p).take 2 = crlf := by
      intro he
      have hlen := congrArg List.length he
      rw [List.length_take, List.length_drop] at hlen
      simp only [crlf, List.length_cons, List.length_nil] at hlen
      omega
    rw [if_pos h, decide_eq_false hshort]
  · rw [if_neg h, isCrlf_eq (by omega)]

theorem parseBulk_eq {pos : Nat} (hp : pos + 1 ≤ data.length) :
    parseBulk data (pos + 1) = some ((Kv.parseBulk (data.drop (pos + 1))).shift pos) := by
  unfold parseBulk Kv.parseBulk
  rw [readInt64_eq]
  cases hr : Kv.readInt64 (data.drop (pos + 1)) with
  | none => rfl
  | some r =>
    obtain ⟨len, k⟩ := r
    have hk : k ≤ (data.drop (pos + 1)).length := by
      obtain ⟨t, rest, heq, rfl, -⟩ := readInt64_sound hr
      rw [heq, List.length_append]
      omega
    have hlen : (data.drop (pos + 1)).length = data.length - (pos + 1) := List.length_drop
    simp only [Option.map_some, Option.bind_eq_bind, Option.bind_some, endsInCrlf_eq, decide_eq_false_iff_not,
      List.drop_drop]
    have hend : data.length ≤ pos + 1 + k ↔ (data.drop (pos + 1)).length ≤ k := by omega
    have hshort : data.length < pos + 1 + k + 2 + len.toNat + 2 ↔
        (data.drop (pos + 1)).length < k + 2 + len.toNat + 2 := by omega
    simp only [hend, hshort]
    split
    · rfl
    · split
      · simp only [ParseResult.shift]
        rw [Nat.add_assoc pos, Nat.add_assoc pos]
      · split
        · rfl
        next hfits =>
          rw [slice_eq (by rw [List.length_drop]; omega) (by omega), isCrlf_eq (by omega)]
          simp only [Option.bind_some, decide_eq_true_eq, Nat.add_assoc]
          split
          · simp only [ParseResult.shift]
          · rfl

theorem parseItems_eq {parse : Nat → Option ParseResult} {parse' : Bytes → ParseResult}
    (h : ∀ pos, parse pos = some ((parse' (data.drop pos)).shift pos)) (count pos : Nat) :
    parseItems parse count pos = some ((Kv.parseItems parse' count (data.drop pos)).shift pos) := by
  induction count generalizing pos with
  | zero => rfl
  | succ count ih =>
    unfold parseItems Kv.parseItems
    rw [h]
    cases parse' (data.drop pos) with
    | needMore => rfl
    | error => rfl
    | ok v n =>
      simp only [ParseResult.shift, Option.bind_eq_bind, Option.bind_some, ih, List.drop_drop]
      cases hi : Kv.parseItems parse' count (data.drop (pos + n)) with
      | needMore => rfl
      | error => rfl
      | ok w m =>
        obtain ⟨vs, rfl⟩ := parseItems_array hi
        simp only [Nat.add_assoc]

/-- The reader reads inside the buffer, and it reads what the suffix says. -/
theorem parseValue_eq (data : Bytes) (fuel pos : Nat) :
    parseValue data fuel pos = some ((Kv.parseValue fuel (data.drop pos)).shift pos) := by
  induction fuel generalizing pos with
  | zero => cases data.drop pos <;> rfl
  | succ fuel ih =>
    rw [parseValue]
    cases hd : data.drop pos with
    | nil =>
      rw [if_pos (at_end hd)]
      rfl
    | cons c body =>
      obtain ⟨hc, hbody, hlen⟩ := at_byte hd
      have hp : pos + 1 ≤ data.length := by omega
      rw [if_neg (by omega), Kv.parseValue]
      simp only [hc, Option.bind_eq_bind, Option.bind_some]
      split
      · rw [readLine_eq data hp, hbody]
        cases Kv.readLine body with
        | none => rfl
        | some r => simp only [Option.map_some, Option.bind_some, ParseResult.shift, Nat.add_assoc]
      · split
        · rw [readInt64_eq, hbody]
          cases Kv.readInt64 body with
          | none => rfl
          | some r =>
            simp only [Option.map_some, Option.bind_some, endsInCrlf_eq, decide_eq_true_eq]
            rw [← hbody, List.drop_drop]
            split
            · simp only [ParseResult.shift, Nat.add_assoc]
            · rfl
        · split
          · rw [parseBulk_eq hp, hbody]
          · split
            · rw [readInt64_eq, hbody]
              cases Kv.readInt64 body with
              | none => rfl
              | some r =>
                simp only [Option.map_some, Option.bind_some, endsInCrlf_eq, decide_eq_true_eq]
                rw [← hbody, List.drop_drop]
                split
                · split
                  · rfl
                  · rw [parseItems_eq ih, List.drop_drop]
                    simp only [Nat.add_assoc]
                    cases Kv.parseItems (Kv.parseValue fuel) r.1.toNat (data.drop (pos + (1 + (r.2 + 2)))) with
                    | needMore => rfl
                    | error => rfl
                    | ok v n => simp only [ParseResult.shift, Nat.add_assoc]
                · rfl
            · rfl

theorem parseInline_eq (data : Bytes) : parseInline data = some (Kv.parseInline data) := by
  unfold parseInline Kv.parseInline
  rw [readLine_eq data (Nat.zero_le _), List.drop_zero]
  cases Kv.readLine data with
  | none => rfl
  | some r =>
    simp only [Option.map_some, Option.bind_eq_bind, Option.bind_some, Nat.zero_add]
    split
    · rfl
    · split <;> rfl

theorem shift_zero (r : ParseResult) : r.shift 0 = r := by
  cases r with
  | ok v n => exact congrArg (ParseResult.ok v) (Nat.zero_add n)
  | needMore => rfl
  | error => rfl

theorem tryParse_eq (data : Bytes) : tryParse data = some (Kv.tryParse data) := by
  unfold tryParse Kv.tryParse
  cases data with
  | nil => rfl
  | cons c rest =>
    rw [if_pos (show 0 < (c :: rest).length from Nat.succ_pos _), parseValue_eq, parseInline_eq, shift_zero]
    simp only [List.getElem?_cons_zero, List.head?_cons, Option.bind_eq_bind, Option.bind_some, List.drop_zero]
    split <;> rfl

/-! ## Inside the buffer -/

/-- No byte outside of the buffer is read, and what is consumed is in it. -/
def Inside (data : Bytes) : Prop :=
  tryParse data ≠ none ∧ ∀ v n, tryParse data = some (.ok v n) → 1 ≤ n ∧ n ≤ data.length

theorem consumed_spec {v : RespValue} {n : Nat} (h : Kv.tryParse data = .ok v n) :
    1 ≤ n ∧ (n ≤ data.length ∨ NullCut data) := by
  rcases head_cases data with rfl | hhead | ⟨heq, hne, -⟩
  · cases h
  · rw [hhead.tryParse_eq] at h
    rcases parseValue_sound h with ⟨f, rest, rfl, rfl, hf⟩ | ⟨rfl, hcut⟩
    · rw [List.length_append]
      exact ⟨List.length_pos_iff.mpr hf.ne_nil, .inl (Nat.le_add_right _ _)⟩
    · exact ⟨Nat.succ_pos _, .inr hcut⟩
  · rw [heq] at h
    obtain ⟨l, rest, rfl, rfl, -⟩ := parseInline_sound h
    refine ⟨by omega, .inl ?_⟩
    simp only [List.length_append, crlf, List.length_cons, List.length_nil]
    omega

theorem inside_iff (data : Bytes) : Inside data ↔ ¬NullCut data := by
  constructor
  · rintro ⟨-, h⟩ hcut
    obtain ⟨v, hv⟩ := tryParse_nullCut hcut
    have hle := (h v _ (by rw [tryParse_eq, hv])).2
    omega
  · intro hcut
    refine ⟨by rw [tryParse_eq]; exact Option.some_ne_none _, fun v n h => ?_⟩
    rw [tryParse_eq] at h
    obtain ⟨hpos, hle⟩ := consumed_spec (Option.some.inj h)
    exact ⟨hpos, hle.resolve_right hcut⟩

end Cursor

end Kv
