import ZeroFrameworks.Kv.Resp.Reader

/-!
# What the reader takes for a value

A grammar of values, with a condition on the two bytes behind the length of a bulk string.  `WellFormed` asks for CR
LF there.  The reader does not look, so it takes `Loose` values, and at the end of its buffer it takes a null bulk
string that lacks its last byte (`NullCut`).

    parseValue data = ok of n bytes ↔ a loose value of n bytes in front, or NullCut data, n = data.length + 1
      (parseValue_sound, parseValue_loose, parseValue_nullCut)
-/

namespace Kv

/-! ## Specification -/

/-- The text of a number, of 63 bits and a sign. -/
def IsNumber (t : Bytes) (n : Int) : Prop :=
  ∃ ds, ds ≠ [] ∧ (∀ d ∈ ds, isDigit d = true) ∧ natOf ds < 2 ^ 63 ∧
    ((t = ds ∨ t = 43 :: ds) ∧ n = natOf ds ∨ t = 45 :: ds ∧ n = -natOf ds)

/-- What follows a number. -/
def NoDigit (rest : Bytes) : Prop := ∀ c, rest.head? = some c → isDigit c = false

/-- A value; `sep` is what the two bytes behind the length of a bulk string are. -/
inductive Frame (sep : Bytes → Prop) : Bytes → Prop where
  | line {c : UInt8} {l : Bytes} (hc : c = 43 ∨ c = 45) (hl : findCrlf l = none) : Frame sep (c :: (l ++ crlf))
  | integer {t : Bytes} {n : Int} (ht : IsNumber t n) : Frame sep (58 :: (t ++ crlf))
  | null {t sp : Bytes} {n : Int} (ht : IsNumber t n) (hn : n < 0) (hsep : sep sp) (hsp : sp.length = 2)
      (hd : NoDigit sp) : Frame sep (36 :: (t ++ sp))
  | bulk {t sp s : Bytes} (ht : IsNumber t s.length) (hsep : sep sp) (hsp : sp.length = 2) (hd : NoDigit sp) :
      Frame sep (36 :: (t ++ (sp ++ (s ++ crlf))))
  | array {t : Bytes} {items : List Bytes} (ht : IsNumber t items.length) (hitems : ∀ x ∈ items, Frame sep x) :
      Frame sep (42 :: (t ++ (crlf ++ items.flatten)))

def WellFormed (f : Bytes) : Prop := Frame (· = crlf) f

def Loose (f : Bytes) : Prop := Frame (fun _ => True) f

/-- A value at the end of a buffer that ends in a null bulk string without its last byte. -/
inductive NullCut : Bytes → Prop where
  | null {t : Bytes} {n : Int} {c : UInt8} (ht : IsNumber t n) (hn : n < 0) (hc : isDigit c = false) :
      NullCut (36 :: (t ++ [c]))
  | array {t s : Bytes} {items : List Bytes} (ht : IsNumber t (items.length + 1 : Nat))
      (hitems : ∀ x ∈ items, Loose x) (hs : NullCut s) : NullCut (42 :: (t ++ (crlf ++ (items.flatten ++ s))))

/-! ## Numbers -/

theorem noDigit_crlf (rest : Bytes) : NoDigit (crlf ++ rest) := by
  intro c hc
  obtain rfl : 13 = c := by simpa [crlf] using hc
  rfl

theorem NoDigit.append {sp : Bytes} (h : NoDigit sp) (hne : sp ≠ []) (rest : Bytes) : NoDigit (sp ++ rest) := by
  intro c hc
  obtain ⟨b, sp, rfl⟩ := List.exists_cons_of_ne_nil hne
  exact h c hc

theorem foldlM_accDigit_some {ds : Bytes} {m v : Nat} (hm : m < 2 ^ 63) (h : ds.foldlM accDigit m = some v) :
    v = ds.foldl (fun n d => n * 10 + (d.toNat - 48)) m ∧ v < 2 ^ 63 := by
  induction ds generalizing m with
  | nil =>
    obtain rfl := Option.some.inj h
    exact ⟨rfl, hm⟩
  | cons d ds ih =>
    rw [List.foldlM_cons] at h
    obtain ⟨m', hacc, h⟩ := Option.bind_eq_some_iff.mp h
    unfold accDigit at hacc
    simp only at hacc
    split at hacc
    · cases hacc
    next hfit =>
      obtain rfl := Option.some.inj hacc
      have hd := d.toNat_lt
      have hlt : m * 10 + (d.toNat - 48) < 2 ^ 63 := by omega
      exact ih hlt h

theorem takeWhile_number {ds rest : Bytes} (hd : ∀ d ∈ ds, isDigit d = true) (hrest : NoDigit rest) :
    (ds ++ rest).takeWhile isDigit = ds := by
  rw [List.takeWhile_append_of_pos hd]
  cases rest with
  | nil => simp
  | cons c rest => simp [hrest c rfl]

theorem noDigit_dropWhile (inp : Bytes) : NoDigit (inp.dropWhile isDigit) := by
  intro c hc
  have hnot := List.head?_dropWhile_not isDigit inp
  rw [hc] at hnot
  simpa using hnot

theorem digits_sound {body : Bytes} {r : Int × Nat} {f : Int → Int × Nat}
    (h : (if (body.takeWhile isDigit).isEmpty then none
      else (do let val ← (body.takeWhile isDigit).foldlM accDigit 0; pure (val : Int)).map f) = some r) :
    ∃ ds rest, body = ds ++ rest ∧ body.takeWhile isDigit = ds ∧ ds ≠ [] ∧ (∀ d ∈ ds, isDigit d = true) ∧
      natOf ds < 2 ^ 63 ∧ NoDigit rest ∧ f (natOf ds) = r := by
  split at h
  · cases h
  next hne =>
    obtain ⟨_, hbind, hr⟩ := Option.map_eq_some_iff.mp h
    obtain ⟨val, hfold, hpure⟩ := Option.bind_eq_some_iff.mp hbind
    obtain rfl := Option.some.inj hpure
    obtain ⟨hval, hlt⟩ := foldlM_accDigit_some (by decide) hfold
    have hnat : val = natOf (body.takeWhile isDigit) := hval
    refine ⟨body.takeWhile isDigit, body.dropWhile isDigit, List.takeWhile_append_dropWhile.symm, rfl,
      fun he => hne (by rw [he]; rfl), fun d hd => List.mem_takeWhile_imp hd, ?_, noDigit_dropWhile body, ?_⟩
    · rwa [← hnat]
    · rwa [← hnat]

variable {inp : Bytes} {k : Nat}

theorem readInt64_sound {n : Int} (h : readInt64 inp = some (n, k)) :
    ∃ t rest, inp = t ++ rest ∧ t.length = k ∧ IsNumber t n ∧ NoDigit rest := by
  cases inp with
  | nil => cases h
  | cons c body =>
    by_cases h45 : c = 45
    · subst h45
      simp only [readInt64, List.head?_cons, beq_self_eq_true, Bool.true_or, if_true, List.tail_cons] at h
      obtain ⟨ds, rest, heq, htw, hne, hd, hlt, hrest, hr⟩ := digits_sound h
      obtain ⟨rfl, rfl⟩ := Prod.mk.inj hr
      refine ⟨45 :: ds, rest, by rw [heq, List.cons_append], ?_, ⟨ds, hne, hd, hlt, .inr ⟨rfl, rfl⟩⟩, hrest⟩
      rw [htw, List.length_cons, Nat.add_comm]
    · by_cases h43 : c = 43
      · subst h43
        have hneg : (some (43 : UInt8) == some 45) = false := by decide
        simp only [readInt64, List.head?_cons, hneg, beq_self_eq_true, Bool.or_true, if_true, List.tail_cons,
          Bool.false_eq_true, if_false] at h
        obtain ⟨ds, rest, heq, htw, hne, hd, hlt, hrest, hr⟩ := digits_sound h
        obtain ⟨rfl, rfl⟩ := Prod.mk.inj hr
        refine ⟨43 :: ds, rest, by rw [heq, List.cons_append], ?_, ⟨ds, hne, hd, hlt, .inl ⟨.inr rfl, rfl⟩⟩, hrest⟩
        rw [htw, List.length_cons, Nat.add_comm]
      · have hneg : (some c == some (45 : UInt8)) = false := by simpa using h45
        have hpos : (some c == some (43 : UInt8)) = false := by simpa using h43
        simp only [readInt64, List.head?_cons, hneg, hpos, Bool.or_false, Bool.false_eq_true, if_false] at h
        obtain ⟨ds, rest, heq, htw, hne, hd, hlt, hrest, hr⟩ := digits_sound h
        obtain ⟨rfl, rfl⟩ := Prod.mk.inj hr
        refine ⟨ds, rest, heq, ?_, ⟨ds, hne, hd, hlt, .inl ⟨.inl rfl, rfl⟩⟩, hrest⟩
        rw [htw, Nat.zero_add]

theorem readInt64_number {t : Bytes} {n : Int} (ht : IsNumber t n) {rest : Bytes} (hrest : NoDigit rest) :
    readInt64 (t ++ rest) = some (n, t.length) := by
  obtain ⟨ds, hne, hd, hlt, hsign⟩ := ht
  have htw := takeWhile_number hd hrest
  have hempty : ds.isEmpty = false := by simpa using hne
  have hf : ds.foldlM accDigit 0 = some (natOf ds) := foldlM_accDigit ds 0 hlt
  rcases hsign with ⟨rfl | rfl, rfl⟩ | ⟨rfl, rfl⟩
  · obtain ⟨d, ds', hds⟩ := List.exists_cons_of_ne_nil hne
    obtain ⟨h45, h43⟩ := isDigit_not_sign d (hd d (by rw [hds]; exact List.mem_cons_self))
    have hh : (t ++ rest).head? = some d := by rw [hds]; rfl
    simp [readInt64, hh, h45, h43, htw, hne, hf]
  · simp [readInt64, htw, hne, hf, Nat.add_comm]
  · simp [readInt64, htw, hne, hf, Nat.add_comm]

/-! ## Lines -/

theorem findCrlf_sound {s : Bytes} {i : Nat} (h : findCrlf s = some i) :
    ∃ l rest, s = l ++ crlf ++ rest ∧ l.length = i ∧ findCrlf l = none := by
  induction s generalizing i with
  | nil => cases h
  | cons c s ih =>
    unfold findCrlf at h
    split at h
    next hc =>
      obtain rfl := Option.some.inj h
      obtain ⟨rfl, h10⟩ := hc
      obtain ⟨d, rest, rfl⟩ := List.exists_cons_of_ne_nil (l := s) (fun he => by rw [he] at h10; cases h10)
      obtain rfl : d = 10 := Option.some.inj h10
      exact ⟨[], rest, rfl, rfl, rfl⟩
    next hc =>
      obtain ⟨j, hj, rfl⟩ := Option.map_eq_some_iff.mp h
      obtain ⟨l, rest, rfl, rfl, hl⟩ := ih hj
      refine ⟨c :: l, rest, rfl, rfl, ?_⟩
      unfold findCrlf
      rw [if_neg, hl]
      · rfl
      · rintro ⟨rfl, h10⟩
        cases l with
        | nil => cases h10
        | cons d l => exact hc ⟨rfl, h10⟩

theorem readLine_sound {inp line : Bytes} {n : Nat} (h : readLine inp = some (line, n)) :
    ∃ rest, inp = line ++ crlf ++ rest ∧ n = line.length + 2 ∧ findCrlf line = none := by
  obtain ⟨i, hi, heq⟩ := Option.map_eq_some_iff.mp h
  obtain ⟨l, rest, rfl, rfl, hl⟩ := findCrlf_sound hi
  obtain ⟨rfl, rfl⟩ := Prod.mk.inj heq
  have htake : (l ++ crlf ++ rest).take l.length = l := by rw [List.append_assoc, List.take_left]
  rw [htake]
  exact ⟨rest, rfl, rfl, hl⟩

/-! ## Values -/

variable {f : Bytes}

theorem Frame.ne_nil {sep : Bytes → Prop} (h : Frame sep f) : f ≠ [] := by
  cases h <;> exact List.cons_ne_nil _ _

theorem NullCut.ne_nil (h : NullCut f) : f ≠ [] := by
  cases h <;> exact List.cons_ne_nil _ _

theorem Frame.mono {sep sep' : Bytes → Prop} (himp : ∀ s, sep s → sep' s) (h : Frame sep f) :
    Frame sep' f := by
  induction h with
  | line hc hl => exact .line hc hl
  | integer ht => exact .integer ht
  | null ht hn hsep hsp hd => exact .null ht hn (himp _ hsep) hsp hd
  | bulk ht hsep hsp hd => exact .bulk ht (himp _ hsep) hsp hd
  | array ht hitems ih => exact .array ht ih

theorem WellFormed.loose (h : WellFormed f) : Loose f := h.mono fun _ _ => trivial

/-- A value in front of the bytes, or one that ends beyond them. -/
def Taken (data : Bytes) (n : Nat) : Prop :=
  (∃ f rest, data = f ++ rest ∧ f.length = n ∧ Loose f) ∨ (n = data.length + 1 ∧ NullCut data)

theorem take_crlf (rest : Bytes) : (crlf ++ rest).take 2 = crlf := rfl

theorem take_two_eq {rest : Bytes} (h : rest.take 2 = crlf) : ∃ rest', rest = crlf ++ rest' :=
  ⟨rest.drop 2, by rw [← h, List.take_append_drop]⟩

theorem bulk_front {t rest : Bytes} {len : Int} (ht : IsNumber t len) (hd : NoDigit rest) (hpos : 0 ≤ len)
    (hlen : 2 + len.toNat + 2 ≤ rest.length) (hcrlf : (rest.drop (2 + len.toNat)).take 2 = crlf) :
    ∃ f more, 36 :: (t ++ rest) = f ++ more ∧ f.length = 1 + t.length + 2 + len.toNat + 2 ∧ Loose f := by
  obtain ⟨more, hmore⟩ := take_two_eq hcrlf
  have hs : ((rest.drop 2).take len.toNat).length = len.toNat := by
    rw [List.length_take, List.length_drop]
    omega
  have hsp : (rest.take 2).length = 2 := by
    rw [List.length_take]
    omega
  have hrest : rest = rest.take 2 ++ ((rest.drop 2).take len.toNat ++ (crlf ++ more)) := by
    rw [← hmore, ← List.drop_drop, List.take_append_drop, List.take_append_drop]
  have ht' : IsNumber t ((rest.drop 2).take len.toNat).length := by
    rwa [hs, Int.toNat_of_nonneg hpos]
  have hd' : NoDigit (rest.take 2) := by
    intro c hc
    exact hd c (by rwa [List.head?_take, if_neg (by decide)] at hc)
  refine ⟨36 :: (t ++ (rest.take 2 ++ ((rest.drop 2).take len.toNat ++ crlf))), more, ?_, ?_, ?_⟩
  · conv => lhs; rw [hrest]
    simp
  · simp only [List.length_cons, List.length_append, hsp, hs, crlf, List.length_nil]
    omega
  · exact .bulk ht' trivial hsp hd'

/-! ## What each prefix does with its number -/

section
variable {t rest : Bytes} {n : Int} {fuel : Nat}

theorem parseInteger_eq (ht : IsNumber t n) (hd : NoDigit rest) :
    parseValue (fuel + 1) (58 :: (t ++ rest)) =
      if rest.take 2 = crlf then .ok (.integer n) (1 + t.length + 2) else .needMore := by
  have hr := readInt64_number ht hd
  rw [parseValue, if_neg (by decide), if_pos rfl, hr]
  simp only [List.drop_left]

theorem parseBulk_eq (ht : IsNumber t n) (hd : NoDigit rest) :
    parseValue (fuel + 1) (36 :: (t ++ rest)) =
      if rest = [] then .needMore
      else if n < 0 then .ok .nullBulk (1 + t.length + 2)
      else if rest.length < 2 + n.toNat + 2 then .needMore
      else if (rest.drop (2 + n.toNat)).take 2 = crlf then
        .ok (.bulk ((rest.drop 2).take n.toNat)) (1 + t.length + 2 + n.toNat + 2)
      else .error := by
  have hr := readInt64_number ht hd
  have hempty : (¬rest.take 2 = crlf ∧ (t ++ rest).length ≤ t.length) ↔ rest = [] := by
    rw [List.length_append]
    constructor
    · rintro ⟨-, hle⟩
      exact List.eq_nil_of_length_eq_zero (by omega)
    · rintro rfl
      exact ⟨by decide, by simp⟩
  have hshort : (t ++ rest).length < t.length + (2 + n.toNat) + 2 ↔ rest.length < 2 + n.toNat + 2 := by
    rw [List.length_append]
    omega
  have hdrop : ∀ k, (t ++ rest).drop (t.length + k) = rest.drop k := fun k => by rw [← List.drop_drop, List.drop_left]
  rw [parseValue, if_neg (by decide), if_neg (by decide), if_pos rfl, parseBulk, hr]
  simp only [List.drop_left, hempty, hshort, Nat.add_assoc t.length 2, hdrop]

theorem parseArray_eq (ht : IsNumber t n) (hd : NoDigit rest) :
    parseValue (fuel + 1) (42 :: (t ++ rest)) =
      if rest.take 2 = crlf then
        if n < 0 then .error
        else
          match parseItems (parseValue fuel) n.toNat (rest.drop 2) with
          | .ok v k => .ok v (1 + t.length + 2 + k)
          | .needMore => .needMore
          | .error => .error
      else .needMore := by
  have hr := readInt64_number ht hd
  have hdrop : (t ++ rest).drop (t.length + 2) = rest.drop 2 := by rw [← List.drop_drop, List.drop_left]
  rw [parseValue, if_neg (by decide), if_neg (by decide), if_neg (by decide), if_pos rfl, hr]
  cases hi : parseItems (parseValue fuel) n.toNat (rest.drop 2) <;> simp only [List.drop_left, hdrop, hi]

end

theorem header_cases (c : UInt8) (body : Bytes) :
    (c = 43 ∨ c = 45) ∨
      ((c = 58 ∨ c = 36 ∨ c = 42) ∧ ∃ t rest n, body = t ++ rest ∧ IsNumber t n ∧ NoDigit rest) ∨
      ∀ fuel, parseValue (fuel + 1) (c :: body) = .error := by
  by_cases hline : c = 43 ∨ c = 45
  · exact .inl hline
  · by_cases hnum : c = 58 ∨ c = 36 ∨ c = 42
    · cases hr : readInt64 body with
      | some r =>
        obtain ⟨t, rest, hbody, -, ht, hd⟩ := readInt64_sound hr
        exact .inr (.inl ⟨hnum, t, rest, r.1, hbody, ht, hd⟩)
      | none =>
        refine .inr (.inr fun fuel => ?_)
        rcases hnum with rfl | rfl | rfl
        · rw [parseValue, if_neg (by decide), if_pos rfl, hr]
        · rw [parseValue, if_neg (by decide), if_neg (by decide), if_pos rfl, parseBulk, hr]
        · rw [parseValue, if_neg (by decide), if_neg (by decide), if_neg (by decide), if_pos rfl, hr]
    · refine .inr (.inr fun fuel => ?_)
      rw [not_or, not_or] at hnum
      rw [parseValue, if_neg hline, if_neg hnum.1, if_neg hnum.2.1, if_neg hnum.2.2]

/-! ## Values that are read -/

/-- The items of an array: all in front of the bytes, or the last one ends beyond them. -/
def ItemsTaken (count : Nat) (inp : Bytes) (n : Nat) : Prop :=
  (∃ (items : List Bytes) (rest : Bytes), inp = items.flatten ++ rest ∧ items.length = count ∧ items.flatten.length = n ∧
      ∀ x ∈ items, Loose x) ∨
    (n = inp.length + 1 ∧ ∃ (items : List Bytes) (s : Bytes), inp = items.flatten ++ s ∧ items.length + 1 = count ∧
      (∀ x ∈ items, Loose x) ∧ NullCut s)

variable {parse : Bytes → ParseResult} {v : RespValue}

theorem parseItems_sound (hparse : ∀ inp v n, parse inp = .ok v n → Taken inp n)
    {count : Nat} {n : Nat} (h : parseItems parse count inp = .ok v n) :
    ItemsTaken count inp n := by
  induction count generalizing inp v n with
  | zero =>
    obtain ⟨-, rfl⟩ := ParseResult.ok.inj h
    exact .inl ⟨[], inp, rfl, rfl, rfl, fun x hx => by cases hx⟩
  | succ count ih =>
    unfold parseItems at h
    cases hp : parse inp with
    | needMore => rw [hp] at h; cases h
    | error => rw [hp] at h; cases h
    | ok x k =>
      rw [hp] at h
      simp only at h
      cases hi : parseItems parse count (inp.drop k) with
      | needMore => rw [hi] at h; cases h
      | error => rw [hi] at h; cases h
      | ok vs m =>
        rw [hi] at h
        cases vs with
        | array vs =>
          obtain ⟨-, rfl⟩ := ParseResult.ok.inj h
          have hitems := ih hi
          rcases hparse inp x k hp with ⟨f, rest, rfl, rfl, hf⟩ | ⟨rfl, hcut⟩
          · rw [List.drop_left] at hitems
            rcases hitems with ⟨items, more, rfl, rfl, rfl, hall⟩ | ⟨rfl, items, s, rfl, rfl, hall, hs⟩
            · refine .inl ⟨f :: items, more, by simp, rfl, by simp, ?_⟩
              exact List.forall_mem_cons.mpr ⟨hf, hall⟩
            · refine .inr ⟨by simp; omega, f :: items, s, by simp, rfl, ?_, hs⟩
              exact List.forall_mem_cons.mpr ⟨hf, hall⟩
          · -- behind a value that ends beyond the bytes there is nothing
            rw [List.drop_eq_nil_of_le (Nat.le_succ _)] at hitems
            rcases hitems with ⟨items, more, hnil, rfl, rfl, hall⟩ | ⟨-, items, s, hnil, -, -, hs⟩
            · have hitems : items = [] := by
                cases items with
                | nil => rfl
                | cons y items =>
                  have hy := (hall y List.mem_cons_self).ne_nil
                  simp [hy] at hnil
              subst hitems
              exact .inr ⟨rfl, [], inp, rfl, rfl, fun x hx => (by cases hx), hcut⟩
            · have hs' := hs.ne_nil
              simp [hs'] at hnil
        | _ => cases h

theorem array_taken {t more : Bytes} {count k : Nat} (ht : IsNumber t count) (h : ItemsTaken count more k) :
    Taken (42 :: (t ++ (crlf ++ more))) (1 + t.length + 2 + k) := by
  rcases h with ⟨items, rest, rfl, rfl, rfl, hall⟩ | ⟨rfl, items, s, rfl, rfl, hall, hs⟩
  · refine .inl ⟨42 :: (t ++ (crlf ++ items.flatten)), rest, by simp, ?_, .array ht hall⟩
    simp only [List.length_cons, List.length_append, crlf, List.length_nil]
    omega
  · refine .inr ⟨?_, .array ht hall hs⟩
    simp only [List.length_cons, List.length_append, crlf, List.length_nil]
    omega

theorem parseLine_eq {c : UInt8} (hc : c = 43 ∨ c = 45) (fuel : Nat) (body : Bytes) :
    parseValue (fuel + 1) (c :: body) =
      match readLine body with
      | none => .needMore
      | some (line, n) => .ok (if c = 43 then .simple line else .error line) (1 + n) := by
  cases hl : readLine body <;> rw [parseValue, if_pos hc, hl]

theorem parseValue_sound {fuel : Nat} {data : Bytes}
    (h : parseValue fuel data = .ok v k) : Taken data k := by
  induction fuel generalizing data v k with
  | zero => cases data <;> cases h
  | succ fuel ih =>
    cases data with
    | nil => cases h
    | cons c body =>
      rcases header_cases c body with hc | ⟨hc, t, rest, n, rfl, ht, hd⟩ | herr
      · rw [parseLine_eq hc] at h
        cases hl : readLine body with
        | none => rw [hl] at h; cases h
        | some r =>
          obtain ⟨rest, rfl, hlen, hnone⟩ := readLine_sound hl
          rw [hl] at h
          obtain ⟨-, rfl⟩ := ParseResult.ok.inj h
          refine .inl ⟨c :: (r.1 ++ crlf), rest, by simp, ?_, .line hc hnone⟩
          simp only [List.length_cons, List.length_append, crlf, List.length_nil]
          omega
      · rcases hc with rfl | rfl | rfl
        · rw [parseInteger_eq ht hd] at h
          split at h
          next hcrlf =>
            obtain ⟨-, rfl⟩ := ParseResult.ok.inj h
            obtain ⟨more, rfl⟩ := take_two_eq hcrlf
            refine .inl ⟨58 :: (t ++ crlf), more, by simp, ?_, .integer ht⟩
            simp only [List.length_cons, List.length_append, crlf, List.length_nil]
            omega
          next => cases h
        · rw [parseBulk_eq ht hd] at h
          cases rest with
          | nil => cases h
          | cons b rest =>
            rw [if_neg (List.cons_ne_nil b rest)] at h
            split at h
            next hneg =>
              obtain ⟨-, rfl⟩ := ParseResult.ok.inj h
              cases rest with
              | nil =>
                refine .inr ⟨?_, .null ht hneg (hd b rfl)⟩
                simp only [List.length_cons, List.length_append, List.length_nil]
                omega
              | cons d rest =>
                refine .inl ⟨36 :: (t ++ [b, d]), rest, by simp, by simp; omega, ?_⟩
                exact .null ht hneg trivial rfl fun e he => hd e he
            next hneg =>
              split at h
              · cases h
              next hlen =>
                split at h
                next hcrlf =>
                  obtain ⟨-, rfl⟩ := ParseResult.ok.inj h
                  exact .inl (bulk_front ht hd (by omega) (by omega) hcrlf)
                next => cases h
        · rw [parseArray_eq ht hd] at h
          split at h
          next hcrlf =>
            obtain ⟨more, rfl⟩ := take_two_eq hcrlf
            split at h
            · cases h
            next hpos =>
              obtain ⟨m, rfl⟩ := Int.eq_ofNat_of_zero_le (Int.not_lt.mp hpos)
              rw [show (crlf ++ more).drop 2 = more from rfl, Int.toNat_natCast] at h
              cases hi : parseItems (parseValue fuel) m more with
              | needMore => rw [hi] at h; cases h
              | error => rw [hi] at h; cases h
              | ok vs j =>
                rw [hi] at h
                obtain ⟨-, rfl⟩ := ParseResult.ok.inj h
                exact array_taken ht (parseItems_sound (fun inp v n => ih) hi)
          next => cases h
      · rw [herr] at h
        cases h

/-- A result without the value, of a parser that had gone past `k` bytes before. -/
def ParseResult.outcome (k : Nat) : ParseResult → ParseResult
  | .ok _ n => .ok .null (k + n)
  | r => r

theorem outcome_ok {r : ParseResult} {k n : Nat} (h : r.outcome k = .ok .null (k + n)) : ∃ v, r = .ok v n := by
  cases r with
  | ok v m =>
    obtain rfl : m = n := Nat.add_left_cancel (ParseResult.ok.inj h).2
    exact ⟨v, rfl⟩
  | needMore => cases h
  | error => cases h

theorem outcome_outcome (r : ParseResult) (j k : Nat) : (r.outcome k).outcome j = r.outcome (j + k) := by
  cases r with
  | ok v n => exact congrArg (ParseResult.ok .null) (Nat.add_assoc j k n).symm
  | needMore => rfl
  | error => rfl

theorem parseItems_array {count : Nat}
    (h : parseItems parse count inp = .ok v k) : ∃ vs, v = .array vs := by
  cases count with
  | zero => exact ⟨[], (ParseResult.ok.inj h).1.symm⟩
  | succ count =>
    unfold parseItems at h
    split at h
    · split at h
      · exact ⟨_, (ParseResult.ok.inj h).1.symm⟩
      all_goals cases h
    all_goals cases h

theorem parseItems_cons
    (h : parse inp = .ok v k) (count : Nat) :
    (parseItems parse (count + 1) inp).outcome 0 = (parseItems parse count (inp.drop k)).outcome k := by
  rw [parseItems, h]
  simp only
  cases hi : parseItems parse count (inp.drop k) with
  | needMore => rfl
  | error => rfl
  | ok w m =>
    obtain ⟨vs, rfl⟩ := parseItems_array hi
    exact congrArg (ParseResult.ok .null) (Nat.zero_add _)

variable {items : List Bytes}

theorem parseItems_append (count : Nat) (rest : Bytes)
    (hitems : ∀ x ∈ items, ∀ rest, ∃ v, parse (x ++ rest) = .ok v x.length) :
    (parseItems parse (items.length + count) (items.flatten ++ rest)).outcome 0 =
      (parseItems parse count rest).outcome items.flatten.length := by
  induction items with
  | nil => rw [List.length_nil, Nat.zero_add, List.flatten_nil, List.nil_append, List.length_nil]
  | cons x items ih =>
    obtain ⟨v, hv⟩ := hitems x List.mem_cons_self (items.flatten ++ rest)
    have hnext := ih fun y hy => hitems y (List.mem_cons_of_mem x hy)
    have hcount : (x :: items).length + count = items.length + count + 1 := by
      rw [List.length_cons]
      omega
    rw [hcount, List.flatten_cons, List.append_assoc, parseItems_cons hv, List.drop_left, List.length_append]
    have hshift := congrArg (ParseResult.outcome x.length) hnext
    rwa [outcome_outcome, outcome_outcome, Nat.add_zero] at hshift

theorem parseArray_append {t : Bytes} {fuel : Nat} (count : Nat) (rest : Bytes)
    (ht : IsNumber t (items.length + count : Nat))
    (hitems : ∀ x ∈ items, ∀ rest, ∃ v, parseValue fuel (x ++ rest) = .ok v x.length) :
    (parseValue (fuel + 1) (42 :: (t ++ (crlf ++ (items.flatten ++ rest))))).outcome 0 =
      (parseItems (parseValue fuel) count rest).outcome (1 + t.length + 2 + items.flatten.length) := by
  have hread := congrArg (ParseResult.outcome (1 + t.length + 2)) (parseItems_append count rest hitems)
  rw [outcome_outcome, outcome_outcome, Nat.add_zero] at hread
  rw [parseArray_eq ht (noDigit_crlf _), if_pos (take_crlf _), if_neg (by omega), Int.toNat_natCast,
    show (crlf ++ (items.flatten ++ rest)).drop 2 = items.flatten ++ rest from rfl, ← hread]
  cases parseItems (parseValue fuel) (items.length + count) (items.flatten ++ rest) with
  | ok v k => exact congrArg (ParseResult.ok .null) (Nat.zero_add _)
  | needMore => rfl
  | error => rfl

theorem length_le_flatten {x : Bytes} (h : x ∈ items) : x.length ≤ items.flatten.length :=
  (List.sublist_flatten_of_mem h).length_le

theorem parseValue_loose (h : Loose f) {fuel : Nat} (hf : f.length ≤ fuel) (rest : Bytes) :
    ∃ v, parseValue fuel (f ++ rest) = .ok v f.length := by
  induction h generalizing fuel rest with
  | line hc hl =>
    obtain ⟨fuel, rfl⟩ : ∃ k, fuel = k + 1 := ⟨fuel - 1, by simp at hf; omega⟩
    rw [List.cons_append, parseLine_eq hc, readLine_append _ rest hl]
    refine ⟨_, congrArg (ParseResult.ok _) ?_⟩
    simp only [List.length_cons, List.length_append, crlf, List.length_nil]
    omega
  | integer ht =>
    obtain ⟨fuel, rfl⟩ : ∃ k, fuel = k + 1 := ⟨fuel - 1, by simp at hf; omega⟩
    rw [List.cons_append, List.append_assoc, parseInteger_eq ht (noDigit_crlf rest), if_pos (take_crlf _)]
    refine ⟨_, congrArg (ParseResult.ok _) ?_⟩
    simp only [List.length_cons, List.length_append, crlf, List.length_nil]
    omega
  | @null t sp n ht hn hsep hsp hd =>
    obtain ⟨fuel, rfl⟩ : ∃ k, fuel = k + 1 := ⟨fuel - 1, by simp at hf; omega⟩
    have hne : sp ≠ [] := fun he => by simp [he] at hsp
    rw [List.cons_append, List.append_assoc, parseBulk_eq ht (hd.append hne rest), if_neg (by simp [hne]), if_pos hn]
    refine ⟨_, congrArg (ParseResult.ok _) ?_⟩
    simp only [List.length_cons, List.length_append, hsp]
    omega
  | @bulk t sp s ht hsep hsp hd =>
    obtain ⟨fuel, rfl⟩ : ∃ k, fuel = k + 1 := ⟨fuel - 1, by simp at hf; omega⟩
    have hne : sp ≠ [] := fun he => by simp [he] at hsp
    have hdrop : (sp ++ (s ++ (crlf ++ rest))).drop (2 + s.length) = crlf ++ rest := by
      rw [← List.drop_drop, ← hsp, List.drop_left, List.drop_left]
    rw [List.cons_append, List.append_assoc, List.append_assoc, List.append_assoc,
      parseBulk_eq ht (hd.append hne _), if_neg (by simp [hne]), if_neg (by omega), Int.toNat_natCast, if_neg, hdrop,
      if_pos (take_crlf _)]
    · refine ⟨_, congrArg (ParseResult.ok _) ?_⟩
      simp only [List.length_cons, List.length_append, hsp, crlf, List.length_nil]
      omega
    · simp only [List.length_append, hsp, crlf, List.length_cons, List.length_nil]
      omega
  | @array t items ht hitems ih =>
    obtain ⟨fuel, rfl⟩ : ∃ k, fuel = k + 1 := ⟨fuel - 1, by simp at hf; omega⟩
    simp only [List.length_cons, List.length_append] at hf
    have hfit : ∀ x ∈ items, x.length ≤ fuel := fun x hx => by
      have hle := length_le_flatten hx
      omega
    have hread := parseArray_append 0 rest ht fun x hx => ih x hx (hfit x hx)
    rw [List.cons_append, List.append_assoc, List.append_assoc]
    refine outcome_ok (k := 0) (hread.trans (congrArg (ParseResult.ok .null) ?_))
    simp only [List.length_cons, List.length_append, crlf, List.length_nil]
    omega

/-- A value that lacks the last byte of a null bulk string is read as if it were there. -/
theorem parseValue_nullCut (h : NullCut f) {fuel : Nat} (hf : f.length ≤ fuel) :
    ∃ v, parseValue fuel f = .ok v (f.length + 1) := by
  induction h generalizing fuel with
  | @null t n c ht hn hc =>
    obtain ⟨fuel, rfl⟩ : ∃ k, fuel = k + 1 := ⟨fuel - 1, by simp at hf; omega⟩
    have hd : NoDigit [c] := by
      intro b hb
      obtain rfl := Option.some.inj hb
      exact hc
    rw [parseBulk_eq ht hd, if_neg (List.cons_ne_nil c []), if_pos hn]
    refine ⟨_, congrArg (ParseResult.ok _) ?_⟩
    simp only [List.length_cons, List.length_append, List.length_nil]
    omega
  | @array t s items ht hitems hs ih =>
    obtain ⟨fuel, rfl⟩ : ∃ k, fuel = k + 1 := ⟨fuel - 1, by simp at hf; omega⟩
    simp only [List.length_cons, List.length_append] at hf
    obtain ⟨v, hv⟩ := ih (show s.length ≤ fuel by omega)
    have hfit : ∀ x ∈ items, x.length ≤ fuel := fun x hx => by
      have hle := length_le_flatten hx
      omega
    have hread := parseArray_append 1 s ht fun x hx => parseValue_loose (hitems x hx) (hfit x hx)
    have hlast : (parseItems (parseValue fuel) 1 s).outcome 0 = .ok .null (s.length + 1) := parseItems_cons hv 0
    obtain ⟨w, hw⟩ := outcome_ok (k := 0) (by rwa [Nat.zero_add])
    refine outcome_ok (k := 0) (hread.trans ?_)
    rw [hw]
    refine congrArg (ParseResult.ok .null) ?_
    simp only [List.length_cons, List.length_append, crlf, List.length_nil]
    omega

end Kv
