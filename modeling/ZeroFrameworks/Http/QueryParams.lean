import ZeroFrameworks.Http.Headers
import ZeroFrameworks.Util.UrlCodec

/-!
# Parameters in a query (`PARSE_PARAM`)

A pair goes from the last separator to the next; its name ends at the first `=` and is taken as it is, and its value
is decoded.

    UrlDecode undoes UrlEncode; a query of encoded pairs gives the map that it was made from
      ↔ every name is written as it is, without `=`   (query_exact_iff)
-/

namespace Http

open Kv (Bytes lit)
open Util.StringUtil (urlEncode urlDecode isUnreserved encodeByte)

/-! ## Algorithm -/

/-- The macro, for so many pairs.  `str.find(flag, pos)` starts at the `=`. -/
def paramLoop (trim : Bytes → Bytes) (flag : UInt8) : Nat → MapType → Bytes → MapType
  | 0, m, _ => m
  | turns + 1, m, str =>
    if 61 ∈ str then
      let key := str.takeWhile (· ≠ 61)
      let after := str.dropWhile (· ≠ 61)
      let value := (after.takeWhile (· ≠ flag)).tail
      let m := m.insert (trim key) (urlDecode true value)
      match after.dropWhile (· ≠ flag) with
      | [] => m
      | _ :: rest => paramLoop trim flag turns m rest
    else m

/-- Every pair has a character at least. -/
def parseParam (trim : Bytes → Bytes) (flag : UInt8) (str : Bytes) (m : MapType) : MapType :=
  paramLoop trim flag str.length m str

/-- What `initQueryParam` reads of a request. -/
structure ParamRequest where
  query : Bytes
  params : MapType
  parserParamFlag : Nat

def initQueryParam (r : ParamRequest) : ParamRequest :=
  if r.parserParamFlag &&& 1 ≠ 0 then r
  else { r with params := parseParam id 38 r.query r.params, parserParamFlag := r.parserParamFlag ||| 1 }

/-! ## Specification -/

/-- A finite map; its names differ in more than the case of letters. -/
structure Params where
  pairs : List (Bytes × Bytes)
  distinct : (pairs.map fun p => Kv.lower p.1).Nodup

def encodedPair (p : Bytes × Bytes) : Bytes := urlEncode true p.1 ++ 61 :: urlEncode true p.2

def queryString (ps : Params) : Bytes := List.intercalate [38] (ps.pairs.map encodedPair)

/-- The parameters of a fresh request are the pairs. -/
def Yields (ps : Params) : Prop :=
  ∀ p, p ∈ (initQueryParam ⟨queryString ps, .empty, 0⟩).params.toList ↔ p ∈ ps.pairs

/-- A name that is written as it is, and that does not end early. -/
def PlainName (name : Bytes) : Prop := ∀ c ∈ name, isUnreserved c = true ∧ c ≠ 61

/-! ## Lemmas -/

/-! ### The encoded text -/

theorem hexdigit_plain : ∀ n < 16, isUnreserved (Util.StringUtil.hexdigits.getD n 0) = true ∧
    Util.StringUtil.hexdigits.getD n 0 ≠ 61 := by decide

/-- A byte of the text is as it was; or a plus for a space; or it begins, or is in, an escape. -/
theorem mem_encodeByte {c b : UInt8} (h : b ∈ encodeByte true c) :
    isUnreserved b = true ∧ (b = 61 → c = 61) ∨ b = 43 ∧ c = 32 ∨ b = 37 ∧ isUnreserved c = false ∧ c ≠ 32 := by
  unfold encodeByte at h
  by_cases hc : isUnreserved c = true
  · rw [if_pos hc] at h
    obtain rfl := List.mem_singleton.mp h
    exact .inl ⟨hc, id⟩
  · rw [if_neg hc, Util.StringUtil.escape] at h
    split at h
    · next hspace =>
      obtain rfl := List.mem_singleton.mp h
      exact .inr (.inl ⟨rfl, hspace.1⟩)
    · next hspace =>
      have hlt := c.toNat_lt
      have hhex : ∀ n < 16, isUnreserved (Util.StringUtil.hexdigits.getD n 0) = true ∧
          (Util.StringUtil.hexdigits.getD n 0 = 61 → c = 61) :=
        fun n hn => ⟨(hexdigit_plain n hn).1, fun h => absurd h (hexdigit_plain n hn).2⟩
      rcases List.mem_cons.mp h with rfl | h
      · exact .inr (.inr ⟨rfl, by simpa using hc, fun h => hspace ⟨h, rfl⟩⟩)
      · rcases List.mem_cons.mp h with rfl | h
        · exact .inl (hhex _ (by omega))
        · obtain rfl := List.mem_singleton.mp h
          exact .inl (hhex _ (by omega))

theorem mem_urlEncode {s : Bytes} {b : UInt8} (h : b ∈ urlEncode true s) : ∃ c ∈ s,
    isUnreserved b = true ∧ (b = 61 → c = 61) ∨ b = 43 ∧ c = 32 ∨ b = 37 ∧ isUnreserved c = false ∧ c ≠ 32 := by
  rw [Util.StringUtil.urlEncode_eq] at h
  obtain ⟨c, hc, hb⟩ := List.mem_flatMap.mp h
  exact ⟨c, hc, mem_encodeByte hb⟩

theorem ampersand_notMem (s : Bytes) : 38 ∉ urlEncode true s := by
  intro h
  obtain ⟨c, -, ⟨hb, -⟩ | ⟨hb, -⟩ | ⟨hb, -⟩⟩ := mem_urlEncode h
  · cases hb
  · cases hb
  · cases hb

theorem encode_plain {name : Bytes} (h : PlainName name) : urlEncode true name = name := by
  rw [Util.StringUtil.urlEncode_eq]
  induction name with
  | nil => rfl
  | cons c name ih =>
    have hrest : PlainName name := fun b hb => h b (List.mem_cons_of_mem _ hb)
    rw [List.flatMap_cons, ih hrest, encodeByte, if_pos (h c List.mem_cons_self).1, List.singleton_append]

theorem length_encode (s : Bytes) : s.length ≤ (urlEncode true s).length ∧
    (37 ∈ s → s.length < (urlEncode true s).length) := by
  rw [Util.StringUtil.urlEncode_eq]
  induction s with
  | nil => exact ⟨Nat.le_refl _, fun h => by cases h⟩
  | cons c s ih =>
    rw [List.flatMap_cons, List.length_append, List.length_cons]
    have hpos : 1 ≤ (encodeByte true c).length := by
      unfold encodeByte Util.StringUtil.escape
      split
      · exact Nat.le_refl 1
      · split
        · exact Nat.le_refl 1
        · exact Nat.le_add_left 1 2
    refine ⟨by omega, fun h => ?_⟩
    rcases List.mem_cons.mp h with rfl | h
    · have hthree : (encodeByte true 37).length = 3 := by decide
      omega
    · have := ih.2 h
      omega

/-! ### The pairs of a query -/

theorem ne_of_notMem {c : UInt8} {k : Bytes} (h : c ∉ k) : ∀ b ∈ k, decide (b ≠ c) = true :=
  fun b hb => decide_eq_true fun hc : b = c => h (hc ▸ hb)

theorem takeWhile_ne {c : UInt8} {k v : Bytes} (h : c ∉ k) : (k ++ c :: v).takeWhile (· ≠ c) = k := by
  rw [List.takeWhile_append_of_pos (ne_of_notMem h), List.takeWhile_cons]
  simp

theorem dropWhile_ne {c : UInt8} {k v : Bytes} (h : c ∉ k) : (k ++ c :: v).dropWhile (· ≠ c) = c :: v := by
  rw [List.dropWhile_append_of_pos (ne_of_notMem h), List.dropWhile_cons]
  simp

/-- What a pair adds. -/
def addPair (m : MapType) (item : Bytes) : MapType :=
  m.insert (item.takeWhile (· ≠ 61)) (urlDecode true (item.dropWhile (· ≠ 61)).tail)

theorem paramLoop_items (items : List Bytes) (hitems : ∀ i ∈ items, 61 ∈ i ∧ 38 ∉ i) (turns : Nat)
    (hturns : items.length ≤ turns) (m : MapType) :
    paramLoop id 38 turns m (List.intercalate [38] items) = items.foldl addPair m := by
  induction items generalizing turns m with
  | nil =>
    cases turns with
    | zero => rfl
    | succ turns => rfl
  | cons item items ih =>
    obtain ⟨heq, hsep⟩ := hitems item List.mem_cons_self
    obtain ⟨k, v, rfl, hk⟩ := List.eq_append_cons_of_mem heq
    obtain ⟨turns, rfl⟩ := Nat.exists_eq_add_one_of_ne_zero (Nat.ne_of_gt (Nat.lt_of_lt_of_le (Nat.succ_pos _) hturns))
    have hv : 38 ∉ (61 :: v : Bytes) := fun h => hsep (List.mem_append_right _ h)
    have hadd : addPair m (k ++ 61 :: v) = m.insert k (urlDecode true v) := by
      rw [addPair, takeWhile_ne hk, dropWhile_ne hk]
      rfl
    rw [List.foldl_cons, hadd]
    cases items with
    | nil =>
      have hall : (61 :: v : Bytes).takeWhile (· ≠ 38) = 61 :: v ∧ (61 :: v : Bytes).dropWhile (· ≠ 38) = [] := by
        exact ⟨List.takeWhile_eq_self_iff.mpr (ne_of_notMem hv), List.dropWhile_eq_nil_iff.mpr (ne_of_notMem hv)⟩
      have hone : List.intercalate [38] [k ++ 61 :: v] = k ++ 61 :: v := by simp [List.intercalate]
      rw [hone, paramLoop, if_pos heq]
      dsimp only
      rw [takeWhile_ne hk, dropWhile_ne hk, hall.1, hall.2]
      rfl
    | cons next items =>
      have hmore : List.intercalate [38] ((k ++ 61 :: v) :: next :: items) =
          k ++ 61 :: (v ++ 38 :: List.intercalate [38] (next :: items)) := by
        simp [List.intercalate]
      rw [hmore, paramLoop, if_pos (List.mem_append_right _ List.mem_cons_self)]
      dsimp only
      rw [takeWhile_ne hk, dropWhile_ne hk, ← List.cons_append, takeWhile_ne hv, dropWhile_ne hv]
      exact ih (fun i hi => hitems i (List.mem_cons_of_mem _ hi)) turns (Nat.le_of_succ_le_succ hturns) _

variable {ps : Params}

theorem name_encodedPair (p : Bytes × Bytes) :
    (encodedPair p).takeWhile (· ≠ 61) = (urlEncode true p.1).takeWhile (· ≠ 61) := by
  unfold encodedPair
  by_cases h : 61 ∈ urlEncode true p.1
  · obtain ⟨k, v, hsplit, hk⟩ := List.eq_append_cons_of_mem h
    rw [hsplit, List.append_assoc, List.cons_append, takeWhile_ne hk, takeWhile_ne hk]
  · rw [takeWhile_ne h, List.takeWhile_eq_self_iff.mpr (ne_of_notMem h)]

theorem length_le_intercalate (items : List Bytes) (h : ∀ i ∈ items, i ≠ []) :
    items.length ≤ (List.intercalate [38] items).length := by
  induction items with
  | nil => exact Nat.le_refl 0
  | cons item items ih =>
    have hpos := List.length_pos_iff.mpr (h item List.mem_cons_self)
    have hrest := ih fun i hi => h i (List.mem_cons_of_mem _ hi)
    cases items with
    | nil =>
      have hone : List.intercalate [38] [item] = item := by simp [List.intercalate]
      rw [hone, List.length_singleton]
      exact hpos
    | cons next items =>
      have hmore : List.intercalate [38] (item :: next :: items) = item ++ 38 :: List.intercalate [38] (next :: items) := by
        simp [List.intercalate]
      rw [hmore, List.length_append, List.length_cons]
      simp only [List.length_cons] at hrest ⊢
      omega

theorem params_eq (ps : Params) :
    (initQueryParam ⟨queryString ps, .empty, 0⟩).params = (ps.pairs.map encodedPair).foldl addPair .empty := by
  have hitems : ∀ i ∈ ps.pairs.map encodedPair, 61 ∈ i ∧ 38 ∉ i := by
    intro i hi
    obtain ⟨p, -, rfl⟩ := List.mem_map.mp hi
    refine ⟨List.mem_append_right _ List.mem_cons_self, fun h => ?_⟩
    rcases List.mem_append.mp h with h | h
    · exact ampersand_notMem _ h
    · rcases List.mem_cons.mp h with h | h
      · cases h
      · exact ampersand_notMem _ h
  have hturns : (ps.pairs.map encodedPair).length ≤ (queryString ps).length :=
    length_le_intercalate _ fun i hi => List.ne_nil_of_mem (hitems i hi).1
  have hfresh : (initQueryParam ⟨queryString ps, .empty, 0⟩).params =
      parseParam id 38 (queryString ps) .empty := by
    unfold initQueryParam
    rw [if_neg (show ¬ (0 &&& 1 : Nat) ≠ 0 by decide)]
  rw [hfresh]
  exact paramLoop_items _ hitems _ hturns _

theorem foldl_name (items : List Bytes) (m : MapType) (e : Bytes × Bytes) (h : e ∈ (items.foldl addPair m).toList) :
    e ∈ m.toList ∨ ∃ i ∈ items, e.1 = i.takeWhile (· ≠ 61) := by
  induction items generalizing m with
  | nil => exact .inl h
  | cons item items ih =>
    rcases ih _ h with h | ⟨i, hi, hname⟩
    · rw [MapType.mem_toList, addPair, MapType.entries_insert] at h
      split at h
      · next hkey =>
        cases hold : m.entries[nameKey e.1]? with
        | none =>
          rw [hold] at h
          obtain rfl := Option.some.inj h
          exact .inr ⟨item, List.mem_cons_self, rfl⟩
        | some old =>
          rw [hold] at h
          exact .inl ((MapType.mem_toList m e).mpr (hold.trans h))
      · exact .inl ((MapType.mem_toList m e).mpr h)
    · exact .inr ⟨i, List.mem_cons_of_mem _ hi, hname⟩

theorem foldl_insert (pairs : List (Bytes × Bytes)) (m : MapType) (hnew : ∀ p ∈ pairs, m.entries[nameKey p.1]? = none)
    (hdistinct : (pairs.map fun p => nameKey p.1).Nodup) (e : Bytes × Bytes) :
    e ∈ (pairs.foldl (fun m p => m.insert p.1 p.2) m).toList ↔ e ∈ m.toList ∨ e ∈ pairs := by
  induction pairs generalizing m with
  | nil => simp
  | cons p pairs ih =>
    rw [List.map_cons, List.nodup_cons] at hdistinct
    have hother : ∀ q ∈ pairs, nameKey p.1 ≠ nameKey q.1 :=
      fun q hq h => hdistinct.1 (List.mem_map.mpr ⟨q, hq, h.symm⟩)
    rw [List.foldl_cons, ih _ (fun q hq => ?_) hdistinct.2, MapType.mem_toList, MapType.mem_toList, MapType.entries_insert,
      List.mem_cons]
    · by_cases hkey : nameKey p.1 = nameKey e.1
      · rw [if_pos hkey, ← hkey, hnew p List.mem_cons_self, Option.getD_none, Option.some.injEq]
        have hnone : ¬ (none : Option (Bytes × Bytes)) = some e := fun h => by cases h
        have hsame : ((p.1, p.2) = e) ↔ e = p := ⟨fun h => h.symm, fun h => h.symm⟩
        rw [hsame, ← or_assoc, or_iff_right hnone]
      · have hne : e ≠ p := fun h => hkey (h ▸ rfl)
        rw [if_neg hkey, or_iff_right hne]
    · rw [MapType.entries_insert, if_neg (hother q hq)]
      exact hnew q (List.mem_cons_of_mem _ hq)

theorem foldl_plain (pairs : List (Bytes × Bytes)) (h : ∀ p ∈ pairs, PlainName p.1) (m : MapType) :
    (pairs.map encodedPair).foldl addPair m = pairs.foldl (fun m p => m.insert p.1 p.2) m := by
  induction pairs generalizing m with
  | nil => rfl
  | cons p pairs ih =>
    have hplain := h p List.mem_cons_self
    have heq : 61 ∉ p.1 := fun hc => (hplain 61 hc).2 rfl
    have hadd : addPair m (encodedPair p) = m.insert p.1 p.2 := by
      rw [addPair, encodedPair, encode_plain hplain, takeWhile_ne heq, dropWhile_ne heq, List.tail_cons,
        Util.StringUtil.urlDecode_encode]
    rw [List.map_cons, List.foldl_cons, List.foldl_cons, hadd, ih fun q hq => h q (List.mem_cons_of_mem _ hq)]

/-! ### Names that come back -/

/-- Every name is what is read of one of them. -/
def Returns (ps : Params) : Prop := ∀ p ∈ ps.pairs, ∃ q ∈ ps.pairs, p.1 = (urlEncode true q.1).takeWhile (· ≠ 61)

theorem Returns.byte (h : Returns ps) : ∀ p ∈ ps.pairs, ∀ c ∈ p.1, isUnreserved c = true ∧ c ≠ 61 ∨ c = 37 := by
  have hread : ∀ p ∈ ps.pairs, ∀ b ∈ p.1, b ≠ 61 ∧ ∃ q ∈ ps.pairs, ∃ c ∈ q.1, isUnreserved b = true ∧ (b = 61 → c = 61) ∨
      b = 43 ∧ c = 32 ∨ b = 37 ∧ isUnreserved c = false ∧ c ≠ 32 := by
    intro p hp b hb
    obtain ⟨q, hq, hname⟩ := h p hp
    rw [hname] at hb
    have hne := List.mem_takeWhile_imp hb
    obtain ⟨c, hc, hcases⟩ := mem_urlEncode ((List.takeWhile_prefix _).subset hb)
    exact ⟨by simpa using hne, q, hq, c, hc, hcases⟩
  intro p hp b hb
  obtain ⟨hne, q, hq, c, hc, ⟨hb, -⟩ | ⟨rfl, rfl⟩ | ⟨rfl, -⟩⟩ := hread p hp b hb
  · exact .inl ⟨hb, hne⟩
  · -- the plus is a space of another name, and no name has a space
    obtain ⟨-, _, _, _, _, ⟨h, -⟩ | ⟨h, -⟩ | ⟨h, -⟩⟩ := hread q hq 32 hc
    · cases h
    · cases h
    · cases h
  · exact .inr rfl

/-- No escape is left: the shortest name with one would be the encoding of a shorter name. -/
theorem Returns.percent_notMem (h : Returns ps) (n : Nat) : ∀ p ∈ ps.pairs, p.1.length = n → 37 ∉ p.1 := by
  induction n using Nat.strongRecOn with
  | ind n ih =>
    intro p hp hlen hmem
    obtain ⟨q, hq, hname⟩ := h p hp
    have hbyte := h.byte q hq
    have hwhole : 61 ∉ urlEncode true q.1 := by
      intro hmem
      obtain ⟨c, hc, ⟨-, hc'⟩ | ⟨h, -⟩ | ⟨h, -⟩⟩ := mem_urlEncode hmem
      · obtain rfl := hc' rfl
        rcases hbyte 61 hc with h | h
        · exact h.2 rfl
        · cases h
      · cases h
      · cases h
    rw [List.takeWhile_eq_self_iff.mpr (ne_of_notMem hwhole)] at hname
    have hpercent : 37 ∈ q.1 := by
      rw [hname] at hmem
      obtain ⟨c, hc, ⟨h, -⟩ | ⟨h, -⟩ | ⟨-, hc', -⟩⟩ := mem_urlEncode hmem
      · cases h
      · cases h
      · rcases hbyte c hc with h | rfl
        · rw [h.1] at hc'
          cases hc'
        · exact hc
    have hshorter := (length_encode q.1).2 hpercent
    rw [← hname, hlen] at hshorter
    exact ih _ hshorter q hq rfl hpercent

theorem Returns.plain (h : Returns ps) : ∀ p ∈ ps.pairs, PlainName p.1 := by
  intro p hp c hc
  rcases h.byte p hp c hc with hplain | rfl
  · exact hplain
  · exact absurd hc (h.percent_notMem _ p hp rfl)

theorem Yields.returns (h : Yields ps) : Returns ps := by
  intro p hp
  have hparam := (h p).mpr hp
  rw [params_eq] at hparam
  rcases foldl_name _ _ _ hparam with hnil | ⟨i, hi, hname⟩
  · rw [MapType.mem_toList, MapType.entries_empty] at hnil
    cases hnil
  · obtain ⟨q, hq, rfl⟩ := List.mem_map.mp hi
    exact ⟨q, hq, hname.trans (name_encodedPair q)⟩

theorem yields_plain (h : ∀ p ∈ ps.pairs, PlainName p.1) : Yields ps := by
  have hkeys : (ps.pairs.map fun p => nameKey p.1) = ps.pairs.map fun p => Kv.lower p.1 := by
    refine List.map_congr_left fun p hp => ?_
    have hnul : 0 ∉ p.1 := fun hc => absurd (h p hp 0 hc).1 (by decide)
    rw [nameKey, MapType.cstr_of_notMem hnul]
  intro e
  rw [params_eq, foldl_plain _ h, foldl_insert _ _ (fun p _ => MapType.entries_empty _) (hkeys ▸ ps.distinct),
    MapType.mem_toList, MapType.entries_empty]
  exact or_iff_right fun h => (by cases h)

/-! ## Top theorem -/

theorem query_exact_iff (ps : Params) : (∀ plus s, urlDecode plus (urlEncode plus s) = s) ∧
    (Yields ps ↔ ∀ p ∈ ps.pairs, PlainName p.1) :=
  ⟨Util.StringUtil.urlDecode_encode, fun h => h.returns.plain, yields_plain⟩

/-- A name with a space does not come back. -/
theorem reserved_name : ¬ ∀ ps : Params, Yields ps := by
  intro h
  have hplain := (h ⟨[(lit "a b", lit "1")], by decide⟩).returns.plain _ List.mem_cons_self 32 (by decide)
  exact absurd hplain.1 (by decide)

end Http
