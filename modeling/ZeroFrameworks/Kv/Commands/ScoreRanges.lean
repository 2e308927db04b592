import ZeroFrameworks.Kv.Commands.ZSets
import ZeroFrameworks.Kv.Store.Ranks

/-!
# ZCOUNT, ZRANGEBYSCORE and ZREVRANGEBYSCORE

An infinite bound is a flag that is looked at on one side only; on the other side the bound is the value 0 that
`ScoreBound` starts with.  The output loop looks at the limit after it has put an element out, and the reversed command reads
its two bounds in the order of the other one.

    the three commands answer for the members within the bounds ↔ no member is misread, the limit is not 0
      or nothing is left, and each member is within the bounds exactly when it is with the bounds exchanged   (rangeQueries_iff)
-/

namespace Kv

/-! ## Specification -/

/-- What a bound says: an end of the scores, or a score, which is excluded when `strict`. -/
inductive Bound (F : Type) where
  | negInf
  | posInf
  | finite (x : F) (strict : Bool)

namespace Bound

variable {F : Type}

/-- `text` is a way to write the bound. -/
def Says [Platform F] (text : Bytes) : Bound F → Prop
  | negInf => text = lit "-inf" ∨ text = lit "-INF"
  | posInf => text ∈ [lit "+inf", lit "inf", lit "+INF", lit "INF"]
  | finite x false => text ≠ [] ∧ ¬(text = lit "-inf" ∨ text = lit "-INF") ∧
      text ∉ [lit "+inf", lit "inf", lit "+INF", lit "INF"] ∧ text.head? ≠ some 40 ∧
      (∃ n, n ≠ 0 ∧ Platform.strtod (cstr text) = (x, n)) ∧ Platform.isNan x = false
  | finite x true => ∃ rest, text = 40 :: rest ∧ (∃ n, n ≠ 0 ∧ Platform.strtod (cstr rest) = (x, n)) ∧
      Platform.isNan x = false

variable [LinearOrder F]

/-- `bound ≤ score`, or `<` when it is excluded. -/
def AtLeast (score : F) : Bound F → Prop
  | negInf => True
  | posInf => ∀ y, y ≤ score
  | finite x strict => if strict then x < score else x ≤ score

def AtMost (score : F) : Bound F → Prop
  | negInf => ∀ y, score ≤ y
  | posInf => True
  | finite x strict => if strict then score < x else score ≤ x

def Within (lo hi : Bound F) (score : F) : Prop := lo.AtLeast score ∧ hi.AtMost score

/-- What `parseScoreBound` makes of it. -/
def code [Platform F] : Bound F → ScoreBound F
  | negInf => { val := Platform.zero, negInf := true }
  | posInf => { val := Platform.zero, posInf := true }
  | finite x strict => { val := x, exclusive := strict }

end Bound

section specification

variable {F : Type} [LinearOrder F]

open Classical in
/-- The members within the bounds, in their order. -/
noncomputable def withinBounds (lo hi : Bound F) (l : List (F × Bytes)) : List (F × Bytes) :=
  l.filter fun p => decide (Bound.Within lo hi p.1)

/-- The positions from `offset` to below `offset + count`, or all from `offset` when `count` is negative. -/
def slice {α : Type} (offset count : Int) (l : List α) : List α :=
  (if count < 0 then l else l.take (offset + count).toNat).drop offset.toNat

variable [Platform F]

/-- What the commands answer for the sorted set with the members `l`; `x` and `y` are the arguments of LIMIT. -/
structure RangeQueries (env : Env) (db : Int) (key : Bytes) (s : KvStore F) (l : List (F × Bytes)) (lo hi : Bound F)
    (min max : Bytes) (x y : RespValue) (offset count : Int) : Prop where
  counted : (Commands.zcount db [.bulk (lit "ZCOUNT"), .bulk key, .bulk min, .bulk max] env s).1 =
    .integer (withinBounds lo hi l).length
  ranged : (Commands.zrangebyscore db
      [.bulk (lit "ZRANGEBYSCORE"), .bulk key, .bulk min, .bulk max, .bulk (lit "LIMIT"), x, y] env s).1 =
    bulkArray ((slice offset count (withinBounds lo hi l)).map Prod.snd)
  reversed : (Commands.zrevrangebyscore db [.bulk (lit "ZREVRANGEBYSCORE"), .bulk key, .bulk max, .bulk min] env s).1 =
    bulkArray ((withinBounds lo hi l).reverse.map Prod.snd)

/-- No member is misread: a minimum of +inf is taken for 0 and a maximum of -inf too, LIMIT gives one element for none and
starts at 0 before it, and the reversed command exchanges the bounds. -/
structure ReadRight (l : List (F × Bytes)) (lo hi : Bound F) (offset count : Int) : Prop where
  min : lo = .posInf → ∀ p ∈ l, Platform.zero ≤ p.1 → scoreLeMax p.1 hi.code = true → ∀ y, y ≤ p.1
  max : hi = .negInf → ∀ p ∈ l, p.1 ≤ Platform.zero → scoreGeMin p.1 lo.code = true → ∀ y, p.1 ≤ y
  none : count = 0 → (withinBounds lo hi l).length ≤ offset.toNat
  before : offset < 0 → 0 < count → (withinBounds lo hi l).length ≤ (offset + count).toNat
  exchanged : ∀ p ∈ l, scoreInRange p.1 hi.code lo.code = true ↔ Bound.Within lo hi p.1

end specification

/-! ## Lemmas -/

section bounds

variable {F : Type} [LinearOrder F] [Platform F] {b lo hi : Bound F} {text : Bytes} {score : F}

omit [LinearOrder F] in
theorem parseScoreBound_code (h : b.Says text) : parseScoreBound text = some b.code := by
  unfold parseScoreBound
  cases b with
  | negInf =>
    have h : text = lit "-inf" ∨ text = lit "-INF" := h
    have hne : text.isEmpty = false := by obtain rfl | rfl := h <;> rfl
    rw [hne, if_neg Bool.false_ne_true, if_pos h]
    rfl
  | posInf =>
    have h : text ∈ [lit "+inf", lit "inf", lit "+INF", lit "INF"] := h
    have hne : text.isEmpty = false ∧ ¬(text = lit "-inf" ∨ text = lit "-INF") := by
      have hall : ∀ t ∈ [lit "+inf", lit "inf", lit "+INF", lit "INF"],
          t.isEmpty = false ∧ ¬(t = lit "-inf" ∨ t = lit "-INF") := by decide
      exact hall text h
    rw [hne.1, if_neg Bool.false_ne_true, if_neg hne.2, if_pos h]
    rfl
  | finite x strict =>
    cases strict with
    | false =>
      obtain ⟨hne, hneg, hpos, hhead, ⟨n, hn, hread⟩, hnan⟩ := h
      have hplain : (text.head? == some 40) = false := beq_eq_false_iff_ne.mpr hhead
      rw [if_neg (by simpa using hne), if_neg hneg, if_neg hpos]
      simp only [hplain, Bool.false_eq_true, if_false, hread, hnan, Bool.or_false]
      rw [if_neg (by simpa using hn)]
      rfl
    | true =>
      obtain ⟨rest, rfl, ⟨n, hn, hread⟩, hnan⟩ := h
      have hneg : ¬((40 :: rest : Bytes) = lit "-inf" ∨ (40 :: rest : Bytes) = lit "-INF") := by
        intro h
        have hall : ∀ t ∈ [lit "-inf", lit "-INF"], t.head? ≠ some 40 := by decide
        exact hall _ (by simpa using h) rfl
      have hpos : (40 :: rest : Bytes) ∉ [lit "+inf", lit "inf", lit "+INF", lit "INF"] := by
        intro h
        have hall : ∀ t ∈ [lit "+inf", lit "inf", lit "+INF", lit "INF"], t.head? ≠ some 40 := by decide
        exact hall _ h rfl
      rw [if_neg (by simp), if_neg hneg, if_neg hpos]
      simp only [List.head?_cons, beq_self_eq_true, if_true, List.tail_cons, hread, hnan, Bool.or_false]
      rw [if_neg (by simpa using hn)]
      rfl

variable [OrderedScores F]

theorem geMin_posInf : scoreGeMin score (Bound.posInf : Bound F).code = true ↔ Platform.zero ≤ score := by
  show (Platform.lt Platform.zero score || Platform.eq Platform.zero score) = true ↔ _
  rw [OrderedScores.lt_eq, OrderedScores.eq_eq, Bool.or_eq_true, decide_eq_true_iff, decide_eq_true_iff, le_iff_lt_or_eq]

theorem leMax_negInf : scoreLeMax score (Bound.negInf : Bound F).code = true ↔ score ≤ Platform.zero := by
  show (Platform.lt score Platform.zero || Platform.eq score Platform.zero) = true ↔ _
  rw [OrderedScores.lt_eq, OrderedScores.eq_eq, Bool.or_eq_true, decide_eq_true_iff, decide_eq_true_iff, le_iff_lt_or_eq]

theorem geMin_iff (h : b ≠ .posInf) : scoreGeMin score b.code = true ↔ b.AtLeast score := by
  cases b with
  | negInf => exact ⟨fun _ => trivial, fun _ => rfl⟩
  | posInf => exact absurd rfl h
  | finite x strict =>
    cases strict with
    | false =>
      show (Platform.lt x score || Platform.eq x score) = true ↔ x ≤ score
      rw [OrderedScores.lt_eq, OrderedScores.eq_eq, Bool.or_eq_true, decide_eq_true_iff, decide_eq_true_iff, le_iff_lt_or_eq]
    | true =>
      show Platform.lt x score = true ↔ x < score
      rw [OrderedScores.lt_eq, decide_eq_true_iff]

theorem leMax_iff (h : b ≠ .negInf) : scoreLeMax score b.code = true ↔ b.AtMost score := by
  cases b with
  | negInf => exact absurd rfl h
  | posInf => exact ⟨fun _ => trivial, fun _ => rfl⟩
  | finite x strict =>
    cases strict with
    | false =>
      show (Platform.lt score x || Platform.eq score x) = true ↔ score ≤ x
      rw [OrderedScores.lt_eq, OrderedScores.eq_eq, Bool.or_eq_true, decide_eq_true_iff, decide_eq_true_iff, le_iff_lt_or_eq]
    | true =>
      show Platform.lt score x = true ↔ score < x
      rw [OrderedScores.lt_eq, decide_eq_true_iff]

theorem inRange_of_within (h : Bound.Within lo hi score) : scoreInRange score lo.code hi.code = true := by
  obtain ⟨hlo, hhi⟩ := h
  unfold scoreInRange
  rw [Bool.and_eq_true]
  constructor
  · by_cases hp : lo = .posInf
    · subst hp
      exact geMin_posInf.mpr (hlo Platform.zero)
    · exact (geMin_iff hp).mpr hlo
  · by_cases hn : hi = .negInf
    · subst hn
      exact leMax_negInf.mpr (hhi Platform.zero)
    · exact (leMax_iff hn).mpr hhi

/-- What is taken is within the bounds when no end of the scores is misread. -/
theorem misread_iff {l : List (F × Bytes)} :
    (∀ p ∈ l, scoreInRange p.1 lo.code hi.code = true → Bound.Within lo hi p.1) ↔
      (lo = .posInf → ∀ p ∈ l, Platform.zero ≤ p.1 → scoreLeMax p.1 hi.code = true → ∀ y, y ≤ p.1) ∧
        (hi = .negInf → ∀ p ∈ l, p.1 ≤ Platform.zero → scoreGeMin p.1 lo.code = true → ∀ y, p.1 ≤ y) := by
  unfold scoreInRange
  constructor
  · intro h
    constructor
    · rintro rfl p hp hge hle
      exact (h p hp (Bool.and_eq_true_iff.mpr ⟨geMin_posInf.mpr hge, hle⟩)).1
    · rintro rfl p hp hle hge
      exact (h p hp (Bool.and_eq_true_iff.mpr ⟨hge, leMax_negInf.mpr hle⟩)).2
  · rintro ⟨hmin, hmax⟩ p hp hin
    obtain ⟨hge, hle⟩ := Bool.and_eq_true_iff.mp hin
    constructor
    · by_cases hpos : lo = .posInf
      · subst hpos
        exact hmin rfl p hp (geMin_posInf.mp hge) hle
      · exact (geMin_iff hpos).mp hge
    · by_cases hneg : hi = .negInf
      · subst hneg
        exact hmax rfl p hp (leMax_negInf.mp hle) hge
      · exact (leMax_iff hneg).mp hle

end bounds

section outputs

variable {F : Type} [Platform F] {lo hi : ScoreBound F}

/-- What the output loop puts out: one element at least before it looks at the limit. -/
theorem takeRange_eq (count : Int) : ∀ (items : List (F × Bytes)) (skip : Int) (out : List (Bytes × F)),
    (0 ≤ count → out = [] ∨ (out.length : Int) < count) → takeRange lo hi count items skip out =
      out ++ (if count < 0 then ((items.filter fun p => scoreInRange p.1 lo hi).drop skip.toNat)
        else ((items.filter fun p => scoreInRange p.1 lo hi).drop skip.toNat).take (max 1 (count - out.length)).toNat).map
          fun p => (p.2, p.1) := by
  intro items
  induction items with
  | nil =>
    intro skip out _
    simp [takeRange]
  | cons item rest ih =>
    intro skip out hout
    unfold takeRange
    by_cases hin : scoreInRange item.1 lo hi = true
    · rw [if_neg (by simpa using hin), List.filter_cons_of_pos (by simpa using hin)]
      by_cases hskip : 0 < skip
      · rw [if_pos hskip, ih (skip - 1) out hout, show skip.toNat = (skip - 1).toNat + 1 by omega, List.drop_succ_cons]
      · rw [if_neg hskip, show skip.toNat = 0 by omega, List.drop_zero]
        dsimp only
        split
        next hfull =>
          have hlen : (out.length : Int) + 1 = (out ++ [(item.2, item.1)]).length := by simp
          rw [if_neg (by omega), show (max 1 (count - out.length)).toNat = 1 by omega]
          rfl
        next hopen =>
          have hlen : (out.length : Int) + 1 = (out ++ [(item.2, item.1)]).length := by simp
          rw [ih skip _ (fun h => .inr (by omega)), show skip.toNat = 0 by omega, List.drop_zero, List.append_assoc]
          congr 1
          split
          · rfl
          · rw [show (max 1 (count - out.length)).toNat = (max 1 (count - (out ++ [(item.2, item.1)]).length)).toNat + 1 by omega]
            rfl
    · rw [if_pos (by simpa using hin), List.filter_cons_of_neg (by simpa using hin), ih skip out hout]

/-- What ZRANGEBYSCORE takes of the members in range. -/
def limited {α : Type} (offset count : Int) (l : List α) : List α :=
  if count < 0 then l.drop offset.toNat else (l.drop offset.toNat).take (max 1 count).toNat

theorem takeRange_spec (items : List (F × Bytes)) (offset count : Int) : takeRange lo hi count items offset [] =
    (limited offset count (items.filter fun p => scoreInRange p.1 lo hi)).map fun p => (p.2, p.1) := by
  rw [takeRange_eq count items offset [] fun _ => .inl rfl, List.nil_append, List.length_nil]
  unfold limited
  rw [Int.natCast_zero, Int.sub_zero]

theorem limited_all {α : Type} (l : List α) : limited 0 (-1) l = l := rfl

/-- The loop keeps to the slice when the limit leaves something of it or there is nothing to leave. -/
theorem limited_slice_iff {α : Type} {offset count : Int} {l : List α} :
    (limited offset count l).length = (slice offset count l).length ↔
      (count = 0 → l.length ≤ offset.toNat) ∧ (offset < 0 → 0 < count → l.length ≤ (offset + count).toNat) := by
  unfold limited slice
  by_cases hneg : count < 0
  · rw [if_pos hneg, if_pos hneg]
    exact ⟨fun _ => ⟨fun h => (by omega), fun _ h => (by omega)⟩, fun _ => rfl⟩
  · rw [if_neg hneg, if_neg hneg, List.length_take, List.length_drop, List.length_drop, List.length_take]
    rcases (Int.not_lt.mp hneg).eq_or_lt with rfl | hpos
    · have hone : (max 1 (0 : Int)).toNat = 1 := rfl
      rw [Int.add_zero, hone]
      generalize offset.toNat = n
      omega
    · have hmax : max 1 count = count := max_eq_right hpos
      rw [hmax]
      by_cases hoff : offset < 0
      · have hless : (offset + count).toNat < count.toNat := by omega
        rw [Int.toNat_of_nonpos hoff.le, Nat.sub_zero, Nat.sub_zero]
        generalize (offset + count).toNat = j at hless ⊢
        exact ⟨fun h => ⟨fun h0 => absurd h0 hpos.ne', fun _ _ => (by omega)⟩, fun h => (by have := h.2 hoff hpos; omega)⟩
      · rw [Int.toNat_add (Int.not_lt.mp hoff) hpos.le]
        refine iff_of_true ?_ ⟨fun h0 => absurd h0 hpos.ne', fun h => absurd h hoff⟩
        generalize offset.toNat = n
        omega

theorem limited_eq_slice {α : Type} {offset count : Int} {l : List α} (hzero : count = 0 → l.length ≤ offset.toNat)
    (hbefore : offset < 0 → 0 < count → l.length ≤ (offset + count).toNat) : limited offset count l = slice offset count l := by
  unfold limited slice
  by_cases hneg : count < 0
  · rw [if_pos hneg, if_pos hneg]
  · rw [if_neg hneg, if_neg hneg, List.drop_take]
    by_cases hshort : l.length ≤ offset.toNat
    · rw [List.drop_eq_nil_of_le hshort, List.take_nil, List.take_nil]
    · by_cases hoff : offset < 0
      · rw [List.take_of_length_le (by rw [List.length_drop]; omega), List.take_of_length_le (by rw [List.length_drop]; omega)]
      · congr 1
        omega

theorem bulkArray_inj {vs ws : List Bytes} : bulkArray vs = bulkArray ws ↔ vs = ws := by
  constructor
  · intro h
    exact List.map_injective_iff.mpr (fun a b hab => RespValue.bulk.inj hab) (RespValue.array.inj h)
  · rintro rfl
    rfl

end outputs

section replies

variable {F : Type} [LinearOrder F] [Platform F] [OrderedScores F] {env : Env} {db : Int} {key min max : Bytes}
  {s : KvStore F} {z : BMap F} {l : List (F × Bytes)} {d : Int} {lo hi : Bound F} {x y : RespValue} {offset count : Int}

variable (hheld : Field.zset.held (s.live env.now db key) = .value z d) (hl : Listing z l) (hlo : lo.Says min)
  (hhi : hi.Says max)
include hheld hl hlo hhi

omit [OrderedScores F] in
theorem zcount_reply : (Commands.zcount db [.bulk (lit "ZCOUNT"), .bulk key, .bulk min, .bulk max] env s).1 =
    .integer (l.filter fun p => scoreInRange p.1 lo.code hi.code).length := by
  show replyTo RespValue.integer (KvStore.zcount db key min max env s).1 = _
  have hlen : (z.toList.filter fun m => scoreInRange m.2 lo.code hi.code).length =
      (l.filter fun p => scoreInRange p.1 lo.code hi.code).length := by
    rw [← (hl.perm.filter _).length_eq, scored, List.filter_map, List.length_map]
    rfl
  unfold KvStore.zcount
  rw [parseScoreBound_code hlo, parseScoreBound_code hhi]
  refine (congrArg _ (onField_of_value _ Field.whole_zset hheld).1).trans ?_
  rw [← hlen]
  rfl

theorem zrangeByScore_reply (reverse : Bool) (offset count : Int) :
    (KvStore.zrangeByScore db key min max reverse offset count env s).1 =
      .ok ((limited offset count ((if reverse then l.reverse else l).filter fun p =>
        scoreInRange p.1 lo.code hi.code)).map fun p => (p.2, p.1)) := by
  have hranked : rankedZset z reverse = if reverse then l.reverse else l := by
    cases reverse with
    | false => exact hl.ranked_eq
    | true => exact hl.ranked_reverse
  unfold KvStore.zrangeByScore
  rw [parseScoreBound_code hlo, parseScoreBound_code hhi]
  refine (onField_of_value _ Field.whole_zset hheld).1.trans ?_
  rw [← hranked, ← takeRange_spec]
  rfl

omit [LinearOrder F] [OrderedScores F] hheld hl hlo hhi in
theorem rankedReply_members (items : List (F × Bytes)) :
    Commands.rankedReply false (items.map fun p => (p.2, p.1)) = bulkArray (items.map Prod.snd) := by
  unfold Commands.rankedReply
  rw [List.flatMap_map, List.map_eq_flatMap]
  rfl

omit [LinearOrder F] [OrderedScores F] hheld hl hlo hhi in
theorem parse_limit (hx : parseInt64Prefix x = some offset) (hy : parseInt64Prefix y = some count) :
    Commands.parseRangeOptions {} [.bulk (lit "LIMIT"), x, y] = .ok { offset := offset, count := count } := by
  unfold Commands.parseRangeOptions
  rw [if_neg (by decide), if_neg (by decide), if_pos (by decide)]
  simp only [hx, hy]
  rfl

theorem zrangebyscore_reply (hx : parseInt64Prefix x = some offset) (hy : parseInt64Prefix y = some count) :
    (Commands.zrangebyscore db
      [.bulk (lit "ZRANGEBYSCORE"), .bulk key, .bulk min, .bulk max, .bulk (lit "LIMIT"), x, y] env s).1 =
      bulkArray ((limited offset count (l.filter fun p => scoreInRange p.1 lo.code hi.code)).map Prod.snd) := by
  show (withParsed (Commands.parseRangeOptions {} [.bulk (lit "LIMIT"), x, y]) (fun opt =>
    replyWith (KvStore.zrangeByScore db key min max false opt.offset opt.count) (Commands.rankedReply opt.withScores)) env s).1 = _
  rw [parse_limit hx hy]
  show replyTo (Commands.rankedReply false) (KvStore.zrangeByScore db key min max false offset count env s).1 = _
  rw [zrangeByScore_reply hheld hl hlo hhi, ← rankedReply_members]
  rfl

theorem zrevrangebyscore_reply :
    (Commands.zrevrangebyscore db [.bulk (lit "ZREVRANGEBYSCORE"), .bulk key, .bulk min, .bulk max] env s).1 =
      bulkArray ((l.filter fun p => scoreInRange p.1 lo.code hi.code).reverse.map Prod.snd) := by
  show replyTo (Commands.rankedReply false) (KvStore.zrangeByScore db key min max true 0 (-1) env s).1 = _
  rw [zrangeByScore_reply hheld hl hlo hhi, limited_all, ← rankedReply_members, ← List.filter_reverse]
  rfl

end replies

section directions

variable {F : Type} [LinearOrder F] [Platform F] [OrderedScores F] {env : Env} {db : Int} {key min max : Bytes}
  {s : KvStore F} {z : BMap F} {l : List (F × Bytes)} {d : Int} {lo hi : Bound F} {x y : RespValue} {offset count : Int}

theorem filter_eq_within (h : ∀ p ∈ l, scoreInRange p.1 lo.code hi.code = true → Bound.Within lo hi p.1) :
    (l.filter fun p => scoreInRange p.1 lo.code hi.code) = withinBounds lo hi l := by
  classical
  refine List.filter_congr fun p hp => ?_
  rw [Bool.eq_iff_iff, decide_eq_true_iff]
  exact ⟨h p hp, inRange_of_within⟩

theorem within_of_length (h : (l.filter fun p => scoreInRange p.1 lo.code hi.code).length = (withinBounds lo hi l).length) :
    ∀ p ∈ l, scoreInRange p.1 lo.code hi.code = true → Bound.Within lo hi p.1 := by
  classical
  have hsub : (withinBounds lo hi l).Sublist (l.filter fun p => scoreInRange p.1 lo.code hi.code) :=
    List.monotone_filter_right l fun p hp => inRange_of_within (of_decide_eq_true hp)
  intro p hp hin
  have hmem : p ∈ withinBounds lo hi l := by
    rw [hsub.eq_of_length h.symm]
    exact List.mem_filter.mpr ⟨hp, hin⟩
  exact of_decide_eq_true (List.mem_filter.mp hmem).2

variable (hheld : Field.zset.held (s.live env.now db key) = .value z d) (hl : Listing z l) (hlo : lo.Says min)
  (hhi : hi.Says max) (hx : parseInt64Prefix x = some offset) (hy : parseInt64Prefix y = some count)
include hheld hl hlo hhi hx hy

theorem RangeQueries.readRight (h : RangeQueries env db key s l lo hi min max x y offset count) :
    ReadRight l lo hi offset count := by
  classical
  obtain ⟨hcount, hrange, hrev⟩ := h
  rw [zcount_reply hheld hl hlo hhi] at hcount
  have hright := within_of_length (l := l) (by exact_mod_cast RespValue.integer.inj hcount)
  obtain ⟨hmin, hmax⟩ := misread_iff.mp hright
  rw [zrangebyscore_reply hheld hl hlo hhi hx hy, filter_eq_within hright, bulkArray_inj] at hrange
  have hlen := congrArg List.length hrange
  rw [List.length_map, List.length_map] at hlen
  obtain ⟨hnone, hbefore⟩ := limited_slice_iff.mp hlen
  refine ⟨hmin, hmax, hnone, hbefore, fun p hp => ?_⟩
  rw [zrevrangebyscore_reply hheld hl hhi hlo, bulkArray_inj, List.map_reverse, List.map_reverse, List.reverse_inj] at hrev
  -- a member is known by its name, so that equal names come from equal members
  have hboth : ∀ {u v : List (F × Bytes)}, v ⊆ l → u.map Prod.snd = v.map Prod.snd → p ∈ u → p ∈ v := by
    intro u v hv heq hpu
    have hmem : p.2 ∈ v.map Prod.snd := heq ▸ List.mem_map_of_mem hpu
    obtain ⟨q, hq, hqp⟩ := List.mem_map.mp hmem
    rwa [hl.eq_of_member hp (hv hq) hqp.symm]
  constructor
  · intro hin
    have hmem := hboth (List.filter_subset_self _) hrev (List.mem_filter.mpr ⟨hp, hin⟩)
    exact of_decide_eq_true (List.mem_filter.mp hmem).2
  · intro hin
    have hmem := hboth (List.filter_subset_self _) hrev.symm (List.mem_filter.mpr ⟨hp, decide_eq_true hin⟩)
    exact (List.mem_filter.mp hmem).2

theorem ReadRight.rangeQueries (h : ReadRight l lo hi offset count) :
    RangeQueries env db key s l lo hi min max x y offset count := by
  classical
  have hright := misread_iff.mpr ⟨h.min, h.max⟩
  refine ⟨?_, ?_, ?_⟩
  · rw [zcount_reply hheld hl hlo hhi, filter_eq_within hright]
  · rw [zrangebyscore_reply hheld hl hlo hhi hx hy, filter_eq_within hright, limited_eq_slice h.none h.before]
  · rw [zrevrangebyscore_reply hheld hl hhi hlo]
    congr 3
    refine List.filter_congr fun p hp => ?_
    rw [Bool.eq_iff_iff, decide_eq_true_iff]
    exact h.exchanged p hp

end directions

/-! ## Top theorem -/

theorem rangeQueries_iff {F : Type} [LinearOrder F] [Platform F] [OrderedScores F] (env : Env) (db : Int) (key : Bytes)
    (s : KvStore F) (z : BMap F) (d : Int) (hheld : Field.zset.held (s.live env.now db key) = .value z d)
    (l : List (F × Bytes)) (hl : Listing z l) (lo hi : Bound F) (min max : Bytes) (hlo : lo.Says min) (hhi : hi.Says max)
    (x y : RespValue) (offset count : Int) (hx : parseInt64Prefix x = some offset) (hy : parseInt64Prefix y = some count) :
    RangeQueries env db key s l lo hi min max x y offset count ↔ ReadRight l lo hi offset count :=
  ⟨fun h => h.readRight hheld hl hlo hhi hx hy, fun h => h.rangeQueries hheld hl hlo hhi hx hy⟩

theorem says_numbers : (Bound.finite (-2) false : Bound Int).Says (lit "-2") ∧
    (Bound.finite (-2) true : Bound Int).Says (lit "(-2") ∧ (Bound.finite 5 true : Bound Int).Says (lit "(5") :=
  ⟨show _ ∧ _ from ⟨by decide, by decide, by decide, by decide, ⟨2, by decide, by decide⟩, rfl⟩,
    ⟨lit "-2", rfl, ⟨2, by decide, by decide⟩, rfl⟩, ⟨lit "5", rfl, ⟨1, by decide, by decide⟩, rfl⟩⟩

theorem says_ends : (Bound.posInf : Bound Int).Says (lit "+inf") ∧ (Bound.negInf : Bound Int).Says (lit "-inf") :=
  ⟨show lit "+inf" ∈ [lit "+inf", lit "inf", lit "+INF", lit "INF"] by decide, .inl rfl⟩

/-- LIMIT 1 1 leaves the second of the two members that tie, and nothing is between two scores that are excluded. -/
theorem rangeQueries_one :
    RangeQueries { now := 0 } 0 (lit "z") threeMembers [(-2, lit "a"), (-2, lit "b"), (5, lit "c")] .negInf
      (.finite (-2) false) (lit "-inf") (lit "-2") (.bulk (lit "1")) (.bulk (lit "1")) 1 1 ∧
    RangeQueries { now := 0 } 0 (lit "z") threeMembers [(-2, lit "a"), (-2, lit "b"), (5, lit "c")] (.finite (-2) true)
      (.finite 5 true) (lit "(-2") (lit "(5") (.bulk (lit "0")) (.bulk (lit "5")) 0 5 ∧
    (Commands.zrangebyscore 0 [.bulk (lit "ZRANGEBYSCORE"), .bulk (lit "z"), .bulk (lit "-inf"), .bulk (lit "-2"),
      .bulk (lit "LIMIT"), .bulk (lit "1"), .bulk (lit "1")] { now := 0 } threeMembers).1 = bulkArray [lit "b"] := by
  obtain ⟨htwo, hlo, hhi⟩ := says_numbers
  refine ⟨?_, ?_, ?_⟩
  · refine (rangeQueries_iff _ _ _ _ _ _ held_threeMembers _ listing_threeMembers _ _ _ _ says_ends.2 htwo _ _ _ _
      (by decide) (by decide)).mpr ⟨nofun, nofun, nofun, fun h => absurd h (by decide), ?_⟩
    simp only [List.forall_mem_cons, Bound.Within, Bound.AtLeast, Bound.AtMost]
    decide
  · refine (rangeQueries_iff _ _ _ _ _ _ held_threeMembers _ listing_threeMembers _ _ _ _ hlo hhi _ _ _ _
      (by decide) (by decide)).mpr ⟨nofun, nofun, nofun, fun h => absurd h (by decide), ?_⟩
    simp only [List.forall_mem_cons, Bound.Within, Bound.AtLeast, Bound.AtMost]
    decide
  · have hone : parseInt64Prefix (.bulk (lit "1")) = some 1 := by decide
    rw [zrangebyscore_reply held_threeMembers listing_threeMembers says_ends.2 htwo hone hone]
    rfl

/-- ZCOUNT z +inf +inf, ZRANGEBYSCORE z -inf +inf LIMIT 0 0, and ZREVRANGEBYSCORE z +inf -inf. -/
theorem rangeQueries_misread :
    (¬ RangeQueries { now := 0 } 0 (lit "z") oneMember [(1, lit "a")] .posInf .posInf (lit "+inf") (lit "+inf")
      (.bulk (lit "0")) (.bulk (lit "-1")) 0 (-1)) ∧
    ¬ RangeQueries { now := 0 } 0 (lit "z") oneMember [(1, lit "a")] .negInf .posInf (lit "-inf") (lit "+inf")
      (.bulk (lit "0")) (.bulk (lit "0")) 0 0 := by
  constructor
  · intro h
    have hright := h.readRight held_oneMember listing_oneMember says_ends.1 says_ends.1 (by decide) (by decide)
    have htop : ∀ y : Int, y ≤ 1 := hright.min rfl (1, lit "a") (List.mem_singleton_self _) (by decide) (by decide)
    exact absurd (htop 2) (by decide)
  · intro h
    have hright := h.readRight held_oneMember listing_oneMember says_ends.2 says_ends.1 (by decide) (by decide)
    have hin := (hright.exchanged (1, lit "a") (List.mem_singleton_self _)).mpr ⟨trivial, trivial⟩
    exact absurd hin (by decide)

end Kv
