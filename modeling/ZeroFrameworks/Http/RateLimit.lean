import Mathlib.Algebra.Order.Field.Basic
import Mathlib.Algebra.Order.Ring.Rat
import Mathlib.Data.List.TakeWhile
import Mathlib.Data.Rat.Cast.Order
import Mathlib.Tactic.FieldSimp
import Mathlib.Tactic.Linarith
import Mathlib.Tactic.Positivity
import Mathlib.Tactic.Ring
import ZeroFrameworks.Lib.Windows

/-!
# The rate limiters

Three limiters that a middleware asks before each request: a bucket of tokens that fills, a bucket of water that
leaks, and a queue of the times of the last requests.  Times are nanoseconds of the steady clock; rates and levels
are rationals.

    a call is refused ↔ maxRequests calls were admitted within windowMs before it   (slidingWindow_exact)
    the token bucket and the leaky bucket admit the same calls, b + rate * T of them in T   (buckets_agree)
-/

namespace Http

open Windows

/-! ## Algorithm -/

structure TokenBucketRateLimiter where
  rate : ℚ
  burst : ℚ
  tokens : ℚ
  lastTime : Int

structure SlidingWindowRateLimiter where
  maxRequests : Int
  windowMs : Int
  records : List Int := []

structure LeakyBucketRateLimiter where
  rate : ℚ
  capacity : ℚ
  water : ℚ := 0
  lastTime : Int

/-- `duration_cast<microseconds>(now - last).count() / 1000000.0` -/
def elapsed (now last : Int) : ℚ := ((now - last).tdiv 1000 : Int) / 1000000

namespace TokenBucketRateLimiter

def create (rate burst : ℚ) (now : Int) : TokenBucketRateLimiter := { rate, burst, tokens := burst, lastTime := now }

def acquire (now : Int) (l : TokenBucketRateLimiter) : Bool × TokenBucketRateLimiter :=
  let tokens := l.tokens + elapsed now l.lastTime * l.rate
  let tokens := if l.burst < tokens then l.burst else tokens
  if tokens < 1 then (false, { l with tokens, lastTime := now })
  else (true, { l with tokens := tokens - 1, lastTime := now })

end TokenBucketRateLimiter

namespace SlidingWindowRateLimiter

/-- The loop that drops the records from the front. -/
def expire (now : Int) (l : SlidingWindowRateLimiter) : List Int :=
  l.records.dropWhile fun front => decide (l.windowMs ≤ (now - front).tdiv 1000000)

def acquire (now : Int) (l : SlidingWindowRateLimiter) : Bool × SlidingWindowRateLimiter :=
  let records := l.expire now
  if l.maxRequests ≤ records.length then (false, { l with records })
  else (true, { l with records := records ++ [now] })

end SlidingWindowRateLimiter

namespace LeakyBucketRateLimiter

def create (rate capacity : ℚ) (now : Int) : LeakyBucketRateLimiter := { rate, capacity, lastTime := now }

def acquire (now : Int) (l : LeakyBucketRateLimiter) : Bool × LeakyBucketRateLimiter :=
  let water := l.water - elapsed now l.lastTime * l.rate
  let water := if water < 0 then 0 else water
  if l.capacity < water + 1 then (false, { l with water, lastTime := now })
  else (true, { l with water := water + 1, lastTime := now })

end LeakyBucketRateLimiter

/-! ## Specification -/

/-- The width of the window in nanoseconds. -/
def SlidingWindowRateLimiter.window (l : SlidingWindowRateLimiter) : Int := l.windowMs * 1000000

/-- What the queue holds of the past: all but a front that some past call already found out of the window. -/
structure SlidingWindowRateLimiter.Holds (start : SlidingWindowRateLimiter) (past : List (Int × Bool))
    (l : SlidingWindowRateLimiter) : Prop where
  maxRequests : l.maxRequests = start.maxRequests
  windowMs : l.windowMs = start.windowMs
  records : ∃ dropped, admitted past = dropped ++ l.records ∧
    ∀ t ∈ dropped, ∃ x ∈ past, t + start.window ≤ x.1
  sorted : l.records.Pairwise (· ≤ ·)

/-- The two buckets hold between them what either holds. -/
structure Complement (t : TokenBucketRateLimiter) (l : LeakyBucketRateLimiter) : Prop where
  rate : t.rate = l.rate
  capacity : t.burst = l.capacity
  lastTime : t.lastTime = l.lastTime
  level : t.tokens + l.water = l.capacity

/-! ## Lemmas -/

namespace SlidingWindowRateLimiter

variable {start l : SlidingWindowRateLimiter} {past : List (Int × Bool)} {now : Int}

/-- Milliseconds cut off do not matter to a window of whole milliseconds. -/
theorem le_tdiv_iff {front : Int} (h : front ≤ now) :
    l.windowMs ≤ (now - front).tdiv 1000000 ↔ front + l.window ≤ now := by
  rw [Int.tdiv_eq_ediv_of_nonneg (by omega), Int.le_ediv_iff_mul_le (by decide), window]
  omega

theorem expire_spec (hsorted : l.records.Pairwise (· ≤ ·)) (hle : ∀ t ∈ l.records, t ≤ now) :
    ∃ dropped, l.records = dropped ++ l.expire now ∧ (∀ t ∈ dropped, t + l.window ≤ now) ∧
      ∀ t ∈ l.expire now, now - l.window < t := by
  refine ⟨l.records.takeWhile fun front => decide (l.windowMs ≤ (now - front).tdiv 1000000),
    List.takeWhile_append_dropWhile.symm, ?_, ?_⟩
  · intro t ht
    have hout := List.mem_takeWhile_imp ht
    exact (le_tdiv_iff (hle t (List.takeWhile_subset _ ht))).mp (of_decide_eq_true hout)
  · intro t ht
    -- the first that is kept is in the window, and the others are not before it
    have hsub : (l.expire now).Sublist l.records := List.dropWhile_sublist _
    have hkept := hsorted.sublist hsub
    cases hx : l.expire now with
    | nil =>
      rw [hx] at ht
      cases ht
    | cons x rest =>
      have hhead := List.head?_dropWhile_not (fun front => decide (l.windowMs ≤ (now - front).tdiv 1000000)) l.records
      have hx' : l.records.dropWhile (fun front => decide (l.windowMs ≤ (now - front).tdiv 1000000)) = x :: rest := hx
      rw [hx', List.head?_cons] at hhead
      have hin : ¬x + l.window ≤ now := by
        rw [← le_tdiv_iff (hle x (hsub.subset (hx ▸ List.mem_cons_self)))]
        simpa using hhead
      rw [hx] at hkept ht
      have hxt : x ≤ t := by
        rcases List.mem_cons.mp ht with rfl | ht
        · exact Int.le_refl _
        · exact (List.pairwise_cons.mp hkept).1 t ht
      omega

theorem acquire_eq_false : (l.acquire now).1 = false ↔ l.maxRequests ≤ (l.expire now).length := by
  rw [acquire]
  by_cases hfull : l.maxRequests ≤ (l.expire now).length
  · exact iff_of_true (by rw [if_pos hfull]) hfull
  · exact iff_of_false (by rw [if_neg hfull]; simp) hfull

theorem holds_create (start : SlidingWindowRateLimiter) (h : start.records = []) : Holds start [] start where
  maxRequests := rfl
  windowMs := rfl
  records := ⟨[], by rw [h]; rfl, by simp⟩
  sorted := by rw [h]; exact List.Pairwise.nil

theorem Holds.le (h : Holds start past l) (hpast : ∀ x ∈ past, x.1 ≤ now) : ∀ t ∈ l.records, t ≤ now := by
  intro t ht
  obtain ⟨dropped, heq, -⟩ := h.records
  obtain ⟨x, hx, rfl⟩ := mem_of_mem_admitted (heq ▸ List.mem_append_right dropped ht)
  exact hpast x hx

theorem Holds.window (h : Holds start past l) : l.window = start.window := by
  rw [SlidingWindowRateLimiter.window, h.windowMs]
  rfl

theorem Holds.countP (h : Holds start past l) (hpast : ∀ x ∈ past, x.1 ≤ now) :
    (admitted past).countP (fun t => decide (now - start.window < t)) = (l.expire now).length := by
  obtain ⟨dropped, heq, hout⟩ := h.records
  obtain ⟨expired, hrec, hexp, hin⟩ := expire_spec h.sorted (h.le hpast)
  rw [h.window] at hexp hin
  have hzero : dropped.countP (fun t => decide (now - start.window < t)) = 0 := by
    rw [List.countP_eq_zero]
    intro t ht
    obtain ⟨x, hx, hxt⟩ := hout t ht
    have := hpast x hx
    rw [decide_eq_true_iff]
    omega
  have hzero' : expired.countP (fun t => decide (now - start.window < t)) = 0 := by
    rw [List.countP_eq_zero]
    intro t ht
    have := hexp t ht
    rw [decide_eq_true_iff]
    omega
  rw [heq, hrec, List.countP_append, List.countP_append, hzero, hzero', Nat.zero_add, Nat.zero_add]
  exact List.countP_eq_length.mpr fun t ht => decide_eq_true (hin t ht)

theorem Holds.next (h : Holds start past l) (hpast : ∀ x ∈ past, x.1 ≤ now) :
    Holds start (past ++ [(now, (l.acquire now).1)]) (l.acquire now).2 := by
  obtain ⟨dropped, heq, hout⟩ := h.records
  obtain ⟨expired, hrec, hexp, -⟩ := expire_spec h.sorted (h.le hpast)
  have hsub : (l.expire now).Sublist l.records := List.dropWhile_sublist _
  have hgone : ∀ ok, ∀ t ∈ dropped ++ expired, ∃ x ∈ past ++ [(now, ok)], t + start.window ≤ x.1 := by
    intro ok t ht
    rcases List.mem_append.mp ht with ht | ht
    · obtain ⟨x, hx, hxt⟩ := hout t ht
      exact ⟨x, List.mem_append_left _ hx, hxt⟩
    · refine ⟨(now, ok), List.mem_append_right _ List.mem_cons_self, ?_⟩
      rw [← h.window]
      exact hexp t ht
  rw [SlidingWindowRateLimiter.acquire]
  by_cases hfull : l.maxRequests ≤ (l.expire now).length
  · rw [if_pos hfull]
    refine ⟨h.maxRequests, h.windowMs, ⟨dropped ++ expired, ?_, hgone false⟩, h.sorted.sublist hsub⟩
    rw [admitted_append, heq, hrec, List.append_assoc]
    simp
  · rw [if_neg hfull]
    refine ⟨h.maxRequests, h.windowMs, ⟨dropped ++ expired, ?_, hgone true⟩, ?_⟩
    · rw [admitted_append, heq, hrec, List.append_assoc, List.append_assoc]
      simp
    · refine List.pairwise_append.mpr ⟨h.sorted.sublist hsub, List.pairwise_singleton _ _, ?_⟩
      intro t ht u hu
      rw [List.mem_singleton.mp hu]
      exact h.le hpast t (hsub.subset ht)

end SlidingWindowRateLimiter

/-! ### The buckets -/

theorem elapsed_nonneg {now last : Int} (h : last ≤ now) : 0 ≤ elapsed now last := by
  have : 0 ≤ (now - last).tdiv 1000 := Int.tdiv_nonneg (by omega) (by decide)
  have hq : (0 : ℚ) ≤ ((now - last).tdiv 1000 : Int) := by exact_mod_cast this
  rw [elapsed]
  positivity

/-- Microseconds cut off are lost to the bucket. -/
theorem elapsed_le {now last : Int} (h : last ≤ now) : elapsed now last ≤ (now - last) / 1000000000 := by
  have hcut : (now - last).tdiv 1000 * 1000 ≤ now - last := by
    rw [Int.tdiv_eq_ediv_of_nonneg (by omega)]
    exact Int.ediv_mul_le _ (by decide)
  have hq : (((now - last).tdiv 1000 : Int) : ℚ) * 1000 ≤ now - last := by exact_mod_cast hcut
  rw [elapsed, div_le_div_iff₀ (by norm_num) (by norm_num)]
  linarith

theorem complement_create (rate b : ℚ) (now : Int) :
    Complement (.create rate b now) (.create rate b now) where
  rate := rfl
  capacity := rfl
  lastTime := rfl
  level := add_zero b

theorem Complement.next {t : TokenBucketRateLimiter} {l : LeakyBucketRateLimiter} (h : Complement t l) (now : Int) :
    (t.acquire now).1 = (l.acquire now).1 ∧ Complement (t.acquire now).2 (l.acquire now).2 := by
  have hlevel := h.level
  -- a level over the top of one bucket is a level under the bottom of the other
  have hrefill : (if t.burst < t.tokens + elapsed now t.lastTime * t.rate then t.burst
        else t.tokens + elapsed now t.lastTime * t.rate) +
      (if l.water - elapsed now l.lastTime * l.rate < 0 then 0 else l.water - elapsed now l.lastTime * l.rate) =
      l.capacity := by
    rw [h.rate, h.lastTime, h.capacity]
    split <;> split <;> linarith
  rw [TokenBucketRateLimiter.acquire, LeakyBucketRateLimiter.acquire]
  generalize (if t.burst < t.tokens + elapsed now t.lastTime * t.rate then t.burst
        else t.tokens + elapsed now t.lastTime * t.rate) = tokens at hrefill ⊢
  generalize (if l.water - elapsed now l.lastTime * l.rate < 0 then 0
        else l.water - elapsed now l.lastTime * l.rate) = water at hrefill ⊢
  by_cases hlow : tokens < 1
  · rw [if_pos hlow, if_pos (by linarith)]
    exact ⟨rfl, h.rate, h.capacity, rfl, hrefill⟩
  · rw [if_neg hlow, if_neg (by linarith)]
    refine ⟨rfl, h.rate, h.capacity, rfl, ?_⟩
    show tokens - 1 + (water + 1) = l.capacity
    linarith

namespace TokenBucketRateLimiter

/-- A bucket with no less than nothing and no more than it can hold. -/
structure Filled (r b : ℚ) (last : Int) (l : TokenBucketRateLimiter) : Prop where
  rate : l.rate = r
  burst : l.burst = b
  lastTime : l.lastTime = last
  nonneg : 0 ≤ l.tokens
  le_burst : l.tokens ≤ b

variable {r b hi : ℚ} {last now : Int} {l : TokenBucketRateLimiter}

/-- A call adds what has passed since the last one at most, and an admission takes one. -/
theorem Filled.next (h : Filled r b last l) (hrate : 0 ≤ r) (hburst : 0 ≤ b) (hnow : last ≤ now) :
    Filled r b now (l.acquire now).2 ∧
      (l.acquire now).2.tokens + (if (l.acquire now).1 then 1 else 0) ≤ b ∧
      (l.acquire now).2.tokens + (if (l.acquire now).1 then 1 else 0) ≤
        l.tokens + r * ((now - last) / 1000000000) := by
  have hgain : 0 ≤ elapsed now l.lastTime * l.rate := by
    rw [h.rate, h.lastTime]
    exact mul_nonneg (elapsed_nonneg hnow) hrate
  have hbound : elapsed now l.lastTime * l.rate ≤ r * ((now - last) / 1000000000) := by
    rw [h.rate, h.lastTime, mul_comm]
    exact mul_le_mul_of_nonneg_left (elapsed_le hnow) hrate
  have hrefill : ∀ tokens, tokens = (if l.burst < l.tokens + elapsed now l.lastTime * l.rate then l.burst
        else l.tokens + elapsed now l.lastTime * l.rate) →
      0 ≤ tokens ∧ tokens ≤ b ∧ tokens ≤ l.tokens + r * ((now - last) / 1000000000) := by
    rintro tokens rfl
    have h0 := h.nonneg
    rw [h.burst]
    split
    · exact ⟨hburst, le_refl _, by linarith⟩
    · exact ⟨by linarith, by linarith, by linarith⟩
  rw [TokenBucketRateLimiter.acquire]
  generalize htokens : (if l.burst < l.tokens + elapsed now l.lastTime * l.rate then l.burst
        else l.tokens + elapsed now l.lastTime * l.rate) = tokens
  obtain ⟨h0, h1, h2⟩ := hrefill tokens htokens.symm
  by_cases hlow : tokens < 1
  · rw [if_pos hlow]
    refine ⟨⟨h.rate, h.burst, rfl, h0, h1⟩, ?_, ?_⟩
    · simpa using h1
    · simpa using h2
  · rw [if_neg hlow]
    refine ⟨⟨h.rate, h.burst, rfl, ?_, ?_⟩, ?_, ?_⟩
    · show 0 ≤ tokens - 1
      linarith
    · show tokens - 1 ≤ b
      linarith
    · simpa using h1
    · simpa using h2

theorem admitted_log_cons (now : Int) (times : List Int) :
    admitted (log acquire l (now :: times)) =
      (if (l.acquire now).1 then [now] else []) ++ admitted (log acquire (l.acquire now).2 times) := by
  rw [log]
  cases (l.acquire now).1 <;> rfl

variable {times : List Int}

theorem le_of_mem_log (h : ∀ t ∈ times, now ≤ t) {t : Int}
    (ht : t ∈ admitted (log acquire l times)) : now ≤ t := by
  induction times generalizing l with
  | nil => cases ht
  | cons u times ih =>
    rw [admitted_log_cons] at ht
    rcases List.mem_append.mp ht with ht | ht
    · split at ht
      · rw [List.mem_singleton.mp ht]
        exact h u List.mem_cons_self
      · cases ht
    · exact ih (fun v hv => h v (List.mem_cons_of_mem _ hv)) ht

/-- What a bucket admits until `hi` is paid from what it has and from what comes in until then. -/
theorem Filled.spend (h : Filled r b last l) (hrate : 0 ≤ r) (hburst : 0 ≤ b) (hlast : (last : ℚ) ≤ hi)
    (hsorted : (last :: times).Pairwise (· ≤ ·)) :
    ((admitted (log acquire l times)).countP (fun t : Int => decide ((t : ℚ) ≤ hi)) : ℚ) ≤
      l.tokens + r * ((hi - last) / 1000000000) := by
  induction times generalizing l last with
  | nil =>
    have h0 := h.nonneg
    have : 0 ≤ r * ((hi - last) / 1000000000) := mul_nonneg hrate (div_nonneg (by linarith) (by norm_num))
    simp only [log, admitted_nil, List.countP_nil, Nat.cast_zero]
    linarith
  | cons now times ih =>
    obtain ⟨hlow, hrest⟩ := List.pairwise_cons.mp hsorted
    have hnow := hlow now List.mem_cons_self
    obtain ⟨hnext, -, hpaid⟩ := h.next hrate hburst hnow
    by_cases hin : (now : ℚ) ≤ hi
    · have hcount := ih hnext hin hrest
      have hsplit : r * ((now - last) / 1000000000) + r * ((hi - now) / 1000000000) =
          r * ((hi - last) / 1000000000) := by ring
      rw [admitted_log_cons, List.countP_append, Nat.cast_add]
      cases hok : (l.acquire now).1 with
      | true =>
        rw [hok] at hpaid
        simp only [if_true, List.countP_singleton, decide_eq_true hin, Nat.cast_one] at hpaid ⊢
        linarith
      | false =>
        rw [hok] at hpaid
        simp only [Bool.false_eq_true, if_false, List.countP_nil, Nat.cast_zero] at hpaid ⊢
        linarith
    · have hzero : (admitted (log acquire l (now :: times))).countP (fun t : Int => decide ((t : ℚ) ≤ hi)) = 0 := by
        rw [List.countP_eq_zero]
        intro t ht hle
        have hnt : now ≤ t := by
          refine le_of_mem_log (fun u hu => ?_) ht
          rcases List.mem_cons.mp hu with rfl | hu
          · exact Int.le_refl _
          · exact (List.pairwise_cons.mp hrest).1 u hu
        have hq : (now : ℚ) ≤ t := by exact_mod_cast hnt
        exact hin (hq.trans (of_decide_eq_true hle))
      have h0 := h.nonneg
      have : 0 ≤ r * ((hi - last) / 1000000000) := mul_nonneg hrate (div_nonneg (by linarith) (by norm_num))
      rw [hzero, Nat.cast_zero]
      linarith

theorem Filled.bound (h : Filled r b last l) (hrate : 0 ≤ r) (hburst : 0 ≤ b) (lo hi : ℚ) (hle : lo ≤ hi)
    (hsorted : (last :: times).Pairwise (· ≤ ·)) :
    ((admitted (log acquire l times)).countP (fun t : Int => decide (lo ≤ (t : ℚ) ∧ (t : ℚ) ≤ hi)) : ℚ) ≤
      b + r * ((hi - lo) / 1000000000) := by
  have hpos : 0 ≤ r * ((hi - lo) / 1000000000) := mul_nonneg hrate (div_nonneg (by linarith) (by norm_num))
  induction times generalizing l last with
  | nil =>
    simp only [log, admitted_nil, List.countP_nil, Nat.cast_zero]
    linarith
  | cons now times ih =>
    obtain ⟨hlow, hrest⟩ := List.pairwise_cons.mp hsorted
    obtain ⟨hnext, hfull, -⟩ := h.next hrate hburst (hlow now List.mem_cons_self)
    rw [admitted_log_cons, List.countP_append, Nat.cast_add]
    by_cases hbefore : (now : ℚ) < lo
    · -- not in the interval yet
      have hzero : (if (l.acquire now).1 then [now] else []).countP
          (fun t : Int => decide (lo ≤ (t : ℚ) ∧ (t : ℚ) ≤ hi)) = 0 := by
        rw [List.countP_eq_zero]
        intro t ht hin
        split at ht
        · rw [List.mem_singleton.mp ht] at hin
          exact absurd hbefore (not_lt.mpr (of_decide_eq_true hin).1)
        · cases ht
      rw [hzero, Nat.cast_zero, zero_add]
      exact ih hnext hrest
    · -- the first call in the interval: a full bucket at most, and what comes in after it
      have hone : (((if (l.acquire now).1 then [now] else []).countP
          (fun t : Int => decide (lo ≤ (t : ℚ) ∧ (t : ℚ) ≤ hi)) : ℕ) : ℚ) ≤ if (l.acquire now).1 then 1 else 0 := by
        cases (l.acquire now).1 with
        | false => exact le_refl _
        | true => exact_mod_cast List.countP_le_length
      have hless : (admitted (log acquire (l.acquire now).2 times)).countP
          (fun t : Int => decide (lo ≤ (t : ℚ) ∧ (t : ℚ) ≤ hi)) ≤
          (admitted (log acquire (l.acquire now).2 times)).countP (fun t : Int => decide ((t : ℚ) ≤ hi)) :=
        List.countP_mono_left fun t _ ht => decide_eq_true (of_decide_eq_true ht).2
      by_cases hin : (now : ℚ) ≤ hi
      · have hspend := hnext.spend hrate hburst hin hrest
        have hlate : r * ((hi - now) / 1000000000) ≤ r * ((hi - lo) / 1000000000) :=
          mul_le_mul_of_nonneg_left (by linarith) hrate
        have hcast := Nat.cast_le (α := ℚ).mpr hless
        linarith
      · have hnone : ∀ t ∈ (if (l.acquire now).1 then [now] else []) ++
            admitted (log acquire (l.acquire now).2 times), ¬(t : ℚ) ≤ hi := by
          rw [← admitted_log_cons]
          intro t ht hle
          have hnt : now ≤ t := by
            refine le_of_mem_log (fun u hu => ?_) ht
            rcases List.mem_cons.mp hu with rfl | hu
            · exact Int.le_refl _
            · exact (List.pairwise_cons.mp hrest).1 u hu
          have hq : (now : ℚ) ≤ t := by exact_mod_cast hnt
          exact hin (hq.trans hle)
        rw [← Nat.cast_add, ← List.countP_append, List.countP_eq_zero.mpr, Nat.cast_zero]
        · linarith
        · exact fun t ht hin => hnone t ht (of_decide_eq_true hin).2

end TokenBucketRateLimiter

/-! ## Top theorem -/

/-- At most `maxRequests` in every half-open interval of the window's length, and as many just before a refusal. -/
theorem slidingWindow_exact (maxRequests windowMs : Int) (hmax : 1 ≤ maxRequests) (times : List Int)
    (hsorted : times.Pairwise (· ≤ ·)) (calls : List (Int × Bool))
    (hcalls : calls = log SlidingWindowRateLimiter.acquire { maxRequests, windowMs } times) :
    (∀ a : Int, ((admitted calls).countP fun t => decide (a ≤ t ∧ t < a + windowMs * 1000000)) ≤ maxRequests) ∧
    (∀ a : Int, ((admitted calls).countP fun t => decide (a < t ∧ t ≤ a + windowMs * 1000000)) ≤ maxRequests) ∧
    ∀ p t ok q, calls = p ++ (t, ok) :: q →
      (ok = false ↔ maxRequests ≤ (admitted p).countP fun s => decide (t - windowMs * 1000000 < s)) := by
  have hexact : ∀ p t ok q, calls = p ++ (t, ok) :: q →
      (ok = false ↔ maxRequests ≤ (admitted p).countP fun s => decide (t - windowMs * 1000000 < s)) := by
    intro p t ok q heq
    obtain ⟨l, hholds, hpast, rfl⟩ := log_spec
      (SlidingWindowRateLimiter.Holds { maxRequests, windowMs } · ·) (fun past l now h hle => h.next hle) []
      (SlidingWindowRateLimiter.holds_create _ rfl) hsorted (by simp) (hcalls.symm.trans heq)
    rw [List.nil_append] at hholds hpast
    have hcount := hholds.countP hpast
    rw [SlidingWindowRateLimiter.window] at hcount
    rw [SlidingWindowRateLimiter.acquire_eq_false, hholds.maxRequests, hcount]
  have hfew : ∀ p t q, calls = p ++ (t, true) :: q →
      (admitted p).countP (fun x => decide (t - windowMs * 1000000 < x)) < maxRequests.toNat := by
    intro p t q heq
    have hnot := (not_congr (hexact p t true q heq)).mp (by simp)
    omega
  refine ⟨?_, ?_, hexact⟩
  · intro a
    have hle := countP_admitted_le hfew (fun t => a ≤ t ∧ t < a + windowMs * 1000000)
      fun x y hx hy => (by omega)
    omega
  · intro a
    have hle := countP_admitted_le hfew (fun t => a < t ∧ t ≤ a + windowMs * 1000000)
      fun x y hx hy => (by omega)
    omega

theorem slidingWindow_exact_two :
    (∀ a : Int, ((admitted (log SlidingWindowRateLimiter.acquire ⟨2, 1000, []⟩ [0, 5, 10, 1000000000])).countP
      fun t => decide (a ≤ t ∧ t < a + 1000 * 1000000)) ≤ (2 : Int)) ∧
    admitted (log SlidingWindowRateLimiter.acquire ⟨2, 1000, []⟩ [0, 5, 10, 1000000000]) = [0, 5, 1000000000] :=
  ⟨(slidingWindow_exact 2 1000 (by decide) [0, 5, 10, 1000000000] (by decide) _ rfl).1, by decide⟩

/-- The buckets admit the same calls, and no more than `b + rate * T` of them in `T` seconds. -/
theorem buckets_agree (rate b : ℚ) (hrate : 0 ≤ rate) (hb : 0 ≤ b) (created : Int) (times : List Int)
    (hsorted : (created :: times).Pairwise (· ≤ ·)) :
    log TokenBucketRateLimiter.acquire (.create rate b created) times =
      log LeakyBucketRateLimiter.acquire (.create rate b created) times ∧
    ∀ lo T : ℚ, 0 ≤ T → ((admitted (log TokenBucketRateLimiter.acquire (.create rate b created) times)).countP
      (fun t : Int => decide (lo ≤ (t : ℚ) ∧ (t : ℚ) ≤ lo + T * 1000000000)) : ℚ) ≤ b + rate * T := by
  refine ⟨log_eq Complement (fun now t l h => h.next now) (complement_create rate b created) times, ?_⟩
  intro lo T hT
  have hfilled : TokenBucketRateLimiter.Filled rate b created (.create rate b created) :=
    ⟨rfl, rfl, rfl, hb, le_refl _⟩
  have hbound := hfilled.bound hrate hb lo (lo + T * 1000000000) (by linarith) hsorted
  rwa [show (lo + T * 1000000000 - lo) / 1000000000 = T by ring] at hbound

theorem buckets_agree_test :
    log TokenBucketRateLimiter.acquire (.create 100 2 0) [0, 0, 0, 10000000] =
      log LeakyBucketRateLimiter.acquire (.create 100 2 0) [0, 0, 0, 10000000] :=
  (buckets_agree 100 2 (by decide) (by decide) 0 [0, 0, 0, 10000000] (by decide)).1

end Http
