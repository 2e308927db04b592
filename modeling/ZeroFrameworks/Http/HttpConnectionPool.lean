import Mathlib.Data.List.Nodup
import ZeroFrameworks.Kv.Bytes

/-!
# The pool of HTTP client connections

`getConnection` takes the first idle connection that passes its test or makes a new one, and the deleter of the
pointer that it returns is the release.  Both compare the creation time of the connection, which nobody sets, and
`m_maxAliveTime` with the clock.

    every operation Kept ↔ every operation Heeded   (contract_iff)
-/

namespace Http

/-! ## Algorithm -/

/-- `born` is when the connection was made. -/
structure HttpConnection where
  createTime : Nat
  request : Nat
  connected : Bool
  born : Nat

def HttpConnection.new (now : Nat) : HttpConnection := ⟨0, 0, true, now⟩

/-- Connections are named by the order in which they were made.  `lent` are those that were handed out and not
released. -/
structure HttpConnectionPool where
  maxSize : Nat
  maxAliveTime : Nat
  maxRequest : Nat
  conn : Nat → HttpConnection
  conns : List Nat
  total : Int
  lent : List Nat
  made : Nat

/-- `ok`: the connect succeeds, where one is made. -/
inductive ClientOp where
  | getConnection (now : Nat) (ok : Bool)
  | release (id : Nat) (now : Nat)
  /-- A connection is closed or lost. -/
  | disconnect (id : Nat)

namespace HttpConnectionPool

def new (maxSize maxAliveTime maxRequest : Nat) : HttpConnectionPool :=
  ⟨maxSize, maxAliveTime, maxRequest, fun _ => .new 0, [], 0, [], 0⟩

/-- An idle connection that `getConnection` throws away. -/
def invalid (s : HttpConnectionPool) (now : Nat) (id : Nat) : Bool :=
  !(s.conn id).connected || decide (now < (s.conn id).createTime + s.maxAliveTime)

def getConnection (now : Nat) (ok : Bool) (s : HttpConnectionPool) : Option Nat × HttpConnectionPool :=
  let total := Kv.i32 (s.total - (s.conns.takeWhile (s.invalid now)).length)
  match s.conns.dropWhile (s.invalid now) with
  | id :: rest => (some id, { s with conns := rest, total := total, lent := id :: s.lent })
  | [] =>
    if ok then
      (some s.made,
        { s with
          conn := Function.update s.conn s.made (.new now)
          conns := []
          total := Kv.i32 (total + 1)
          lent := s.made :: s.lent
          made := s.made + 1 })
    else (none, { s with conns := [], total := total })

def ReleasePtr (id : Nat) (now : Nat) (s : HttpConnectionPool) : HttpConnectionPool :=
  let c := { s.conn id with request := (s.conn id).request + 1 }
  let s := { s with conn := Function.update s.conn id c, lent := s.lent.erase id }
  if !c.connected || decide (now ≤ c.createTime + s.maxAliveTime) || decide (s.maxRequest ≤ c.request) then
    { s with total := Kv.i32 (s.total - 1) }
  else { s with conns := s.conns ++ [id] }

/-- What is released was handed out. -/
def step (s : HttpConnectionPool) : ClientOp → Option HttpConnectionPool
  | .getConnection now ok => some (s.getConnection now ok).2
  | .release id now => if id ∈ s.lent then some (s.ReleasePtr id now) else none
  | .disconnect id => some { s with conn := Function.update s.conn id { s.conn id with connected := false } }

/-! ## Specification -/

def Young (s : HttpConnectionPool) (id now : Nat) : Prop := now < (s.conn id).born + s.maxAliveTime

/-- A connection that may be handed out. -/
structure Fit (s : HttpConnectionPool) (id now : Nat) : Prop where
  connected : (s.conn id).connected = true
  young : s.Young id now
  fresh : (s.conn id).request < s.maxRequest

structure Balanced (s : HttpConnectionPool) : Prop where
  total : s.total = ((s.lent.length + s.conns.length : Nat) : Int)
  size : s.total ≤ s.maxSize

/-- What the step does as the pool is meant to. -/
def Kept (s : HttpConnectionPool) (op : ClientOp) (s' : HttpConnectionPool) : Prop :=
  s'.Balanced ∧ match op with
    | .getConnection now ok => ∀ id, (s.getConnection now ok).1 = some id → s'.Fit id now
    | .release id now => s'.Fit id now → id ∈ s'.conns
    | .disconnect _ => True

/-- An idle connection that is about to be reused is young.  Where a new one is about to be made, there is room for it
(also in the counter), and the limits of age and requests let it pass.  A connection that may go on being used is
released after the clock has passed `m_maxAliveTime`. -/
def Heeded (s : HttpConnectionPool) (op : ClientOp) (_ : HttpConnectionPool) : Prop :=
  match op with
  | .getConnection now ok =>
    match s.conns.find? fun id => !s.invalid now id with
    | some id => s.Young id now
    | none => ok = true → s.lent.length < s.maxSize ∧ s.lent.length + 1 < 2 ^ 31 ∧ 0 < s.maxAliveTime ∧ 0 < s.maxRequest
  | .release id now =>
    (s.conn id).connected = true → s.Young id now → (s.conn id).request + 1 < s.maxRequest → s.maxAliveTime < now
  | .disconnect _ => True

/-- `P` holds of every step that a run takes. -/
def Along (P : HttpConnectionPool → ClientOp → HttpConnectionPool → Prop) (s : HttpConnectionPool) :
    List ClientOp → Prop
  | [] => True
  | op :: ops => ∀ s' ∈ s.step op, P s op s' ∧ s'.Along P ops

/-! ## Lemmas -/

/-- What holds of every pool. -/
structure Sane (s : HttpConnectionPool) : Prop where
  created : ∀ id, (s.conn id).createTime = 0
  distinct : (s.lent ++ s.conns).Nodup
  older : ∀ id ∈ s.lent ++ s.conns, id < s.made
  served : ∀ id ∈ s.conns, (s.conn id).request < s.maxRequest
  range : s.total < 2 ^ 31

theorem i32_natCast_iff (m : Nat) : Kv.i32 (m : Int) = m ↔ m < 2 ^ 31 := by
  refine ⟨fun h => ?_, Kv.i32_natCast⟩
  have := Kv.i32_lt (m : Int)
  rw [h] at this
  omega

variable {s s' : HttpConnectionPool}

theorem sane_new (maxSize maxAliveTime maxRequest : Nat) : (new maxSize maxAliveTime maxRequest).Sane :=
  ⟨fun _ => rfl, List.nodup_nil, fun _ h => (by cases h), fun _ h => (by cases h), show (0 : Int) < 2 ^ 31 by decide⟩

theorem balanced_new (maxSize maxAliveTime maxRequest : Nat) : (new maxSize maxAliveTime maxRequest).Balanced :=
  ⟨rfl, Int.natCast_nonneg _⟩

/-! ### `getConnection` -/

theorem getConnection_reuse {now id : Nat} (ok : Bool) (hfind : s.conns.find? (fun id => !s.invalid now id) = some id) :
    ∃ front rest, s.conns = front ++ id :: rest ∧ s.invalid now id = false ∧ s.getConnection now ok =
      (some id, { s with conns := rest, total := Kv.i32 (s.total - front.length), lent := id :: s.lent }) := by
  obtain ⟨hid, front, rest, hconns, hfront⟩ := List.find?_eq_some_iff_append.mp hfind
  have hid' : s.invalid now id = false := by simpa using hid
  have hfront' : ∀ x ∈ front, s.invalid now x = true := fun x hx => by simpa using hfront x hx
  refine ⟨front, rest, hconns, hid', ?_⟩
  unfold getConnection
  rw [hconns, List.takeWhile_append_of_pos hfront', List.dropWhile_append_of_pos hfront',
    List.takeWhile_cons_of_neg (by rw [hid']; simp), List.dropWhile_cons_of_neg (by rw [hid']; simp), List.append_nil]

theorem getConnection_fresh {now : Nat} {ok : Bool} (hfind : s.conns.find? (fun id => !s.invalid now id) = none) :
    s.getConnection now ok =
      if ok then
        (some s.made,
          { s with
            conn := Function.update s.conn s.made (.new now)
            conns := []
            total := Kv.i32 (Kv.i32 (s.total - s.conns.length) + 1)
            lent := s.made :: s.lent
            made := s.made + 1 })
      else (none, { s with conns := [], total := Kv.i32 (s.total - s.conns.length) }) := by
  have hall : ∀ x ∈ s.conns, s.invalid now x = true := fun x hx => by
    simpa using List.find?_eq_none.mp hfind x hx
  unfold getConnection
  rw [List.takeWhile_eq_self_iff.mpr hall, List.dropWhile_eq_nil_iff.mpr hall]

theorem Sane.not_invalid (h : s.Sane) {now id : Nat} (hid : s.invalid now id = false) :
    (s.conn id).connected = true ∧ s.maxAliveTime ≤ now := by
  unfold invalid at hid
  rw [Bool.or_eq_false_iff, Bool.not_eq_false', decide_eq_false_iff_not, h.created id] at hid
  exact ⟨hid.1, by omega⟩

theorem Sane.getConnection (h : s.Sane) (now : Nat) (ok : Bool) : (s.getConnection now ok).2.Sane := by
  cases hfind : s.conns.find? fun id => !s.invalid now id with
  | some id =>
    obtain ⟨front, rest, hconns, -, heq⟩ := getConnection_reuse ok hfind
    have hsub : (rest).Sublist s.conns := by
      rw [hconns]
      exact (List.sublist_cons_self id rest).trans (List.sublist_append_right front _)
    rw [heq]
    refine ⟨h.created, ?_, fun x hx => ?_, fun x hx => h.served x (hsub.subset hx), Kv.i32_lt _⟩
    · have hnodup := h.distinct
      rw [hconns] at hnodup
      have hsub' : (s.lent ++ id :: rest).Sublist (s.lent ++ (front ++ id :: rest)) :=
        (List.sublist_append_right front _).append_left s.lent
      exact (List.perm_middle.nodup_iff).mp (hnodup.sublist hsub')
    · refine h.older x ?_
      have hx : x ∈ id :: (s.lent ++ rest) := hx
      rw [hconns]
      simp only [List.mem_cons, List.mem_append] at hx ⊢
      rcases hx with rfl | hx | hx
      · exact .inr (.inr (.inl rfl))
      · exact .inl hx
      · exact .inr (.inr (.inr hx))
  | none =>
    rw [getConnection_fresh hfind]
    cases ok with
    | false =>
      refine ⟨h.created, ?_, fun x hx => ?_, fun x hx => (by cases hx), Kv.i32_lt _⟩
      · show (s.lent ++ []).Nodup
        rw [List.append_nil]
        exact h.distinct.sublist (List.sublist_append_left _ _)
      · have hx : x ∈ s.lent ++ [] := hx
        rw [List.append_nil] at hx
        exact h.older x (List.mem_append_left _ hx)
    | true =>
      refine ⟨fun x => ?_, ?_, fun x hx => ?_, fun x hx => (by cases hx), Kv.i32_lt _⟩
      · show (Function.update s.conn s.made (.new now) x).createTime = 0
        by_cases hx : x = s.made
        · rw [hx, Function.update_self]
          rfl
        · rw [Function.update_of_ne hx]
          exact h.created x
      · show (s.made :: s.lent ++ []).Nodup
        rw [List.append_nil, List.nodup_cons]
        refine ⟨fun hin => Nat.lt_irrefl _ (h.older s.made (List.mem_append_left _ hin)), ?_⟩
        exact h.distinct.sublist (List.sublist_append_left _ _)
      · show x < s.made + 1
        have hx : x ∈ s.made :: s.lent ++ [] := hx
        rw [List.append_nil] at hx
        rcases List.mem_cons.mp hx with rfl | hx
        · exact Nat.lt_succ_self _
        · exact Nat.lt_succ_of_lt (h.older x (List.mem_append_left _ hx))

/-- What is handed out is fit, and the counter is right, in the cases that are told. -/
theorem kept_getConnection (h : s.Sane) (hb : s.Balanced) {now : Nat} {ok : Bool}
    (hs : s' = (s.getConnection now ok).2) :
    s.Kept (.getConnection now ok) s' ↔ s.Heeded (.getConnection now ok) s' := by
  have hrange := h.range
  have htotal := hb.total
  have hsize := hb.size
  unfold Kept Heeded
  dsimp only
  cases hfind : s.conns.find? fun id => !s.invalid now id with
  | some id =>
    obtain ⟨front, rest, hconns, hvalid, heq⟩ := getConnection_reuse ok hfind
    obtain ⟨hconnected, hclock⟩ := h.not_invalid hvalid
    rw [heq] at hs
    subst hs
    rw [heq]
    have hcount : s.total - front.length = ((s.lent.length + rest.length + 1 : Nat) : Int) := by
      rw [htotal, hconns, List.length_append, List.length_cons]
      omega
    have hbalanced : Balanced { s with conns := rest, total := Kv.i32 (s.total - front.length), lent := id :: s.lent } := by
      constructor
      · show Kv.i32 (s.total - front.length) = (((s.lent.length + 1) + rest.length : Nat) : Int)
        rw [hcount, Kv.i32_natCast (by omega)]
        omega
      · show Kv.i32 (s.total - front.length) ≤ _
        rw [hcount, Kv.i32_natCast (by omega), ← hcount]
        show _ ≤ (s.maxSize : Int)
        omega
    constructor
    · rintro ⟨-, hfit⟩
      exact (hfit id rfl).young
    · intro hyoung
      refine ⟨hbalanced, fun x hx => ?_⟩
      obtain rfl := Option.some.inj hx
      exact ⟨hconnected, hyoung, h.served _ (by rw [hconns]; simp)⟩
  | none =>
    rw [getConnection_fresh hfind] at hs
    rw [getConnection_fresh hfind]
    have hcount : s.total - s.conns.length = (s.lent.length : Int) := by
      rw [htotal]
      omega
    rw [hcount, Kv.i32_natCast (by omega)] at hs
    cases ok with
    | false =>
      subst hs
      refine ⟨fun _ hok => (by cases hok), fun _ => ⟨⟨?_, ?_⟩, fun x hx => by cases hx⟩⟩
      · show (s.lent.length : Int) = ((s.lent.length + 0 : Nat) : Int)
        rw [Nat.add_zero]
      · show (s.lent.length : Int) ≤ s.maxSize
        omega
    | true =>
      have hadd : (s.lent.length : Int) + 1 = ((s.lent.length + 1 : Nat) : Int) := (Int.natCast_succ _).symm
      rw [hadd, if_pos rfl] at hs
      rw [if_pos rfl]
      have htotal : s'.total = Kv.i32 ((s.lent.length + 1 : Nat) : Int) := by rw [hs]
      have hlength : s'.lent.length + s'.conns.length = s.lent.length + 1 := by rw [hs]; rfl
      have hmax : s'.maxSize = s.maxSize := by rw [hs]
      have hnew : s'.conn s.made = .new now := by
        rw [hs]
        exact Function.update_self ..
      have hfit : s'.Fit s.made now ↔ 0 < s.maxAliveTime ∧ 0 < s.maxRequest := by
        have hlimits : s'.maxAliveTime = s.maxAliveTime ∧ s'.maxRequest = s.maxRequest := by
          rw [hs]
          exact ⟨rfl, rfl⟩
        constructor
        · rintro ⟨-, hyoung, hfresh⟩
          unfold Young at hyoung
          rw [hnew, hlimits.1] at hyoung
          rw [hnew, hlimits.2] at hfresh
          exact ⟨Nat.pos_of_lt_add_right hyoung, hfresh⟩
        · rintro ⟨halive, hrequest⟩
          refine ⟨by rw [hnew]; rfl, ?_, by rw [hnew, hlimits.2]; exact hrequest⟩
          unfold Young
          rw [hnew, hlimits.1]
          exact Nat.lt_add_of_pos_right halive
      constructor
      · rintro ⟨⟨htotal', hsize'⟩, hkept⟩ -
        rw [htotal, hlength] at htotal'
        have hint := (i32_natCast_iff (s.lent.length + 1)).mp htotal'
        rw [htotal, htotal', hmax] at hsize'
        exact ⟨by omega, hint, hfit.mp (hkept s.made rfl)⟩
      · intro hheed
        obtain ⟨hroom, hint, hlimits⟩ := hheed rfl
        have heq := (i32_natCast_iff (s.lent.length + 1)).mpr hint
        refine ⟨⟨by rw [htotal, hlength, heq], by rw [htotal, heq, hmax]; omega⟩, fun x hx => ?_⟩
        obtain rfl := Option.some.inj hx
        exact hfit.mpr hlimits

/-! ### `ReleasePtr` -/

/-- What becomes of a connection that is released. -/
def used (s : HttpConnectionPool) (id : Nat) : HttpConnection :=
  { s.conn id with request := (s.conn id).request + 1 }

theorem Sane.ReleasePtr (h : s.Sane) {id : Nat} (hid : id ∈ s.lent) (now : Nat) : (s.ReleasePtr id now).Sane := by
  have hcreated : ∀ x, (Function.update s.conn id (s.used id) x).createTime = 0 := by
    intro x
    by_cases hx : x = id
    · rw [hx, Function.update_self]
      exact h.created id
    · rw [Function.update_of_ne hx]
      exact h.created x
  have hidle : id ∉ s.conns := fun hin => List.disjoint_of_nodup_append h.distinct hid hin
  have hserved : ∀ x ∈ s.conns, (Function.update s.conn id (s.used id) x).request < s.maxRequest := by
    intro x hx
    rw [Function.update_of_ne (fun heq => hidle (by rw [← heq]; exact hx))]
    exact h.served x hx
  have hsub : (s.lent.erase id ++ s.conns).Sublist (s.lent ++ s.conns) := List.erase_sublist.append_right _
  unfold HttpConnectionPool.ReleasePtr
  dsimp only
  split
  next => exact ⟨hcreated, h.distinct.sublist hsub, fun x hx => h.older x (hsub.subset hx), hserved, Kv.i32_lt _⟩
  next hkeep =>
    have hperm : (s.lent.erase id ++ (s.conns ++ [id])).Perm (s.lent ++ s.conns) := by
      refine List.Perm.trans ?_ ((List.perm_cons_erase hid).symm.append_right s.conns)
      rw [← List.append_assoc]
      exact List.perm_append_comm
    refine ⟨hcreated, hperm.nodup_iff.mpr h.distinct, fun x hx => h.older x (hperm.mem_iff.mp hx), fun x hx => ?_, h.range⟩
    rcases List.mem_append.mp hx with hx | hx
    · exact hserved x hx
    · obtain rfl := List.mem_singleton.mp hx
      have hrequest : ¬ s.maxRequest ≤ (s.used x).request := by
        intro hle
        refine hkeep ?_
        rw [Bool.or_eq_true, decide_eq_true_eq]
        exact .inr hle
      show (Function.update s.conn x (s.used x) x).request < s.maxRequest
      rw [Function.update_self]
      exact Nat.lt_of_not_le hrequest

theorem kept_release (h : s.Sane) (hb : s.Balanced) {id : Nat} (hid : id ∈ s.lent) {now : Nat}
    (hs : s' = s.ReleasePtr id now) : s.Kept (.release id now) s' ↔ s.Heeded (.release id now) s' := by
  have hrange := h.range
  have htotal := hb.total
  have hsize := hb.size
  have hidle : id ∉ s.conns := fun hin => List.disjoint_of_nodup_append h.distinct hid hin
  have hpos := List.length_pos_of_mem hid
  have herase := List.length_erase_of_mem hid
  unfold HttpConnectionPool.ReleasePtr at hs
  dsimp only at hs
  have hfit : s'.Fit id now ↔ (s.conn id).connected = true ∧ s.Young id now ∧ (s.conn id).request + 1 < s.maxRequest := by
    have hconn : s'.conn id = s.used id ∧ s'.maxAliveTime = s.maxAliveTime ∧ s'.maxRequest = s.maxRequest := by
      rw [hs]
      split
      · exact ⟨Function.update_self .., rfl, rfl⟩
      · exact ⟨Function.update_self .., rfl, rfl⟩
    obtain ⟨hconn, halive, hrequest⟩ := hconn
    constructor
    · rintro ⟨h1, h2, h3⟩
      unfold Young at h2
      rw [hconn] at h1 h2 h3
      rw [halive] at h2
      rw [hrequest] at h3
      exact ⟨h1, h2, h3⟩
    · rintro ⟨h1, h2, h3⟩
      refine ⟨?_, ?_, ?_⟩
      · rw [hconn]
        exact h1
      · unfold Young
        rw [hconn, halive]
        exact h2
      · rw [hconn, hrequest]
        exact h3
  unfold Kept Heeded
  dsimp only
  rw [hfit]
  split at hs
  next hdrop =>
    subst hs
    have hbalanced : Kv.i32 (s.total - 1) = (((s.lent.erase id).length + s.conns.length : Nat) : Int) := by
      rw [show s.total - 1 = (((s.lent.erase id).length + s.conns.length : Nat) : Int) by omega]
      exact Kv.i32_natCast (by omega)
    constructor
    · rintro ⟨-, hkept⟩ h1 h2 h3
      exact absurd (hkept ⟨h1, h2, h3⟩) hidle
    · intro hheed
      refine ⟨⟨hbalanced, ?_⟩, ?_⟩
      · show Kv.i32 (s.total - 1) ≤ s.maxSize
        rw [hbalanced]
        omega
      · rintro ⟨h1, h2, h3⟩
        have hclock := hheed h1 h2 h3
        simp only [Bool.or_eq_true, Bool.not_eq_true', decide_eq_true_eq, h1, Bool.true_eq_false, false_or, h.created id] at hdrop
        omega
  next hkeep =>
    subst hs
    simp only [Bool.or_eq_true, Bool.not_eq_true', decide_eq_true_eq, not_or, h.created id] at hkeep
    constructor
    · rintro - - - -
      omega
    · intro _
      refine ⟨⟨?_, hb.size⟩, fun _ => List.mem_append_right _ (List.mem_singleton_self id)⟩
      show s.total = (((s.lent.erase id).length + (s.conns ++ [id]).length : Nat) : Int)
      rw [List.length_append, List.length_singleton]
      omega

/-! ### Steps and runs -/

theorem Sane.step (h : s.Sane) {op : ClientOp} (hstep : s.step op = some s') : s'.Sane := by
  cases op with
  | getConnection now ok =>
    obtain rfl := Option.some.inj hstep
    exact h.getConnection now ok
  | release id now =>
    obtain ⟨hid, hs⟩ := Option.ite_none_right_eq_some.mp hstep
    obtain rfl := Option.some.inj hs
    exact h.ReleasePtr hid now
  | disconnect id =>
    obtain rfl := Option.some.inj hstep
    have hconn : ∀ x, (Function.update s.conn id { s.conn id with connected := false } x).createTime = (s.conn x).createTime ∧
        (Function.update s.conn id { s.conn id with connected := false } x).request = (s.conn x).request := by
      intro x
      by_cases hx : x = id
      · rw [hx, Function.update_self]
        exact ⟨rfl, rfl⟩
      · rw [Function.update_of_ne hx]
        exact ⟨rfl, rfl⟩
    refine ⟨fun x => (hconn x).1.trans (h.created x), h.distinct, h.older, fun x hx => ?_, h.range⟩
    exact (hconn x).2.trans_lt (h.served x hx)

theorem kept_iff (h : s.Sane) (hb : s.Balanced) {op : ClientOp} (hstep : s.step op = some s') :
    s.Kept op s' ↔ s.Heeded op s' := by
  cases op with
  | getConnection now ok => exact kept_getConnection h hb (Option.some.inj hstep).symm
  | release id now =>
    obtain ⟨hid, hs⟩ := Option.ite_none_right_eq_some.mp hstep
    exact kept_release h hb hid (Option.some.inj hs).symm
  | disconnect id =>
    obtain rfl := Option.some.inj hstep
    exact ⟨fun _ => trivial, fun _ => ⟨⟨hb.total, hb.size⟩, trivial⟩⟩

theorem along_iff (h : s.Sane) (hb : s.Balanced) (ops : List ClientOp) : s.Along Kept ops ↔ s.Along Heeded ops := by
  induction ops generalizing s with
  | nil => exact Iff.rfl
  | cons op ops ih =>
    constructor
    · intro hkept s' hs
      obtain ⟨hop, hrest⟩ := hkept s' hs
      exact ⟨(kept_iff h hb hs).mp hop, (ih (h.step hs) hop.1).mp hrest⟩
    · intro hheed s' hs
      obtain ⟨hop, hrest⟩ := hheed s' hs
      have hkept := (kept_iff h hb hs).mpr hop
      exact ⟨hkept, (ih (h.step hs) hkept.1).mpr hrest⟩

/-! ## Top theorem -/

theorem contract_iff (maxSize maxAliveTime maxRequest : Nat) (ops : List ClientOp) :
    (new maxSize maxAliveTime maxRequest).Along Kept ops ↔ (new maxSize maxAliveTime maxRequest).Along Heeded ops :=
  along_iff (sane_new maxSize maxAliveTime maxRequest) (balanced_new maxSize maxAliveTime maxRequest) ops

/-- A connection is reused an hour after it was made. -/
def reusedLate : List ClientOp := [.getConnection (2 ^ 41) true, .release 0 (2 ^ 41), .getConnection (2 ^ 41 + 3600000) true]

/-- Two connections are asked for. -/
def askedTwice : List ClientOp := [.getConnection (2 ^ 41) true, .getConnection (2 ^ 41) true]

/-- Connections outlive `m_maxAliveTime` and outnumber `m_maxSize`. -/
theorem contract_broken : ¬ (new 1 1000 100).Along Kept reusedLate ∧ ¬ (new 1 1000 100).Along Kept askedTwice := by
  constructor
  · intro h
    have hfit := (((h _ rfl).2 _ rfl).2 _ rfl).1.2 0 (by decide)
    have hyoung := hfit.young
    revert hyoung
    unfold Young
    decide
  · intro h
    have hsize := ((h _ rfl).2 _ rfl).1.1.size
    revert hsize
    decide

end HttpConnectionPool

end Http
