import Mathlib.Data.Finset.Card
import Mathlib.Data.Fintype.Card
import ZeroFrameworks.Rpc.Sentinel

/-!
# Election safety

A sentinel gives at most one vote in a term, and its term never goes back.  So two sentinels that each got
a quorum of votes in one term are the same one, and `takeLead` makes a sentinel the leader only in a term
in which it has a quorum.

`becomeLeader` is a section of its own, which makes the sentinel the leader of the term it is in by then.
If that is the term it has won, nothing is lost:

    Along cfg Steady {} events → OneLeader ((events.take n).foldl (step cfg) {})

Without it there may be two leaders in one term (`two_leaders`).
-/

namespace Rpc

/-! ## Invariant -/

def Stage.granted : Stage → Bool
  | .sent => false
  | .handled ok => ok
  | .answered ok _ => ok

namespace Exchange

variable {N : Type}

def Asks (x : Exchange N) (term : Nat) : Prop := ∃ id, x.request = .requestVote term id

/-- The exchange is a vote in `term`. -/
def Grants (x : Exchange N) (term : Nat) : Prop := x.Asks term ∧ x.stage.granted = true

end Exchange

namespace Cluster

variable {N : Type}

/-- `votes` are the sentinel's own and one for each of the exchanges before `bound` that it counted. -/
def Counted (c : Cluster N) (i : N) (term votes bound : Nat) : Prop :=
  ∃ S : Finset Nat, votes = S.card + 1 ∧
    ∀ k ∈ S, k < bound ∧ ∃ x, c.exchanges[k]? = some x ∧ x.caller = i ∧ x.Grants term

section quorum

variable [DecidableEq N] [Fintype N] (cfg : Config N) (c : Cluster N) (i : N)

def supporters (term : Nat) : Finset N := Finset.univ.filter fun v => c.ballots v term = some i

def Elected (term : Nat) : Prop := cfg.quorum i ≤ (c.supporters i term).card

/-- A quorum, if the sentinel itself is one of the supporters. -/
def Backed (term : Nat) : Prop := cfg.quorum i ≤ ((c.supporters i term).erase i).card + 1

/-- What the thread of `i` knows at a point, in `term`. -/
def PointOk (term : Nat) (p : Point N) : Prop :=
  match p with
  | .poll t _ votes => t ≤ term ∧ c.Counted i t votes c.exchanges.length
  | .requestVote t _ votes call =>
    t ≤ term ∧ c.Counted i t votes call ∧
      ∃ x, c.exchanges[call]? = some x ∧ x.caller = i ∧ x.Asks t
  | .takeLead t => Backed cfg c i t
  | .becomeLeader t => Elected cfg c i t
  | _ => True

structure NodeOk (m : SentinelManager) (p : Point N) : Prop where
  standing : m.role = .candidate → c.ballots i m.currentTerm = some i
  elected : m.role = .leader → Elected cfg c i m.currentTerm
  point : PointOk cfg c i m.currentTerm p

end quorum

/-- Votes are in terms that the voter has reached, and requests in terms that the caller has reached.
A vote is the answer to one request of another sentinel. -/
structure VotesOk (c : Cluster N) : Prop where
  voted : ∀ v term i, c.ballots v term = some i → term ≤ (c.node v).currentTerm
  asked : ∀ (k : Nat) (x : Exchange N) term, c.exchanges[k]? = some x → x.Asks term →
    term ≤ (c.node x.caller).currentTerm
  cast : ∀ (k : Nat) (x : Exchange N) term, c.exchanges[k]? = some x → x.Grants term →
    c.ballots x.peer term = some x.caller ∧ x.peer ≠ x.caller
  once : ∀ (k l : Nat) (x y : Exchange N) term, c.exchanges[k]? = some x → c.exchanges[l]? = some y →
    x.Grants term → y.Grants term → x.peer = y.peer → k = l

structure Sound [DecidableEq N] [Fintype N] (cfg : Config N) (c : Cluster N) : Prop where
  votes : VotesOk c
  nodes : ∀ i, NodeOk cfg c i (c.node i) (c.point i)

/-- Votes stay and exchanges go on. -/
structure Grows (c c' : Cluster N) : Prop where
  ballots : ∀ v term i, c.ballots v term = some i → c'.ballots v term = some i
  exchanges : ∀ (k : Nat) (x : Exchange N), c.exchanges[k]? = some x →
    ∃ y, c'.exchanges[k]? = some y ∧ y.caller = x.caller ∧ y.request = x.request ∧
      (x.stage.granted = true → y.stage.granted = true)

/-! ## Lemmas -/

variable {p : Point N} {m : SentinelManager}

section grows

variable {c c' : Cluster N} {i : N} {term votes : Nat}

theorem Grows.length_le (h : Grows c c') : c.exchanges.length ≤ c'.exchanges.length := by
  by_contra hlt
  have hk : c'.exchanges.length < c.exchanges.length := by omega
  obtain ⟨y, hy, -⟩ := h.exchanges _ _ (List.getElem?_eq_getElem hk)
  rw [List.getElem?_eq_none (Nat.le_refl _)] at hy
  cases hy

theorem Grows.counted (h : Grows c c') {b b' : Nat} (hb : b ≤ b') (hc : c.Counted i term votes b) :
    c'.Counted i term votes b' := by
  obtain ⟨S, hS, hk⟩ := hc
  refine ⟨S, hS, ?_⟩
  intro k hkS
  obtain ⟨hlt, x, hx, hi, ⟨id, hr⟩, hg⟩ := hk k hkS
  obtain ⟨y, hy, hcaller, hrequest, hgranted⟩ := h.exchanges k x hx
  exact ⟨by omega, y, hy, hcaller.trans hi, ⟨id, hrequest.trans hr⟩, hgranted hg⟩

variable [DecidableEq N] [Fintype N] {cfg : Config N}

theorem Grows.supporters (h : Grows c c') (i : N) (term : Nat) : c.supporters i term ⊆ c'.supporters i term := by
  intro v hv
  have hv : c.ballots v term = some i := (Finset.mem_filter.mp hv).2
  exact Finset.mem_filter.mpr ⟨Finset.mem_univ v, h.ballots v term i hv⟩

theorem Grows.elected (h : Grows c c') (he : Elected cfg c i term) : Elected cfg c' i term :=
  Nat.le_trans he (Finset.card_le_card (h.supporters i term))

theorem Grows.backed (h : Grows c c') (hb : Backed cfg c i term) : Backed cfg c' i term := by
  have := Finset.card_le_card (Finset.erase_subset_erase i (h.supporters i term))
  unfold Backed at hb ⊢
  omega

theorem Grows.pointOk (h : Grows c c') (hp : PointOk cfg c i term p) :
    PointOk cfg c' i term p := by
  cases p with
  | poll t peers votes => exact ⟨hp.1, h.counted h.length_le hp.2⟩
  | requestVote t peers votes call =>
    obtain ⟨hterm, hvotes, x, hx, hi, id, hr⟩ := hp
    obtain ⟨y, hy, hcaller, hrequest, -⟩ := h.exchanges call x hx
    exact ⟨hterm, h.counted (Nat.le_refl call) hvotes, y, hy, hcaller.trans hi, id, hrequest.trans hr⟩
  | takeLead t => exact h.backed hp
  | becomeLeader t => exact h.elected hp
  | _ => trivial

theorem Grows.nodeOk (h : Grows c c') (hn : NodeOk cfg c i m p) :
    NodeOk cfg c' i m p where
  standing hr := h.ballots i _ i (hn.standing hr)
  elected hr := h.elected (hn.elected hr)
  point := h.pointOk hn.point

end grows

section config

variable [DecidableEq N] [Fintype N] {cfg : Config N} {c : Cluster N} {i j : N} {term votes : Nat}

theorem card_lt_quorum (cfg : Config N) (i : N) : Fintype.card N < 2 * cfg.quorum i := by
  have hsub : Finset.univ.erase i ⊆ (cfg.sentinelPeers i).toFinset := by
    intro j hj
    exact List.mem_toFinset.mpr (cfg.complete i j (Finset.ne_of_mem_erase hj))
  have hcard := Finset.card_le_card hsub
  rw [Finset.card_erase_of_mem (Finset.mem_univ i), Finset.card_univ] at hcard
  have hpeers := (cfg.sentinelPeers i).toFinset_card_le
  unfold Config.quorum
  omega

/-- **At most one sentinel is elected in a term.** -/
theorem Elected.unique (hi : Elected cfg c i term) (hj : Elected cfg c j term) : i = j := by
  have hcard : (Finset.univ : Finset N).card < (c.supporters i term).card + (c.supporters j term).card := by
    have h1 := card_lt_quorum cfg i
    have h2 := card_lt_quorum cfg j
    unfold Elected at hi hj
    rw [Finset.card_univ]
    omega
  obtain ⟨v, hv⟩ := Finset.inter_nonempty_of_card_lt_card_add_card (Finset.subset_univ _)
    (Finset.subset_univ _) hcard
  rw [Finset.mem_inter] at hv
  have hvi : c.ballots v term = some i := (Finset.mem_filter.mp hv.1).2
  have hvj : c.ballots v term = some j := (Finset.mem_filter.mp hv.2).2
  rw [hvi] at hvj
  exact Option.some.inj hvj

theorem Backed.elected (hb : Backed cfg c i term) (hi : c.ballots i term = some i) : Elected cfg c i term := by
  have hmem : i ∈ c.supporters i term := Finset.mem_filter.mpr ⟨Finset.mem_univ i, hi⟩
  have hcard := Finset.card_erase_add_one hmem
  unfold Backed at hb
  unfold Elected
  omega

theorem VotesOk.backed (h : VotesOk c) {bound : Nat} (hc : c.Counted i term votes bound)
    (hq : cfg.quorum i ≤ votes) : Backed cfg c i term := by
  obtain ⟨S, hS, hk⟩ := hc
  have hex : ∀ k ∈ S, ∃ x, c.exchanges[k]? = some x ∧ x.caller = i ∧ x.Grants term := fun k hkS => (hk k hkS).2
  have : Nonempty (Exchange N) := ⟨⟨i, i, .heartbeat 0 [], .sent⟩⟩
  choose! voter hvoter using hex
  have hmaps : ∀ k ∈ S, (voter k).peer ∈ (c.supporters i term).erase i := by
    intro k hkS
    obtain ⟨hx, hi, hg⟩ := hvoter k hkS
    obtain ⟨hballot, hne⟩ := h.cast k _ term hx hg
    rw [hi] at hballot hne
    exact Finset.mem_erase.mpr ⟨hne, Finset.mem_filter.mpr ⟨Finset.mem_univ _, hballot⟩⟩
  have hinj : Set.InjOn (fun k => (voter k).peer) S := by
    intro k hkS l hlS hkl
    obtain ⟨hx, -, hg⟩ := hvoter k hkS
    obtain ⟨hy, -, hg'⟩ := hvoter l hlS
    exact h.once k l _ _ term hx hy hg hg' hkl
  have hcard : S.card ≤ ((c.supporters i term).erase i).card := Finset.card_le_card_of_injOn _ hmaps hinj
  unfold Backed
  omega

theorem Sound.oneLeader (h : Sound cfg c) : c.OneLeader := by
  intro i j hi hj hterm
  have hei := (h.nodes i).elected hi
  have hej := (h.nodes j).elected hj
  rw [hterm] at hei
  exact hei.unique hej

end config

section changes

variable {c c' : Cluster N}

theorem Grows.refl_of_eq (hb : c'.ballots = c.ballots) (hx : c'.exchanges = c.exchanges) : Grows c c' where
  ballots v term i h := by rw [hb]; exact h
  exchanges k x h := ⟨x, by rw [hx]; exact h, rfl, rfl, id⟩

theorem Grows.trans {c'' : Cluster N} (h : Grows c c') (h' : Grows c' c'') : Grows c c'' where
  ballots v term i hv := h'.ballots v term i (h.ballots v term i hv)
  exchanges k x hx := by
    obtain ⟨y, hy, hcaller, hrequest, hgranted⟩ := h.exchanges k x hx
    obtain ⟨z, hz, hcaller', hrequest', hgranted'⟩ := h'.exchanges k y hy
    exact ⟨z, hz, hcaller'.trans hcaller, hrequest'.trans hrequest, fun hg => hgranted' (hgranted hg)⟩

theorem VotesOk.raise (h : VotesOk c) (hb : c'.ballots = c.ballots) (hx : c'.exchanges = c.exchanges)
    (ht : ∀ v, (c.node v).currentTerm ≤ (c'.node v).currentTerm) : VotesOk c' where
  voted v term i hv := by
    rw [hb] at hv
    exact Nat.le_trans (h.voted v term i hv) (ht v)
  asked k x term hk ha := by
    rw [hx] at hk
    exact Nat.le_trans (h.asked k x term hk ha) (ht x.caller)
  cast k x term hk hg := by
    rw [hx] at hk
    rw [hb]
    exact h.cast k x term hk hg
  once k l x y term hk hl := by
    rw [hx] at hk hl
    exact h.once k l x y term hk hl

theorem term_le_update [DecidableEq N] {i : N} (ht : (c.node i).currentTerm ≤ m.currentTerm) (v : N) :
    (c.node v).currentTerm ≤ (Function.update c.node i m v).currentTerm := by
  by_cases hv : v = i
  · rw [hv, Function.update_self]
    exact ht
  · rw [Function.update_of_ne hv]

theorem VotesOk.free (h : VotesOk c) {v : N} {term : Nat} (ht : (c.node v).currentTerm < term) :
    c.ballots v term = none := by
  cases hb : c.ballots v term with
  | none => rfl
  | some i =>
    have := h.voted v term i hb
    omega

section vote

variable [DecidableEq N] {v i : N} {term : Nat}

theorem ballots_vote_self (c : Cluster N) (v : N) (term : Nat) (i : N) : (c.vote v term i).ballots v term = some i := by
  simp [vote]

theorem ballots_vote_of_ne (c : Cluster N) {w : N} {t : Nat} (h : ¬ (w = v ∧ t = term)) :
    (c.vote v term i).ballots w t = c.ballots w t := by
  show Function.update c.ballots v _ w t = c.ballots w t
  by_cases hw : w = v
  · have ht : t ≠ term := fun ht => h ⟨hw, ht⟩
    rw [hw, Function.update_self, Function.update_of_ne ht]
  · rw [Function.update_of_ne hw]

theorem Grows.vote (hfree : c.ballots v term = none) : Grows c (c.vote v term i) where
  ballots w t j hw := by
    have hne : ¬ (w = v ∧ t = term) := by
      rintro ⟨rfl, rfl⟩
      rw [hfree] at hw
      cases hw
    rw [ballots_vote_of_ne c hne]
    exact hw
  exchanges k x hx := ⟨x, hx, rfl, rfl, id⟩

theorem VotesOk.vote (h : VotesOk c) (hfree : c.ballots v term = none) (ht : term ≤ (c.node v).currentTerm) :
    VotesOk (c.vote v term i) where
  voted w t j hw := by
    by_cases hwt : w = v ∧ t = term
    · obtain ⟨rfl, rfl⟩ := hwt
      exact ht
    · rw [ballots_vote_of_ne c hwt] at hw
      exact h.voted w t j hw
  asked := h.asked
  cast k x t hk hg := by
    obtain ⟨hb, hne⟩ := h.cast k x t hk hg
    exact ⟨(Grows.vote hfree).ballots _ _ _ hb, hne⟩
  once := h.once

end vote

/-- An exchange goes on to stage `s`. -/
def restage (k : Nat) (x : Exchange N) (s : Stage) (c : Cluster N) : Cluster N :=
  { c with exchanges := c.exchanges.set k { x with stage := s } }

section restage

variable {k : Nat} {x : Exchange N} {s : Stage}

theorem getElem?_restage (hk : c.exchanges[k]? = some x) (l : Nat) :
    (c.restage k x s).exchanges[l]? = if l = k then some { x with stage := s } else c.exchanges[l]? := by
  have hlt : k < c.exchanges.length := (List.getElem?_eq_some_iff.mp hk).1
  show (c.exchanges.set k { x with stage := s })[l]? = _
  rw [List.getElem?_set]
  by_cases hl : l = k
  · rw [if_pos hl.symm, if_pos hl, if_pos hlt]
  · rw [if_neg fun h => hl h.symm, if_neg hl]

theorem Grows.restage (hk : c.exchanges[k]? = some x) (hs : x.stage.granted = true → s.granted = true) :
    Grows c (c.restage k x s) where
  ballots _ _ _ h := h
  exchanges l y hl := by
    rw [getElem?_restage hk]
    by_cases hlk : l = k
    · rw [if_pos hlk]
      rw [hlk, hk] at hl
      cases hl
      exact ⟨_, rfl, rfl, rfl, hs⟩
    · rw [if_neg hlk]
      exact ⟨y, hl, rfl, rfl, id⟩

theorem VotesOk.restage (h : VotesOk c) (hk : c.exchanges[k]? = some x)
    (hs : ∀ term, x.Asks term → s.granted = true →
      (c.ballots x.peer term = some x.caller ∧ x.peer ≠ x.caller) ∧
      ∀ (l : Nat) (y : Exchange N), c.exchanges[l]? = some y → y.Grants term → y.peer = x.peer → l = k) :
    VotesOk (c.restage k x s) where
  voted := h.voted
  asked l y term hl ha := by
    rw [getElem?_restage hk] at hl
    split at hl
    · cases hl
      exact h.asked k x term hk ha
    · exact h.asked l y term hl ha
  cast l y term hl hg := by
    rw [getElem?_restage hk] at hl
    split at hl
    · cases hl
      exact (hs term hg.1 hg.2).1
    · exact h.cast l y term hl hg
  once l l' y y' term hl hl' hg hg' hp := by
    rw [getElem?_restage hk] at hl hl'
    -- A vote that is not exchange `k` was there before.
    split at hl <;> split at hl'
    · next hlk hlk' => rw [hlk, hlk']
    · next hlk _ =>
      cases hl
      rw [hlk]
      exact ((hs term hg.1 hg.2).2 l' y' hl' hg' hp.symm).symm
    · next _ hlk' =>
      cases hl'
      rw [hlk']
      exact (hs term hg'.1 hg'.2).2 l y hl hg hp
    · exact h.once l l' y y' term hl hl' hg hg' hp

end restage

end changes

/-! ## Steps -/

namespace Sound

variable [DecidableEq N] [Fintype N] {cfg : Config N} {c c' : Cluster N} {i : N}

theorem start : Sound cfg {} where
  votes := {
    voted := fun _ _ _ h => nomatch h
    asked := fun _ _ _ h => nomatch h
    cast := fun _ _ _ h => nomatch h
    once := fun _ _ _ _ _ h => nomatch h }
  nodes _ := ⟨(fun h => nomatch h), (fun h => nomatch h), trivial⟩

theorem advance (h : Sound cfg c) (hg : Grows c c') (hv : VotesOk c')
    (hi : NodeOk cfg c' i (c'.node i) (c'.point i))
    (hne : ∀ j, j ≠ i → c'.node j = c.node j ∧ c'.point j = c.point j) : Sound cfg c' := by
  refine ⟨hv, ?_⟩
  intro j
  by_cases hj : j = i
  · rw [hj]
    exact hi
  · rw [(hne j hj).1, (hne j hj).2]
    exact hg.nodeOk (h.nodes j)

theorem move (h : Sound cfg c)
    (ht : (c.node i).currentTerm ≤ m.currentTerm) (hn : NodeOk cfg c i m p) : Sound cfg (c.move i m p) := by
  have hg : Grows c (c.move i m p) := Grows.refl_of_eq rfl rfl
  refine h.advance (i := i) hg (h.votes.raise rfl rfl (term_le_update ht)) ?_ ?_
  · show NodeOk cfg (c.move i m p) i (Function.update c.node i m i) (Function.update c.point i p i)
    rw [Function.update_self, Function.update_self]
    exact hg.nodeOk hn
  · intro j hj
    exact ⟨Function.update_of_ne hj .., Function.update_of_ne hj ..⟩

/-- The thread goes on and the sentinel's state stays. -/
theorem goto (h : Sound cfg c) (hp : PointOk cfg c i (c.node i).currentTerm p) :
    Sound cfg (c.move i (c.node i) p) :=
  h.move (Nat.le_refl _) ⟨(h.nodes i).standing, (h.nodes i).elected, hp⟩

theorem send (h : Sound cfg c) {x : Exchange N} (hx : x.stage = .sent) (hi : x.caller = i) {p : Nat → Point N}
    (ha : ∀ term, x.Asks term → term ≤ (c.node i).currentTerm)
    (hp : PointOk cfg (c.send x p) i (c.node i).currentTerm (p c.exchanges.length)) :
    Sound cfg (c.send x p) := by
  have hold : ∀ {k : Nat} {y : Exchange N}, (c.exchanges ++ [x])[k]? = some y →
      c.exchanges[k]? = some y ∨ y = x := by
    intro k y hk
    rw [List.getElem?_append] at hk
    split at hk
    · exact Or.inl hk
    · have hmem := List.mem_of_getElem? hk
      exact Or.inr (List.mem_singleton.mp hmem)
  have hnew : ∀ term, ¬ x.Grants term := by
    intro term hg
    have hgranted := hg.2
    rw [hx] at hgranted
    cases hgranted
  have hg : Grows c (c.send x p) := by
    refine ⟨fun _ _ _ hb => hb, ?_⟩
    intro k y hk
    have hlt : k < c.exchanges.length := (List.getElem?_eq_some_iff.mp hk).1
    exact ⟨y, (List.getElem?_append_left hlt).trans hk, rfl, rfl, id⟩
  refine h.advance (i := i) hg ?_ ?_ ?_
  · constructor
    · exact h.votes.voted
    · intro k y term hk hy
      obtain hk | rfl := hold hk
      · exact h.votes.asked k y term hk hy
      · rw [hi]
        exact ha term hy
    · intro k y term hk hy
      obtain hk | rfl := hold hk
      · exact h.votes.cast k y term hk hy
      · exact absurd hy (hnew term)
    · intro k l y z term hk hl hy hz
      obtain hk | rfl := hold hk
      · obtain hl | rfl := hold hl
        · exact h.votes.once k l y z term hk hl hy hz
        · exact absurd hz (hnew term)
      · exact absurd hy (hnew term)
  · have hpoint : (c.send x p).point i = p c.exchanges.length := by
      show Function.update c.point x.caller _ i = _
      rw [hi, Function.update_self]
    rw [hpoint]
    exact ⟨fun hr => hg.ballots _ _ _ ((h.nodes i).standing hr), fun hr => hg.elected ((h.nodes i).elected hr), hp⟩
  · intro j hj
    refine ⟨rfl, ?_⟩
    show Function.update c.point x.caller _ j = _
    rw [hi, Function.update_of_ne hj]

theorem becomeCandidate (h : Sound cfg c) (hlt : (c.node i).currentTerm + 1 < 2 ^ 64) :
    let m := (c.node i).becomeCandidate (cfg.nodeId i)
    Sound cfg ((c.vote i m.currentTerm i).move i m .top) := by
  intro m
  have hterm : m.currentTerm = (c.node i).currentTerm + 1 := Nat.mod_eq_of_lt hlt
  have hfree : c.ballots i m.currentTerm = none := h.votes.free (by omega)
  have hself : ((c.move i m .top).node i).currentTerm = m.currentTerm := by
    show (Function.update c.node i m i).currentTerm = _
    rw [Function.update_self]
  have hmoved : VotesOk (c.move i m .top) := h.votes.raise rfl rfl (term_le_update (by omega))
  have hvotes : VotesOk ((c.move i m .top).vote i m.currentTerm i) := hmoved.vote hfree (Nat.le_of_eq hself.symm)
  have hg : Grows c (c.vote i m.currentTerm i) := Grows.vote hfree
  refine h.advance (i := i) (hg.trans (Grows.refl_of_eq rfl rfl)) hvotes ?_ ?_
  · show NodeOk cfg _ i (Function.update c.node i m i) (Function.update c.point i .top i)
    rw [Function.update_self, Function.update_self]
    exact ⟨fun _ => ballots_vote_self c i m.currentTerm i, (fun hr => nomatch hr), trivial⟩
  · intro j hj
    exact ⟨Function.update_of_ne hj .., Function.update_of_ne hj ..⟩

theorem pointOk_tally (h : Sound cfg c) {term t votes : Nat} {peers : List N} (ht : t ≤ term)
    (hc : c.Counted i t votes c.exchanges.length) : PointOk cfg c i term (tally cfg i t peers votes) := by
  unfold tally
  split
  · next hq => exact h.votes.backed hc hq
  · exact ⟨ht, hc⟩

theorem takeLead (h : Sound cfg c) {term : Nat} (hb : Backed cfg c i term) :
    NodeOk cfg c i ((c.node i).takeLead term) .result := by
  unfold SentinelManager.takeLead
  split
  · next hcand =>
    refine ⟨(fun hr => nomatch hr), ?_, trivial⟩
    intro _
    have hself := (h.nodes i).standing hcand.1
    show Elected cfg c i (c.node i).currentTerm
    rw [hcand.2] at hself ⊢
    exact hb.elected hself
  · exact ⟨(h.nodes i).standing, (h.nodes i).elected, trivial⟩

theorem follower (hr : m.role = .follower)
    (hp : PointOk cfg c i m.currentTerm p) : NodeOk cfg c i m p where
  standing h := by rw [hr] at h; cases h
  elected h := by rw [hr] at h; cases h
  point := hp

theorem turn (h : Sound cfg c) (late : Bool) (hs : c.Steady (.turn i late)) : Sound cfg (c.turn cfg i late) := by
  have hpoint := (h.nodes i).point
  unfold Cluster.turn
  unfold Steady at hs
  cases hp : c.point i with
  | top =>
    simp only
    split
    · split
      · exact h.goto trivial
      · exact h
    · exact h.goto trivial
    · split
      · exact h.goto trivial
      · exact h
  | becomeCandidate =>
    simp only [hp] at hs
    exact h.becomeCandidate hs
  | startElection => exact h.goto ⟨Nat.le_refl _, ∅, rfl, fun k hk => absurd hk (Finset.notMem_empty k)⟩
  | poll term peers votes =>
    rw [hp] at hpoint
    obtain ⟨hterm, hvotes⟩ := hpoint
    cases peers with
    | nil => exact h.goto trivial
    | cons p peers =>
      refine h.send rfl rfl ?_ ⟨hterm, ?_, _, List.getElem?_concat_length, rfl, _, rfl⟩
      · rintro t ⟨id, hr⟩
        cases hr
        exact hterm
      · obtain ⟨S, hS, hk⟩ := hvotes
        refine ⟨S, hS, ?_⟩
        intro k hkS
        obtain ⟨hlt, x, hx, hgrants⟩ := hk k hkS
        exact ⟨hlt, x, (List.getElem?_append_left hlt).trans hx, hgrants⟩
  | requestVote term peers votes call => exact h
  | stepDown newTerm => exact h.move (Nat.le_max_left _ _) (follower rfl trivial)
  | takeLead term =>
    rw [hp] at hpoint
    refine h.move ?_ (h.takeLead hpoint)
    unfold SentinelManager.takeLead
    split <;> exact Nat.le_refl _
  | result =>
    simp only
    split
    · next hlead => exact h.goto ((h.nodes i).elected hlead)
    · exact h.move (Nat.le_refl _) (follower rfl trivial)
  | becomeLeader term =>
    simp only [hp] at hs
    rw [hp] at hpoint
    refine h.move (Nat.le_refl _) ⟨(fun hr => nomatch hr), ?_, trivial⟩
    intro _
    show Elected cfg c i (c.node i).currentTerm
    rw [hs]
    exact hpoint
  | sendHeartbeats peers =>
    cases peers with
    | nil => exact h.goto trivial
    | cons p peers => exact h.send rfl rfl (fun t ⟨id, hr⟩ => nomatch hr) trivial
  | heartbeat term peers call => exact h
  | heartbeatStepDown newTerm peers => exact h.move (Nat.le_max_left _ _) (follower rfl trivial)

theorem giveUp (h : Sound cfg c) : Sound cfg (c.giveUp cfg i) := by
  have hpoint := (h.nodes i).point
  unfold Cluster.giveUp
  split
  · next term peers votes call hp =>
    rw [hp] at hpoint
    obtain ⟨hterm, hvotes, x, hx, -⟩ := hpoint
    have hlt : call < c.exchanges.length := (List.getElem?_eq_some_iff.mp hx).1
    exact h.goto (h.pointOk_tally hterm ((Grows.refl_of_eq rfl rfl).counted (Nat.le_of_lt hlt) hvotes))
  · exact h.goto trivial
  · exact h

/-- The answer to the call is one more counted vote, if it is a vote. -/
theorem receive (h : Sound cfg c) : Sound cfg (c.receive cfg i) := by
  have hpoint := (h.nodes i).point
  unfold Cluster.receive
  split
  · next caller peer request ok peerTerm hw =>
    split
    · next term peers votes call hp =>
      rw [hp] at hpoint
      obtain ⟨hterm, hvotes, x, hx, hi, hasks⟩ := hpoint
      have hlt : call < c.exchanges.length := (List.getElem?_eq_some_iff.mp hx).1
      have hcounted : c.Counted i term votes c.exchanges.length :=
        (Grows.refl_of_eq rfl rfl).counted (Nat.le_of_lt hlt) hvotes
      simp only [waiting, hp] at hw
      split
      · next hok =>
        refine h.goto (h.pointOk_tally hterm ?_)
        obtain ⟨S, hS, hk⟩ := hvotes
        have hcall : call ∉ S := fun hmem => Nat.lt_irrefl call (hk call hmem).1
        have hgrants : x.Grants term := by
          refine ⟨hasks, ?_⟩
          rw [hx] at hw
          cases hw
          exact hok
        refine ⟨insert call S, by rw [Finset.card_insert_of_notMem hcall, hS], ?_⟩
        intro k hkS
        obtain rfl | hkS := Finset.mem_insert.mp hkS
        · exact ⟨hlt, x, hx, hi, hgrants⟩
        · have hbefore := (hk k hkS).1
          exact ⟨by omega, (hk k hkS).2⟩
      · split
        · exact h.goto trivial
        · exact h.goto (h.pointOk_tally hterm hcounted)
    · split
      · exact h.goto trivial
      · exact h.goto trivial
    · exact h
  · exact h

theorem answer (h : Sound cfg c) (k : Nat) : Sound cfg (c.answer k) := by
  unfold Cluster.answer
  split
  · next caller peer request ok hk =>
    have hg : Grows c (c.restage k _ (.answered ok (c.node peer).currentTerm)) := Grows.restage hk id
    refine h.advance (i := caller) hg (h.votes.restage hk ?_) (hg.nodeOk (h.nodes caller)) fun _ _ => ⟨rfl, rfl⟩
    intro term hasks hgranted
    have hgrants : Exchange.Grants ⟨caller, peer, request, .handled ok⟩ term := ⟨hasks, hgranted⟩
    refine ⟨h.votes.cast k _ term hk hgrants, ?_⟩
    intro l y hl hy hpeer
    exact h.votes.once l k y _ term hl hk hy hgrants hpeer
  · exact h

end Sound

theorem answerOf_spec (r : Request) (m : SentinelManager) :
    answerOf r m = (false, m) ∨
    (∃ term id, r = .requestVote term id ∧ m.currentTerm < term ∧
      answerOf r m = (true, { m with currentTerm := term, votedFor := id, role := .follower })) ∨
    (∃ term id, r = .heartbeat term id ∧ m.currentTerm ≤ term ∧
      answerOf r m = (true, { currentTerm := term, votedFor := [], role := .follower, leaderId := id })) := by
  cases r with
  | requestVote term id =>
    simp only [answerOf, SentinelManager.handleRequestVote]
    split
    · exact Or.inl rfl
    · split
      · next hlt _ => exact Or.inr (Or.inl ⟨term, id, rfl, by omega, rfl⟩)
      · exact Or.inl rfl
  | heartbeat term id =>
    simp only [answerOf, SentinelManager.handleHeartbeat]
    split
    · exact Or.inl rfl
    · next hlt => exact Or.inr (Or.inr ⟨term, id, rfl, by omega, rfl⟩)

theorem term_le_answerOf (r : Request) (m : SentinelManager) :
    m.currentTerm ≤ (answerOf r m).2.currentTerm := by
  obtain hr | ⟨term, id, -, hlt, hr⟩ | ⟨term, id, -, hle, hr⟩ := answerOf_spec r m
  · rw [hr]
  · rw [hr]
    exact Nat.le_of_lt hlt
  · rw [hr]
    exact hle

section handlers

variable [DecidableEq N] [Fintype N] {cfg : Config N} {c : Cluster N}

theorem PointOk.mono {i : N} {term term' : Nat} (h : PointOk cfg c i term p) (ht : term ≤ term') :
    PointOk cfg c i term' p := by
  cases p with
  | poll t peers votes => exact ⟨Nat.le_trans h.1 ht, h.2⟩
  | requestVote t peers votes call => exact ⟨Nat.le_trans h.1 ht, h.2⟩
  | takeLead t => exact h
  | becomeLeader t => exact h
  | _ => trivial

theorem Sound.nodeOk_answerOf (h : Sound cfg c) (r : Request) (v : N) :
    NodeOk cfg c v (answerOf r (c.node v)).2 (c.point v) := by
  have hpoint := (h.nodes v).point.mono (term_le_answerOf r (c.node v))
  obtain hr | ⟨term, id, -, -, hr⟩ | ⟨term, id, -, -, hr⟩ := answerOf_spec r (c.node v)
  · rw [hr]
    exact h.nodes v
  · rw [hr] at hpoint ⊢
    exact Sound.follower rfl hpoint
  · rw [hr] at hpoint ⊢
    exact Sound.follower rfl hpoint

/-- The peer's section of the exchange, apart from what is recorded of it. -/
def heard (x : Exchange N) (c : Cluster N) : Cluster N :=
  { c with node := Function.update c.node x.peer (answerOf x.request (c.node x.peer)).2 }

theorem Sound.heard {c' : Cluster N} {x : Exchange N} (h : Sound cfg c) (hx : Grows (c.heard x) c')
    (hv : VotesOk c') (hnode : c'.node = (c.heard x).node) (hpoint : c'.point = c.point) : Sound cfg c' := by
  have hsame : Grows c (c.heard x) := Grows.refl_of_eq rfl rfl
  have hg : Grows c c' := hsame.trans hx
  refine h.advance (i := x.peer) hg hv ?_ ?_
  · rw [hnode, hpoint]
    show NodeOk cfg c' x.peer (Function.update c.node x.peer _ x.peer) (c.point x.peer)
    rw [Function.update_self]
    exact hg.nodeOk (h.nodeOk_answerOf x.request x.peer)
  · intro j hj
    rw [hnode, hpoint]
    exact ⟨Function.update_of_ne hj .., rfl⟩

theorem Sound.votesOk_heard (h : Sound cfg c) (x : Exchange N) : VotesOk (c.heard x) :=
  h.votes.raise rfl rfl (term_le_update (term_le_answerOf _ _))

theorem Sound.handled (h : Sound cfg c) {k : Nat} {x : Exchange N} (ok : Bool)
    (hk : c.exchanges[k]? = some x) (hx : x.stage = .sent) (hno : ∀ term, x.Asks term → ok = false) :
    Sound cfg ((c.heard x).restage k x (.handled ok)) := by
  have hg : Grows (c.heard x) ((c.heard x).restage k x (.handled ok)) := by
    refine Grows.restage hk ?_
    intro hgranted
    rw [hx] at hgranted
    cases hgranted
  refine h.heard hg ((h.votesOk_heard x).restage hk ?_) rfl rfl
  intro term hasks hgranted
  have hok : ok = true := hgranted
  rw [hno term hasks] at hok
  cases hok

/-- The request is a vote: the peer had not reached the term, so it is its first vote in it and the
caller, who has reached the term, is another. -/
theorem Sound.granted (h : Sound cfg c) {k : Nat} {x : Exchange N} {term : Nat} {id : Kv.Bytes}
    (hk : c.exchanges[k]? = some x) (hr : x.request = .requestVote term id)
    (hlt : (c.node x.peer).currentTerm < term)
    (hterm : ((c.heard x).node x.peer).currentTerm = term) :
    Sound cfg (((c.heard x).vote x.peer term x.caller).restage k x (.handled true)) := by
  have hfree : (c.heard x).ballots x.peer term = none := h.votes.free hlt
  have hvoted : VotesOk ((c.heard x).vote x.peer term x.caller) :=
    (h.votesOk_heard x).vote hfree (Nat.le_of_eq hterm.symm)
  have hg : Grows ((c.heard x).vote x.peer term x.caller)
      (((c.heard x).vote x.peer term x.caller).restage k x (.handled true)) := Grows.restage hk fun _ => rfl
  refine h.heard ((Grows.vote hfree).trans hg) (hvoted.restage hk ?_) rfl rfl
  rintro t ⟨id', hasks⟩ -
  rw [hr] at hasks
  cases hasks
  refine ⟨⟨ballots_vote_self _ _ _ _, ?_⟩, ?_⟩
  · intro hself
    have := h.votes.asked k x term hk ⟨id, hr⟩
    rw [hself] at hlt
    omega
  · intro l y hl hy hpeer
    have hballot := (h.votes.cast l y term hl hy).1
    rw [hpeer] at hballot
    have := h.votes.voted x.peer term y.caller hballot
    omega

theorem Sound.handle (h : Sound cfg c) (k : Nat) : Sound cfg (c.handle k) := by
  unfold Cluster.handle
  split
  · next caller peer request hk =>
    cases request with
    | heartbeat term id => exact h.handled _ hk rfl fun t hasks => nomatch hasks
    | requestVote term id =>
      obtain hr | ⟨t, id', hreq, hlt, hr⟩ | ⟨t, id', hreq, -, hr⟩ :=
        answerOf_spec (.requestVote term id) (c.node peer)
      · simp only [hr, Bool.false_eq_true, if_false]
        have hsound := h.handled false hk rfl fun _ _ => rfl
        unfold Cluster.heard at hsound
        simp only [hr] at hsound
        exact hsound
      · cases hreq
        simp only [hr, if_true]
        have hterm : ((c.heard ⟨caller, peer, .requestVote term id, .sent⟩).node peer).currentTerm = term := by
          show (Function.update c.node peer _ peer).currentTerm = term
          rw [Function.update_self]
          simp only [hr]
        have hsound := h.granted hk rfl hlt hterm
        unfold Cluster.heard at hsound
        simp only [hr] at hsound
        exact hsound
      · cases hreq
  · exact h

theorem Sound.step (h : Sound cfg c) {e : Event N} (hs : c.Steady e) : Sound cfg (c.step cfg e) := by
  cases e with
  | turn i late => exact h.turn late hs
  | giveUp i => exact h.giveUp
  | receive i => exact h.receive
  | handle k => exact h.handle k
  | answer k => exact h.answer k

theorem Sound.run (h : Sound cfg c) {events : List (Event N)} (hs : c.Along cfg Steady events) (n : Nat) :
    Sound cfg ((events.take n).foldl (Cluster.step cfg) c) := by
  induction events generalizing c n with
  | nil =>
    rw [List.take_nil]
    exact h
  | cons e events ih =>
    cases n with
    | zero => exact h
    | succ n => exact ih (h.step hs.1) hs.2 n

end handlers

instance (c : Cluster N) : (e : Event N) → Decidable (c.Steady e)
  | .turn i _ =>
    match h : c.point i with
    | .becomeCandidate => decidable_of_iff ((c.node i).currentTerm + 1 < 2 ^ 64) (by simp only [Steady, h])
    | .becomeLeader term => decidable_of_iff ((c.node i).currentTerm = term) (by simp only [Steady, h])
    | .top | .startElection | .poll _ _ _ | .requestVote _ _ _ _ | .stepDown _ | .takeLead _ | .result
    | .sendHeartbeats _ | .heartbeat _ _ _ | .heartbeatStepDown _ _ => decidable_of_iff True (by simp only [Steady, h])
  | .giveUp _ | .receive _ | .handle _ | .answer _ => inferInstanceAs (Decidable True)

instance Along.decidable [DecidableEq N] (cfg : Config N) (P : Cluster N → Event N → Prop)
    [∀ c e, Decidable (P c e)] : (events : List (Event N)) → (c : Cluster N) → Decidable (c.Along cfg P events)
  | [], _ => inferInstanceAs (Decidable True)
  | _ :: events, _ => @instDecidableAnd _ _ _ (Along.decidable cfg P events _)

instance [DecidableEq N] [Fintype N] (c : Cluster N) : Decidable c.OneLeader :=
  inferInstanceAs (Decidable (∀ _ _, _ → _ → _ → _))

end Cluster

/-! ## Top theorem -/

open Cluster

variable {N : Type} [DecidableEq N] [Fintype N]

/-- **Election safety.**  In a run in which no term counter wraps and every `becomeLeader` finds the
sentinel in the term it has won, no state has two leaders in one term. -/
theorem oneLeader_of_steady (cfg : Config N) (events : List (Event N))
    (h : Along cfg Steady ({} : Cluster N) events) (n : Nat) :
    OneLeader ((events.take n).foldl (step cfg) {}) :=
  (Sound.start.run h n).oneLeader

/-- Three sentinels, each with the other two as its peers. -/
def threeSentinels : Config (Fin 3) where
  nodeId i := [UInt8.ofNat i.val + 65]
  sentinelPeers i := (List.finRange 3).filter (· ≠ i)
  complete i j hj := by simp [hj]

/-- The thread of `i` goes from the top of the loop to the first request of an election. -/
def campaign (i : Fin 3) : List (Event (Fin 3)) :=
  [.turn i true, .turn i false, .turn i false, .turn i false, .turn i false]

/-- Exchange `k` of `i` from the request to the answer. -/
def answered (i : Fin 3) (k : Nat) : List (Event (Fin 3)) := [.handle k, .answer k, .receive i]

/-- Sentinel 0 is elected in term 1 by 1 and leads. -/
def electedOnce : List (Event (Fin 3)) :=
  campaign 0 ++ answered 0 0 ++ [.turn 0 false, .turn 0 false, .turn 0 false]

theorem oneLeader_electedOnce : Along threeSentinels Steady {} electedOnce ∧
    ((electedOnce.foldl (step threeSentinels) {}).node 0).role = .leader ∧
    OneLeader ((electedOnce.take 11).foldl (step threeSentinels) {}) :=
  ⟨by decide, by decide, oneLeader_of_steady threeSentinels electedOnce (by decide) 11⟩

/-- Sentinel 0 has won term 1 and is about to call `becomeLeader`.  Sentinel 1, who voted for it, is
elected in term 2 by 2 and its heartbeat makes 0 a follower in term 2.  Then `becomeLeader` goes on. -/
def lateBecomeLeader : List (Event (Fin 3)) :=
  campaign 0 ++ answered 0 0 ++ [.turn 0 false, .turn 0 false] ++
  campaign 1 ++ answered 1 1 ++ [.turn 1 false] ++ answered 1 2 ++
  [.turn 1 false, .turn 1 false, .turn 1 false] ++ [.turn 1 true, .turn 1 false] ++ answered 1 3 ++ [.turn 0 false]

theorem two_leaders : ¬ OneLeader (lateBecomeLeader.foldl (step threeSentinels) {}) := by
  decide

end Rpc
