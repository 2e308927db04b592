import Mathlib.Logic.Function.Iterate
import ZeroFrameworks.Rpc.Election

/-!
# Old votes and later elections

`handleRequestVote` refuses a candidate that is not the one in `m_votedFor`, also when that vote was given
in an earlier term.  And `startElection` looks for a quorum only after it has asked a peer.

Here a candidate stands in a term that is newer than those of all the peers it can reach, and nothing else
happens while it asks them.  Each of them votes for it, and it leads if they are enough, if and only if
it has a peer at all and those it can reach hold no vote for another:

    Unblocked cfg up i c ↔ Free cfg up i c
-/

namespace Rpc

namespace Cluster

variable {N : Type} [DecidableEq N]

/-! ## An election without interruption -/

/-- The next peer in the loop of `startElection`: it answers at once, or is out of reach. -/
def ask (cfg : Config N) (up : N → Bool) (i : N) (c : Cluster N) : Cluster N :=
  match c.point i with
  | .poll _ (p :: _) _ =>
    let call := c.exchanges.length
    if up p then (((c.turn cfg i false).handle call).answer call).receive cfg i
    else (c.turn cfg i false).giveUp cfg i
  | _ => c

/-- `startElection` from the section that reads the term to the one that may take the lead. -/
def election (cfg : Config N) (up : N → Bool) (i : N) (c : Cluster N) : Cluster N :=
  (((ask cfg up i)^[(cfg.sentinelPeers i).length]) (c.turn cfg i false)).turn cfg i false

/-- A candidate is about to stand in a newer term than those of the peers it can reach. -/
structure Standing (cfg : Config N) (up : N → Bool) (i : N) (c : Cluster N) : Prop where
  point : c.point i = .startElection
  role : (c.node i).role = .candidate
  newer : ∀ p ∈ cfg.sentinelPeers i, up p = true → (c.node p).currentTerm < (c.node i).currentTerm

/-- Its peers within reach grant it every newer term, and if they are enough for a quorum it leads. -/
structure Unblocked (cfg : Config N) (up : N → Bool) (i : N) (c : Cluster N) : Prop where
  granted : ∀ p ∈ cfg.sentinelPeers i, up p = true → ∀ term, (c.node p).currentTerm < term →
    ((c.node p).handleRequestVote term (cfg.nodeId i)).1 = true
  leads : cfg.quorum i ≤ ((cfg.sentinelPeers i).filter (up ·)).toFinset.card + 1 →
    ((election cfg up i c).node i).role = .leader

/-- It has a peer, and those within reach hold no vote for another. -/
def Free (cfg : Config N) (up : N → Bool) (i : N) (c : Cluster N) : Prop :=
  cfg.sentinelPeers i ≠ [] ∧
    ∀ p ∈ cfg.sentinelPeers i, up p = true → (c.node p).votedFor = [] ∨ (c.node p).votedFor = cfg.nodeId i

/-! ## Lemmas -/

variable {cfg : Config N} {up : N → Bool} {i p : N} {c : Cluster N}

theorem handleRequestVote_newer {m : SentinelManager} {term : Nat} (h : m.currentTerm < term) (id : Kv.Bytes) :
    (m.handleRequestVote term id).1 = true ↔ m.votedFor = [] ∨ m.votedFor = id := by
  unfold SentinelManager.handleRequestVote
  rw [if_neg (by omega)]
  split
  · next hfree => exact ⟨fun _ => hfree, fun _ => rfl⟩
  · next hheld => exact ⟨(fun hg => nomatch hg), fun hfree => absurd hfree hheld⟩

section exchange

variable {k term votes : Nat} {caller peer : N} {peers : List N} {id : Kv.Bytes}

theorem handle_vote (hk : c.exchanges[k]? = some ⟨caller, peer, .requestVote term id, .sent⟩) :
    let r := (c.node peer).handleRequestVote term id
    (c.handle k).node = Function.update c.node peer r.2 ∧ (c.handle k).point = c.point ∧
      (c.handle k).exchanges = c.exchanges.set k ⟨caller, peer, .requestVote term id, .handled r.1⟩ := by
  cases hg : ((c.node peer).handleRequestVote term id).1 with
  | true => simp [handle, hk, answerOf, hg, vote]
  | false => simp [handle, hk, answerOf, hg]

omit [DecidableEq N] in
theorem answer_vote {ok : Bool} (hk : c.exchanges[k]? = some ⟨caller, peer, .requestVote term id, .handled ok⟩) :
    (c.answer k).node = c.node ∧ (c.answer k).point = c.point ∧
      (c.answer k).exchanges =
        c.exchanges.set k ⟨caller, peer, .requestVote term id, .answered ok (c.node peer).currentTerm⟩ := by
  simp [answer, hk]

theorem node_move (c : Cluster N) (i : N) (m : SentinelManager) (q : Point N) : (c.move i m q).node i = m :=
  Function.update_self ..

theorem move_node_self (c : Cluster N) (i : N) (q : Point N) :
    (c.move i (c.node i) q).node = c.node ∧ (c.move i (c.node i) q).point i = q :=
  ⟨Function.update_eq_self i c.node, Function.update_self ..⟩

theorem receive_vote (cfg : Config N) {ok : Bool} {peerTerm : Nat} {request : Request}
    (hp : c.point i = .requestVote term peers votes k)
    (hk : c.exchanges[k]? = some ⟨caller, peer, request, .answered ok peerTerm⟩) :
    (c.receive cfg i).node = c.node ∧ (c.receive cfg i).point i =
      if ok then tally cfg i term peers (votes + 1)
      else if term < peerTerm then .stepDown peerTerm else tally cfg i term peers votes := by
  simp only [receive, waiting, hp, hk]
  split
  · exact move_node_self c i _
  · split
    · exact move_node_self c i _
    · exact move_node_self c i _

/-- A call that is answered at once changes the peer, and the thread of the caller goes on. -/
theorem ask_up (cfg : Config N) (hp : c.point i = .poll term (p :: peers) votes) (hup : up p = true) :
    let r := (c.node p).handleRequestVote term (cfg.nodeId i)
    (ask cfg up i c).node = Function.update c.node p r.2 ∧
    (ask cfg up i c).point i = if r.1 then tally cfg i term peers (votes + 1)
      else if term < r.2.currentTerm then .stepDown r.2.currentTerm else tally cfg i term peers votes := by
  intro r
  have hsend : c.turn cfg i false =
      c.send ⟨i, p, .requestVote term (cfg.nodeId i), .sent⟩ (.requestVote term peers votes) := by
    simp only [turn, hp]
  have hask : ask cfg up i c =
      (((c.turn cfg i false).handle c.exchanges.length).answer c.exchanges.length).receive cfg i := by
    simp only [ask, hp, hup, if_true]
  rw [hask, hsend]
  -- The exchange is the last one, from the request to the answer.
  have hset : ∀ (c' : Cluster N) x y, c'.exchanges = (c.exchanges ++ [x]).set c.exchanges.length y →
      c'.exchanges[c.exchanges.length]? = some y := by
    intro c' x y hc'
    rw [hc', List.getElem?_set_self (by simp)]
  obtain ⟨hnode1, hpoint1, hx1⟩ := handle_vote (c := c.send ⟨i, p, .requestVote term (cfg.nodeId i), .sent⟩
    (.requestVote term peers votes)) (k := c.exchanges.length) List.getElem?_concat_length
  generalize (c.send _ _).handle _ = c1 at *
  obtain ⟨hnode2, hpoint2, hx2⟩ := answer_vote (hset c1 _ _ hx1)
  generalize hc2 : c1.answer _ = c2 at *
  have hx2' : c2.exchanges[c.exchanges.length]? = some ⟨i, p, .requestVote term (cfg.nodeId i),
      .answered r.1 r.2.currentTerm⟩ := by
    have hterm : c1.node p = r.2 := by
      rw [hnode1]
      exact Function.update_self ..
    rw [hx2, hx1, hterm, List.set_set, List.getElem?_set_self (by simp [send])]
    rfl
  have hp2 : c2.point i = .requestVote term peers votes c.exchanges.length := by
    rw [hpoint2, hpoint1]
    exact Function.update_self ..
  obtain ⟨hnode3, hpoint3⟩ := receive_vote cfg hp2 hx2'
  exact ⟨hnode3.trans (hnode2.trans hnode1), hpoint3⟩

theorem ask_down (cfg : Config N) (hp : c.point i = .poll term (p :: peers) votes) (hup : up p = false) :
    (ask cfg up i c).node = c.node ∧ (ask cfg up i c).point i = tally cfg i term peers votes := by
  have hsend : c.turn cfg i false =
      c.send ⟨i, p, .requestVote term (cfg.nodeId i), .sent⟩ (.requestVote term peers votes) := by
    simp only [turn, hp]
  have hpoint : (c.send ⟨i, p, .requestVote term (cfg.nodeId i), .sent⟩ (.requestVote term peers votes)).point i =
      .requestVote term peers votes c.exchanges.length := Function.update_self ..
  simp only [ask, hp, hup, Bool.false_eq_true, if_false, hsend, giveUp, hpoint]
  exact move_node_self _ i _

end exchange

/-! ## The loop over the peers -/

/-- The loop of `startElection` after the peers `done`, with the peers `rest` to come: it has seen a quorum,
or it has the votes of all in `done` that it can reach and the others have not heard of it. -/
structure Asking (cfg : Config N) (up : N → Bool) (i : N) (c0 : Cluster N) (done rest : List N) (c : Cluster N) :
    Prop where
  self : c.node i = c0.node i
  point : c.point i = .takeLead (c0.node i).currentTerm ∨
    (c.point i = .poll (c0.node i).currentTerm rest ((done.filter (up ·)).toFinset.card + 1) ∧
      (done.filter (up ·)).toFinset.card + 1 < cfg.quorum i ∧
      (∀ p ∈ done, up p = true → (c.node p).currentTerm = (c0.node i).currentTerm) ∧
      ∀ p, p ∉ done → c.node p = c0.node p)

section loop

variable {c0 : Cluster N} {done rest : List N}

theorem filter_append_up (done : List N) (hup : up p = true) :
    ((done ++ [p]).filter (up ·)).toFinset = insert p (done.filter (up ·)).toFinset := by
  rw [List.filter_append, List.toFinset_append, List.filter_cons_of_pos hup]
  ext q
  simp

omit [DecidableEq N] in
theorem filter_append_down (done : List N) (hup : up p = false) :
    (done ++ [p]).filter (up ·) = done.filter (up ·) := by
  rw [List.filter_append, List.filter_cons_of_neg (by simp [hup]), List.filter_nil, List.append_nil]

theorem Asking.step (hs : Standing cfg up i c0)
    (hfree : ∀ p ∈ cfg.sentinelPeers i, up p = true → (c0.node p).votedFor = [] ∨
      (c0.node p).votedFor = cfg.nodeId i)
    (hp : p ∈ cfg.sentinelPeers i) (h : Asking cfg up i c0 done (p :: rest) c) :
    Asking cfg up i c0 (done ++ [p]) rest (ask cfg up i c) := by
  obtain hlead | ⟨hpoll, hvotes, hasked, hother⟩ := h.point
  · have hsame : ask cfg up i c = c := by simp only [ask, hlead]
    rw [hsame]
    exact ⟨h.self, Or.inl hlead⟩
  · cases hup : up p with
    | false =>
      obtain ⟨hnode, hpoint⟩ := ask_down cfg hpoll hup
      refine ⟨by rw [hnode]; exact h.self, Or.inr ?_⟩
      rw [hpoint, hnode, filter_append_down done hup]
      refine ⟨if_neg (by omega), hvotes, ?_, ?_⟩
      · intro q hq hupq
        obtain hq | hq := List.mem_append.mp hq
        · exact hasked q hq hupq
        · rw [List.mem_singleton.mp hq, hup] at hupq
          cases hupq
      · intro q hq
        exact hother q fun hd => hq (List.mem_append_left _ hd)
    | true =>
      have hlt := hs.newer p hp hup
      have hne : i ≠ p := by
        rintro rfl
        omega
      have hp' : p ∈ (done ++ [p]) := List.mem_append_right _ (List.mem_singleton_self p)
      obtain ⟨hnode, hpoint⟩ := ask_up cfg hpoll hup
      by_cases hd : p ∈ done
      · -- A peer that is in the list twice is in the term already, and refuses.
        have hterm := hasked p hd hup
        have hrefused : (c.node p).handleRequestVote (c0.node i).currentTerm (cfg.nodeId i) = (false, c.node p) :=
          if_pos (by omega)
        rw [hrefused] at hnode hpoint
        rw [Function.update_eq_self] at hnode
        simp only [Bool.false_eq_true, if_false, hterm, Nat.lt_irrefl] at hpoint
        have hmem : p ∈ (done.filter (up ·)).toFinset := by
          rw [List.mem_toFinset, List.mem_filter]
          exact ⟨hd, hup⟩
        refine ⟨by rw [hnode]; exact h.self, Or.inr ?_⟩
        rw [hpoint, hnode, filter_append_up done hup, Finset.insert_eq_of_mem hmem]
        refine ⟨if_neg (by omega), hvotes, ?_, ?_⟩
        · intro q hq hupq
          obtain hq | hq := List.mem_append.mp hq
          · exact hasked q hq hupq
          · rw [List.mem_singleton.mp hq]
            exact hterm
        · intro q hq
          exact hother q fun hd => hq (List.mem_append_left _ hd)
      · have hfirst := hother p hd
        have hgrant : (c.node p).handleRequestVote (c0.node i).currentTerm (cfg.nodeId i) =
            (true, { c.node p with
              currentTerm := (c0.node i).currentTerm, votedFor := cfg.nodeId i, role := .follower }) := by
          rw [hfirst]
          unfold SentinelManager.handleRequestVote
          rw [if_neg (by omega), if_pos (hfree p hp hup)]
        rw [hgrant] at hnode hpoint
        simp only [if_true] at hpoint
        have hmem : p ∉ (done.filter (up ·)).toFinset := by
          rw [List.mem_toFinset, List.mem_filter]
          exact fun hin => hd hin.1
        have hself : (ask cfg up i c).node i = c0.node i := by
          rw [hnode, Function.update_of_ne hne]
          exact h.self
        by_cases hq : cfg.quorum i ≤ (done.filter (up ·)).toFinset.card + 1 + 1
        · exact ⟨hself, Or.inl (hpoint.trans (if_pos hq))⟩
        · refine ⟨hself, Or.inr ?_⟩
          rw [hpoint, hnode, filter_append_up done hup, Finset.card_insert_of_notMem hmem]
          refine ⟨if_neg hq, by omega, ?_, ?_⟩
          · intro q hqmem hupq
            by_cases hqp : q = p
            · rw [hqp, Function.update_self]
            · rw [Function.update_of_ne hqp]
              obtain hqd | hqd := List.mem_append.mp hqmem
              · exact hasked q hqd hupq
              · exact absurd (List.mem_singleton.mp hqd) hqp
          · intro q hqmem
            have hqp : q ≠ p := by
              rintro rfl
              exact hqmem hp'
            rw [Function.update_of_ne hqp]
            exact hother q fun hqd => hqmem (List.mem_append_left _ hqd)

theorem Asking.run (hs : Standing cfg up i c0)
    (hfree : ∀ p ∈ cfg.sentinelPeers i, up p = true → (c0.node p).votedFor = [] ∨
      (c0.node p).votedFor = cfg.nodeId i)
    (hrest : ∀ p ∈ rest, p ∈ cfg.sentinelPeers i) (h : Asking cfg up i c0 done rest c) :
    Asking cfg up i c0 (done ++ rest) [] ((ask cfg up i)^[rest.length] c) := by
  induction rest generalizing done c with
  | nil =>
    rw [List.append_nil]
    exact h
  | cons p rest ih =>
    have hstep := h.step hs hfree (hrest p List.mem_cons_self)
    have hrun := ih (fun q hq => hrest q (List.mem_cons_of_mem p hq)) hstep
    rw [List.append_assoc] at hrun
    exact hrun

end loop

theorem leads_of_free (hs : Standing cfg up i c) (hf : Free cfg up i c)
    (hq : cfg.quorum i ≤ ((cfg.sentinelPeers i).filter (up ·)).toFinset.card + 1) :
    ((election cfg up i c).node i).role = .leader := by
  have hturn : c.turn cfg i false =
      c.move i (c.node i) (.poll (c.node i).currentTerm (cfg.sentinelPeers i) 1) := by
    simp only [turn, hs.point]
  obtain ⟨hnode, hpoint⟩ := move_node_self c i (.poll (c.node i).currentTerm (cfg.sentinelPeers i) 1)
  have hstart : Asking cfg up i c [] (cfg.sentinelPeers i) (c.turn cfg i false) := by
    rw [hturn]
    refine ⟨by rw [hnode], Or.inr ⟨hpoint, ?_, ?_, ?_⟩⟩
    · have hpeers := List.length_pos_iff.mpr hf.1
      show 0 + 1 < (1 + (cfg.sentinelPeers i).length) / 2 + 1
      omega
    · intro p hp
      cases hp
    · intro p _
      rw [hnode]
  have hend := hstart.run hs hf.2 fun p hp => hp
  rw [List.nil_append] at hend
  unfold election
  generalize (ask cfg up i)^[(cfg.sentinelPeers i).length] (c.turn cfg i false) = c' at *
  obtain hlead | ⟨-, hfew, -⟩ := hend.point
  · have htake : c'.turn cfg i false = c'.move i ((c'.node i).takeLead (c.node i).currentTerm) .result := by
      simp only [turn, hlead]
    rw [htake, node_move, hend.self]
    unfold SentinelManager.takeLead
    rw [if_pos ⟨hs.role, rfl⟩]
  · omega

theorem not_leads_alone (hs : Standing cfg up i c) (hnone : cfg.sentinelPeers i = []) :
    ((election cfg up i c).node i).role ≠ .leader := by
  have hturn : c.turn cfg i false = c.move i (c.node i) (.poll (c.node i).currentTerm [] 1) := by
    simp only [turn, hs.point, hnone]
  obtain ⟨hnode, hpoint⟩ := move_node_self c i (.poll (c.node i).currentTerm [] 1)
  have hend : election cfg up i c =
      (c.move i (c.node i) (.poll (c.node i).currentTerm [] 1)).move i (c.node i) .result := by
    unfold election
    rw [hnone, List.length_nil, Function.iterate_zero, id, hturn]
    simp only [turn, hpoint, hnode]
  rw [hend, node_move, hs.role]
  exact fun h => nomatch h

end Cluster

/-! ## Top theorem -/

open Cluster

/-- **An old vote blocks later elections, and so does an empty list of peers.** -/
theorem unblocked_iff_free {N : Type} [DecidableEq N] (cfg : Config N) (up : N → Bool) (i : N) (c : Cluster N)
    (hs : Standing cfg up i c) : Unblocked cfg up i c ↔ Free cfg up i c := by
  constructor
  · intro h
    refine ⟨?_, ?_⟩
    · intro hnone
      refine not_leads_alone hs hnone (h.leads ?_)
      unfold Config.quorum
      rw [hnone, List.length_nil]
      omega
    · intro p hp hup
      exact (handleRequestVote_newer (hs.newer p hp hup) _).mp (h.granted p hp hup _ (hs.newer p hp hup))
  · intro h
    refine ⟨?_, leads_of_free hs h⟩
    intro p hp hup term hterm
    exact (handleRequestVote_newer hterm _).mpr (h.2 p hp hup)

/-- The thread of `i` goes from the top of the loop to `startElection`. -/
def candidacy (i : Fin 3) : List (Event (Fin 3)) := [.turn i true, .turn i false, .turn i false]

/-- The first candidate. -/
def firstCandidacy (i : Fin 3) : Cluster (Fin 3) := (candidacy i).foldl (step threeSentinels) {}

theorem unblocked_first : Standing threeSentinels (fun _ => true) 0 (firstCandidacy 0) ∧
    Unblocked threeSentinels (fun _ => true) 0 (firstCandidacy 0) := by
  have hs : Standing threeSentinels (fun _ => true) 0 (firstCandidacy 0) :=
    ⟨by decide, by decide, by decide⟩
  exact ⟨hs, (unblocked_iff_free _ _ _ _ hs).mpr ⟨by decide, by decide⟩⟩

/-- An election that reaches nobody. -/
def unanswered (i : Fin 3) : List (Event (Fin 3)) :=
  candidacy i ++ [.turn i false, .turn i false, .giveUp i, .turn i false, .giveUp i, .turn i false, .turn i false]

/-- All three have been candidates in term 1, and `i` is one again in term 2. -/
def splitVotes (i j k : Fin 3) : Cluster (Fin 3) :=
  (candidacy j ++ candidacy k ++ unanswered i ++ candidacy i).foldl (step threeSentinels) {}

theorem blocked_split : Standing threeSentinels (fun _ => true) 0 (splitVotes 0 1 2) ∧
    ¬ Unblocked threeSentinels (fun _ => true) 0 (splitVotes 0 1 2) := by
  refine ⟨⟨by decide, by decide, by decide⟩, ?_⟩
  intro h
  have hgranted := h.granted 1 (by decide) rfl 2 (by decide)
  revert hgranted
  decide

end Rpc
