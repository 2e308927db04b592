import Mathlib.Data.Fintype.Basic
import ZeroFrameworks.Rpc.Channel

/-!
# Calls and their answers

A call that writes its first octet while another is between its first octet and the end of its response
(`engaged`) spoils both.  When that never happens (`Exclusive`), the connection is clean between two calls, and
within a call it has what the call has written, or what is left of the answer.

    Held s → Exclusive s e → s.step e = some s' → Held s'   (Held.step)
    Along Exclusive es → run es = some s → s.Correct   (calls_answered)
-/

namespace Rpc

open Kv (Bytes)

/-! ## Specification -/

/-- The octets are whole frames of calls, one after the other. -/
def Complete (requests : List Bytes) (sent : List Octet) : Prop :=
  ∃ calls : List (Nat × Bytes), (∀ c ∈ calls, requests[c.1]? = some c.2) ∧
    sent = calls.flatMap fun c => tag c.1 (frame c.2)

/-- The octets are whole frames, and then perhaps the beginning of one. -/
def Framed (requests : List Bytes) (sent : List Octet) : Prop :=
  ∃ whole part, Complete requests whole ∧ sent = whole ++ part ∧
    (part = [] ∨ ∃ n wire, requests[n]? = some wire ∧ part <+: tag n (frame wire))

namespace Channel

variable {P : Type}

/-- `wire`: frames are not mixed.  `own`: a call reads octets of its own response only.  `answered`: a call that
returns true returns what the server answered to its request. -/
structure Correct (s : Channel P) : Prop where
  wire : ∀ c, Framed s.requests (s.conns c).sent
  own : ∀ p n polled header need got, s.stage p = .reading n polled header need got → ∀ o ∈ got, o.call = n
  answered : ∀ r ∈ s.returned, ∃ wire, s.requests[r.1]? = some wire ∧ (r.1, wire, r.2) ∈ s.served

/-- Nothing is begun on the channel while a call is engaged. -/
def Exclusive (s : Channel P) : ChannelEvent P → Prop
  | .send p _ => (s.stage p).engaged = false → ∀ p', (s.stage p').engaged = false
  | .connect true => ∀ p, (s.stage p).engaged = false
  | _ => True

instance [Fintype P] (s : Channel P) : (e : ChannelEvent P) → Decidable (s.Exclusive e)
  | .send p _ => inferInstanceAs (Decidable ((s.stage p).engaged = false → ∀ p', (s.stage p').engaged = false))
  | .connect true => inferInstanceAs (Decidable (∀ p, (s.stage p).engaged = false))
  | .connect false | .close | .call .. | .poll .. | .recv .. | .again _ | .error _ | .hangUp _ | .serve .. =>
    inferInstanceAs (Decidable True)

end Channel

/-! ## Invariant -/

/-- What the connection has for the call that is engaged. -/
def Talk (requests : List Bytes) (served : List (Nat × Bytes × Bytes)) (conn : Conn) : CallerStage → Prop
  | .idle => True
  | .writing n _ rest body => ∃ wire done whole, requests[n]? = some wire ∧ frame wire = done ++ (rest ++ body.getD []) ∧
    conn.inbox = tag n done ∧ conn.outbox = [] ∧ Complete requests whole ∧ conn.sent = whole ++ tag n done
  | .reading n _ header need got => ∃ wire, requests[n]? = some wire ∧ wire.length < maxSerialized ∧
    Complete requests conn.sent ∧
    ((conn.inbox = tag n (frame wire) ∧ conn.outbox = [] ∧ got = [] ∧ header = true ∧ need = 4) ∨
      ∃ response, (n, wire, response) ∈ served ∧ response.length < maxSerialized ∧ conn.inbox = [] ∧
        got ++ conn.outbox = tag n (if header then frame response else response) ∧
        got.length + need = if header then 4 else response.length)
  | .closing _ _ => Framed requests conn.sent

/-- What a caller has left to write. -/
def Writes (requests : List Bytes) : CallerStage → Prop
  | .writing n _ rest body => rest ≠ [] ∧ ∃ wire, requests[n]? = some wire ∧ wire.length < maxSerialized ∧
    rest ++ body.getD [] <:+ frame wire ∧ (body ≠ none → body = some wire ∧ rest.length ≤ 4)
  | _ => True

structure Held {P : Type} (s : Channel P) : Prop where
  alone : ∀ p p', (s.stage p).engaged = true → (s.stage p').engaged = true → p = p'
  writes : ∀ p, Writes s.requests (s.stage p)
  clean : ∀ c, s.fd = some c → (∀ p, (s.stage p).engaged = false) →
    (s.conns c).inbox = [] ∧ (s.conns c).outbox = [] ∧ Complete s.requests (s.conns c).sent
  talk : ∀ c p, s.fd = some c → (s.stage p).engaged = true → Talk s.requests s.served (s.conns c) (s.stage p)
  made : (∀ c, s.fd = some c → c < s.made) ∧ ∀ c, s.made ≤ c → s.conns c = {}
  correct : s.Correct

/-! ## Lemmas -/

theorem Complete.nil (requests : List Bytes) : Complete requests [] := ⟨[], by simp, rfl⟩

variable {sent : List Octet} {n : Nat}

theorem Complete.concat {requests : List Bytes} (h : Complete requests sent) {wire : Bytes}
    (hn : requests[n]? = some wire) : Complete requests (sent ++ tag n (frame wire)) := by
  obtain ⟨calls, hcalls, rfl⟩ := h
  refine ⟨calls ++ [(n, wire)], ?_, by simp⟩
  intro c hc
  rcases List.mem_append.mp hc with hc | hc
  · exact hcalls c hc
  · rw [List.mem_singleton.mp hc]
    exact hn

theorem Complete.framed {requests : List Bytes} (h : Complete requests sent) :
    Framed requests sent := ⟨sent, [], h, by simp, .inl rfl⟩

theorem framed_part {requests : List Bytes} {whole : List Octet} (h : Complete requests whole) {wire done : Bytes}
    (hn : requests[n]? = some wire) (hdone : done <+: frame wire) : Framed requests (whole ++ tag n done) :=
  ⟨whole, tag n done, h, rfl, .inr ⟨n, wire, hn, hdone.map _⟩⟩

/-! ### More calls and more answers -/

section Mono

variable {requests requests' : List Bytes} {served served' : List (Nat × Bytes × Bytes)}

theorem request_mono (h : requests <+: requests') {wire : Bytes} (hn : requests[n]? = some wire) :
    requests'[n]? = some wire := by
  obtain ⟨more, rfl⟩ := h
  have hlt : n < requests.length := (List.getElem?_eq_some_iff.mp hn).1
  rw [List.getElem?_append_left hlt, hn]

theorem Complete.mono (h : requests <+: requests') (hs : Complete requests sent) :
    Complete requests' sent := by
  obtain ⟨calls, hcalls, hsent⟩ := hs
  exact ⟨calls, fun c hc => request_mono h (hcalls c hc), hsent⟩

theorem Framed.mono (h : requests <+: requests') (hs : Framed requests sent) :
    Framed requests' sent := by
  obtain ⟨whole, part, hwhole, hsent, hpart⟩ := hs
  refine ⟨whole, part, hwhole.mono h, hsent, hpart.imp_right ?_⟩
  rintro ⟨n, wire, hn, hpre⟩
  exact ⟨n, wire, request_mono h hn, hpre⟩

theorem Talk.mono (h : requests <+: requests') (hserved : ∀ x ∈ served, x ∈ served') {conn : Conn} {st : CallerStage}
    (ht : Talk requests served conn st) : Talk requests' served' conn st := by
  cases st with
  | idle => trivial
  | writing n polled rest body =>
    obtain ⟨wire, done, whole, hn, hframe, hin, hout, hwhole, hsent⟩ := ht
    exact ⟨wire, done, whole, request_mono h hn, hframe, hin, hout, hwhole.mono h, hsent⟩
  | reading n polled header need got =>
    obtain ⟨wire, hn, hlength, hsent, hwait | ⟨response, hmem, hread⟩⟩ := ht
    · exact ⟨wire, request_mono h hn, hlength, hsent.mono h, .inl hwait⟩
    · exact ⟨wire, request_mono h hn, hlength, hsent.mono h, .inr ⟨response, hserved _ hmem, hread⟩⟩
  | closing n begun => exact Framed.mono h ht

theorem Writes.mono (h : requests <+: requests') {st : CallerStage} (hw : Writes requests st) : Writes requests' st := by
  cases st with
  | writing n polled rest body =>
    obtain ⟨hrest, wire, hn, hlength, hsuffix, hbody⟩ := hw
    exact ⟨hrest, wire, request_mono h hn, hlength, hsuffix, hbody⟩
  | _ => trivial

end Mono

theorem Talk.framed {requests : List Bytes} {served : List (Nat × Bytes × Bytes)} {conn : Conn} {st : CallerStage}
    (h : Talk requests served conn st) (hst : st.engaged = true) : Framed requests conn.sent := by
  cases st with
  | idle => cases hst
  | writing n polled rest body =>
    obtain ⟨wire, done, whole, hn, hframe, -, -, hwhole, hsent⟩ := h
    rw [hsent]
    exact framed_part hwhole hn ⟨_, hframe.symm⟩
  | reading n polled header need got =>
    obtain ⟨-, -, -, hsent, -⟩ := h
    exact hsent.framed
  | closing n begun => exact h

/-! ### Steps -/

namespace Held

variable {P : Type} [DecidableEq P] {s s' : Channel P} {p : P} {st : CallerStage} {c : Nat}

/-- What a stage has to do with its owner's octets. -/
def Own (st : CallerStage) : Prop := ∀ n polled header need got, st = .reading n polled header need got → ∀ o ∈ got, o.call = n

/-- A caller goes on without touching the connection. -/
theorem setStage (h : Held s) (hengaged : st.engaged = (s.stage p).engaged) (hwrites : Writes s.requests st)
    (htalk : ∀ c, s.fd = some c → st.engaged = true → Talk s.requests s.served (s.conns c) (s.stage p) →
      Talk s.requests s.served (s.conns c) st) (hown : Own st) : Held (s.setStage p st) := by
  have hst : ∀ p', (Function.update s.stage p st p').engaged = (s.stage p').engaged := by
    intro p'
    by_cases hp : p' = p
    · subst hp
      rw [Function.update_self, hengaged]
    · rw [Function.update_of_ne hp]
  constructor
  · intro p1 p2 h1 h2
    exact h.alone p1 p2 ((hst p1).symm.trans h1) ((hst p2).symm.trans h2)
  · intro p'
    show Writes s.requests (Function.update s.stage p st p')
    by_cases hp : p' = p
    · subst hp
      rwa [Function.update_self]
    · rw [Function.update_of_ne hp]
      exact h.writes p'
  · intro c hfd hnone
    exact h.clean c hfd fun p' => (hst p').symm.trans (hnone p')
  · intro c p' hfd hp'
    have hp'' : (s.stage p').engaged = true := (hst p').symm.trans hp'
    show Talk s.requests s.served (s.conns c) (Function.update s.stage p st p')
    by_cases hp : p' = p
    · subst hp
      rw [Function.update_self]
      exact htalk c hfd (hengaged.trans hp'') (h.talk c p' hfd hp'')
    · rw [Function.update_of_ne hp]
      exact h.talk c p' hfd hp''
  · exact h.made
  · refine ⟨h.correct.wire, ?_, h.correct.answered⟩
    intro p' n polled header need got hp' o ho
    by_cases hp : p' = p
    · subst hp
      have hp' : Function.update s.stage p' st p' = _ := hp'
      rw [Function.update_self] at hp'
      exact hown n polled header need got hp' o ho
    · have hp' : Function.update s.stage p st p' = _ := hp'
      rw [Function.update_of_ne hp] at hp'
      exact h.correct.own p' n polled header need got hp' o ho

/-- The one caller that is engaged, and the connection, go on together. -/
theorem exchange (h : Held s) (st : CallerStage) (conn : Conn) (hfd : s.fd = some c)
    (hothers : ∀ p' ≠ p, (s.stage p').engaged = false)
    (hwrites : Writes s.requests st) (hown : Own st) (hframed : Framed s.requests conn.sent)
    (htalk : st.engaged = true → Talk s.requests s'.served conn st)
    (hclean : st.engaged = false → conn.inbox = [] ∧ conn.outbox = [] ∧ Complete s.requests conn.sent)
    (hfd' : s'.fd = s.fd) (hconns : s'.conns = Function.update s.conns c conn) (hmade : s'.made = s.made)
    (hstage : s'.stage = Function.update s.stage p st) (hrequests : s'.requests = s.requests)
    (hanswered : ∀ r ∈ s'.returned, ∃ wire, s.requests[r.1]? = some wire ∧ (r.1, wire, r.2) ∈ s'.served) : Held s' := by
  have hothers' : ∀ p' ≠ p, (s'.stage p').engaged = false := by
    intro p' hp
    rw [hstage, Function.update_of_ne hp]
    exact hothers p' hp
  have hself : s'.stage p = st := by rw [hstage, Function.update_self]
  have hcurrent : ∀ c', s'.fd = some c' → c' = c := by
    intro c' hc'
    rw [hfd', hfd] at hc'
    exact (Option.some.inj hc').symm
  have hconn : s'.conns c = conn := by rw [hconns, Function.update_self]
  constructor
  · intro p1 p2 h1 h2
    have hone : ∀ p', (s'.stage p').engaged = true → p' = p := by
      intro p' hp'
      by_contra hne
      rw [hothers' p' hne] at hp'
      cases hp'
    rw [hone p1 h1, hone p2 h2]
  · intro p'
    rw [hrequests]
    by_cases hp : p' = p
    · rw [hp, hself]
      exact hwrites
    · rw [hstage, Function.update_of_ne hp]
      exact h.writes p'
  · intro c' hc' hnone
    rw [hcurrent c' hc', hconn, hrequests]
    exact hclean (hself ▸ hnone p)
  · intro c' p' hc' hp'
    have hp : p' = p := by
      by_contra hne
      rw [hothers' p' hne] at hp'
      cases hp'
    subst hp
    rw [hcurrent c' hc', hconn, hrequests, hself]
    exact htalk (hself ▸ hp')
  · rw [hfd', hmade, hconns]
    refine ⟨h.made.1, ?_⟩
    intro c' hc'
    have hlt := h.made.1 c hfd
    rw [Function.update_of_ne (by omega)]
    exact h.made.2 c' hc'
  · refine ⟨?_, ?_, ?_⟩
    · intro c'
      rw [hrequests, hconns]
      by_cases hc : c' = c
      · subst hc
        rwa [Function.update_self]
      · rw [Function.update_of_ne hc]
        exact h.correct.wire c'
    · intro p' n polled header need got hp'
      by_cases hp : p' = p
      · rw [hp, hself] at hp'
        exact hown n polled header need got hp'
      · rw [hstage, Function.update_of_ne hp] at hp'
        exact h.correct.own p' n polled header need got hp'
    · rw [hrequests]
      exact hanswered

omit [DecidableEq P] in
/-- The channel has no descriptor any more, and a caller may be done. -/
theorem cut (h : Held s) (hstage : ∀ p, s'.stage p = s.stage p ∨ s'.stage p = .idle) (hfd : s'.fd = none)
    (hconns : s'.conns = s.conns) (hmade : s'.made = s.made) (hrequests : s'.requests = s.requests)
    (hserved : s'.served = s.served) (hreturned : s'.returned = s.returned) : Held s' := by
  have hsub : ∀ p, (s'.stage p).engaged = true → (s.stage p).engaged = true := by
    intro p hp
    rcases hstage p with hst | hst
    · rwa [hst] at hp
    · rw [hst] at hp
      cases hp
  constructor
  · exact fun p p' hp hp' => h.alone p p' (hsub p hp) (hsub p' hp')
  · intro p
    rw [hrequests]
    rcases hstage p with hst | hst
    · rw [hst]
      exact h.writes p
    · rw [hst]
      trivial
  · intro c hc
    rw [hfd] at hc
    cases hc
  · intro c p hc
    rw [hfd] at hc
    cases hc
  · rw [hfd, hmade, hconns]
    exact ⟨by simp, h.made.2⟩
  · refine ⟨?_, ?_, ?_⟩
    · rw [hrequests, hconns]
      exact h.correct.wire
    · intro p n polled header need got hp
      rcases hstage p with hst | hst
      · rw [hst] at hp
        exact h.correct.own p n polled header need got hp
      · rw [hst] at hp
        cases hp
    · rw [hreturned, hrequests, hserved]
      exact h.correct.answered

omit [DecidableEq P] in
theorem connect (h : Held s) (hnone : ∀ p, (s.stage p).engaged = false) :
    Held { s with fd := some s.made, made := s.made + 1 } := by
  constructor
  · intro p p' hp
    rw [show ({ s with fd := some s.made, made := s.made + 1 } : Channel P).stage p = s.stage p from rfl, hnone p] at hp
    cases hp
  · exact h.writes
  · intro c hc _
    have hc : some s.made = some c := hc
    cases hc
    show (s.conns s.made).inbox = [] ∧ _
    rw [h.made.2 s.made (Nat.le_refl _)]
    exact ⟨rfl, rfl, .nil _⟩
  · intro c p _ hp
    have hp : (s.stage p).engaged = true := hp
    rw [hnone p] at hp
    cases hp
  · refine ⟨?_, fun c hc => h.made.2 c (Nat.le_of_succ_le hc)⟩
    intro c hc
    have hc : some s.made = some c := hc
    cases hc
    exact Nat.lt_succ_self _
  · exact ⟨h.correct.wire, h.correct.own, h.correct.answered⟩

omit [DecidableEq P] in
theorem mono (h : Held s) {requests : List Bytes} (hreq : s.requests <+: requests) :
    Held { s with requests := requests } := by
  constructor
  · exact h.alone
  · exact fun p => (h.writes p).mono hreq
  · intro c hc hnone
    obtain ⟨hin, hout, hsent⟩ := h.clean c hc hnone
    exact ⟨hin, hout, hsent.mono hreq⟩
  · exact fun c p hc hp => (h.talk c p hc hp).mono hreq fun _ hx => hx
  · exact h.made
  · refine ⟨fun c => (h.correct.wire c).mono hreq, h.correct.own, ?_⟩
    intro r hr
    obtain ⟨wire, hwire, hmem⟩ := h.correct.answered r hr
    exact ⟨wire, request_mono hreq hwire, hmem⟩

theorem call (h : Held s) (hp : s.stage p = .idle) (wire : Bytes) : Held (s.call p wire) := by
  unfold Channel.call
  split
  next => exact h
  next hgo =>
    have hlength : wire.length < maxSerialized := by
      by_contra hge
      exact hgo (.inr (Nat.not_lt.mp hge))
    refine (h.mono (List.prefix_append s.requests [wire])).setStage ?_ ?_ ?_ ?_
    · show _ = (s.stage p).engaged
      rw [hp]
      simp [CallerStage.engaged, encodeBe32_length]
    · refine ⟨List.ne_nil_of_length_eq_add_one (encodeBe32_length _), wire, by simp, hlength, List.suffix_refl _, ?_⟩
      exact fun _ => ⟨rfl, Nat.le_of_eq (encodeBe32_length _)⟩
    · intro c _ hst
      simp [CallerStage.engaged, encodeBe32_length] at hst
    · intro n polled header need got hst
      cases hst

theorem fail (h : Held s) {begun : Bool} (hbegun : begun = (s.stage p).engaged) :
    Held (s.setStage p (.closing n begun)) := by
  refine h.setStage hbegun trivial ?_ ?_
  · intro c _ hst htalk
    exact htalk.framed (hbegun ▸ hst)
  · intro n polled header need got hst
    cases hst

/-- `poll` returns, or the call was interrupted. -/
theorem polled (h : Held s) {polled polled' : Bool} :
    (∀ rest body, s.stage p = .writing n polled rest body → Held (s.setStage p (.writing n polled' rest body))) ∧
      ∀ header need got, s.stage p = .reading n polled header need got →
        Held (s.setStage p (.reading n polled' header need got)) := by
  constructor
  · intro rest body hp
    have hwrites := h.writes p
    rw [hp] at hwrites
    refine h.setStage (by rw [hp]; rfl) hwrites ?_ ?_
    · intro c _ _ htalk
      rw [hp] at htalk
      exact htalk
    · intro n polled header need got hst
      cases hst
  · intro header need got hp
    refine h.setStage (by rw [hp]; rfl) trivial ?_ ?_
    · intro c _ _ htalk
      rw [hp] at htalk
      exact htalk
    · intro n polled header need got hst
      cases hst
      exact h.correct.own p _ _ _ _ _ hp

variable {body : Option Bytes}

theorem written {requests : List Bytes} (served : List (Nat × Bytes × Bytes)) (conn : Conn)
    {wire done rest : Bytes} {whole : List Octet} (hn : requests[n]? = some wire)
    (hlength : wire.length < maxSerialized) (hframe : frame wire = done ++ (rest ++ body.getD []))
    (hbody : body ≠ none → body = some wire ∧ rest.length < 4) (hin : conn.inbox = tag n done) (hout : conn.outbox = [])
    (hwhole : Complete requests whole) (hsent : conn.sent = whole ++ tag n done) :
    (CallerStage.written n rest body).engaged = true ∧ Talk requests served conn (.written n rest body) ∧
      Writes requests (.written n rest body) ∧ Own (.written n rest body) := by
  have hreading : frame wire = done → (CallerStage.reading n false true 4 []).engaged = true ∧
      Talk requests served conn (.reading n false true 4 []) ∧ Writes requests (.reading n false true 4 []) ∧
      Own (.reading n false true 4 []) := by
    intro hall
    refine ⟨rfl, ⟨wire, hn, hlength, ?_, .inl ⟨by rw [hin, hall], hout, rfl, rfl, rfl⟩⟩, trivial, ?_⟩
    · rw [hsent, ← hall]
      exact hwhole.concat hn
    · intro n polled header need got hst
      cases hst
      simp
  unfold CallerStage.written
  split
  next hrest =>
    refine ⟨?_, ⟨wire, done, whole, hn, hframe, hin, hout, hwhole, hsent⟩, ⟨hrest, wire, hn, hlength, ?_, ?_⟩, ?_⟩
    · cases body with
      | none => rfl
      | some b =>
        have hlt := (hbody (by simp)).2
        simp [CallerStage.engaged]
        omega
    · exact ⟨done, hframe.symm⟩
    · exact fun hb => ⟨(hbody hb).1, Nat.le_of_lt (hbody hb).2⟩
    · intro n polled header need got hst
      cases hst
  next hrest =>
    have hrest : rest = [] := by simpa using hrest
    rw [hrest, List.nil_append] at hframe
    cases body with
    | none => exact hreading (by simpa using hframe)
    | some bytes =>
      cases bytes with
      | nil => exact hreading (by simpa using hframe)
      | cons b bs =>
        refine ⟨rfl, ⟨wire, done, whole, hn, by simpa using hframe, hin, hout, hwhole, hsent⟩,
          ⟨by simp, wire, hn, hlength, ⟨done, by simpa using hframe.symm⟩, by simp⟩, ?_⟩
        intro n polled header need got hst
        cases hst

theorem begun (h : Held s) {polled : Bool} {rest : Bytes}
    (hp : s.stage p = .writing n polled rest body) (hfd : s.fd = some c)
    (hothers : ∀ p' ≠ p, (s.stage p').engaged = false) : ∃ wire done whole, s.requests[n]? = some wire ∧
      wire.length < maxSerialized ∧ (body ≠ none → body = some wire ∧ rest.length ≤ 4) ∧
      frame wire = done ++ (rest ++ body.getD []) ∧ (s.conns c).inbox = tag n done ∧ (s.conns c).outbox = [] ∧
      Complete s.requests whole ∧ (s.conns c).sent = whole ++ tag n done := by
  have hwrites := h.writes p
  rw [hp] at hwrites
  obtain ⟨-, wire, hn, hlength, hsuffix, hbody⟩ := hwrites
  by_cases hengaged : (s.stage p).engaged = true
  · have htalk := h.talk c p hfd hengaged
    rw [hp] at htalk
    obtain ⟨wire', done, whole, hn', hframe, hin, hout, hwhole, hsent⟩ := htalk
    have hsame : wire' = wire := Option.some.inj (hn'.symm.trans hn)
    subst hsame
    exact ⟨wire', done, whole, hn, hlength, hbody, hframe, hin, hout, hwhole, hsent⟩
  · -- Nothing was written, so what is left is the whole frame.
    have hnone : ∀ p', (s.stage p').engaged = false := by
      intro p'
      by_cases hpp : p' = p
      · rw [hpp]
        exact Bool.not_eq_true _ ▸ hengaged
      · exact hothers p' hpp
    obtain ⟨hin, hout, hsent⟩ := h.clean c hfd hnone
    have hstart : body ≠ none ∧ rest.length = 4 := by
      rw [hp] at hengaged
      simpa [CallerStage.engaged] using hengaged
    have hwire := (hbody hstart.1).1
    refine ⟨wire, [], (s.conns c).sent, hn, hlength, hbody, ?_, hin, hout, hsent, by simp [tag]⟩
    refine (hsuffix.eq_of_length ?_).symm
    rw [hwire, frame_length, List.length_append, hstart.2]
    rfl

theorem send (h : Held s) {n k : Nat} {rest : Bytes} (hp : s.stage p = .writing n true rest body)
    (hfd : s.fd = some c) (hothers : ∀ p' ≠ p, (s.stage p').engaged = false) (hk : 0 < k ∧ k ≤ rest.length) :
    Held ((s.setConn c { s.conns c with
      inbox := (s.conns c).inbox ++ tag n (rest.take k)
      sent := (s.conns c).sent ++ tag n (rest.take k) }).setStage p (.written n (rest.drop k) body)) := by
  obtain ⟨wire, done, whole, hn, hlength, hbody, hframe, hin, hout, hwhole, hsent⟩ := h.begun hp hfd hothers
  have hframe' : frame wire = (done ++ rest.take k) ++ (rest.drop k ++ body.getD []) := by
    rw [hframe, List.append_assoc, ← List.append_assoc (rest.take k), List.take_append_drop]
  have hbody' : body ≠ none → body = some wire ∧ (rest.drop k).length < 4 := by
    intro hb
    refine ⟨(hbody hb).1, ?_⟩
    have := (hbody hb).2
    rw [List.length_drop]
    omega
  have hin' : (s.conns c).inbox ++ tag n (rest.take k) = tag n (done ++ rest.take k) := by rw [hin, tag_append]
  have hsent' : (s.conns c).sent ++ tag n (rest.take k) = whole ++ tag n (done ++ rest.take k) := by
    rw [hsent, tag_append, List.append_assoc]
  obtain ⟨hengaged, htalk, hwrites, hown⟩ := written s.served
    { s.conns c with
      inbox := (s.conns c).inbox ++ tag n (rest.take k)
      sent := (s.conns c).sent ++ tag n (rest.take k) } hn hlength hframe' hbody' hin' hout hwhole hsent'
  refine h.exchange _ _ hfd hothers hwrites hown (htalk.framed hengaged) (fun _ => htalk) ?_ rfl rfl rfl rfl rfl
    h.correct.answered
  intro hnot
  rw [hengaged] at hnot
  cases hnot

/-- A call reads on.  What it has and what is still to come make up the rest of its response. -/
theorem recv (h : Held s) {n k need : Nat} {header parsed : Bool} {got : List Octet}
    (hp : s.stage p = .reading n true header need got) (hfd : s.fd = some c)
    (hk : 0 < k ∧ k ≤ need ∧ k ≤ (s.conns c).outbox.length)
    (hstep : s.step (.recv p k parsed) = some s') : Held s' := by
  have hengaged : (s.stage p).engaged = true := by rw [hp]; rfl
  have hothers : ∀ p' ≠ p, (s.stage p').engaged = false := by
    intro p' hne
    by_contra hp'
    exact hne (h.alone p' p (Bool.not_eq_false _ ▸ hp') hengaged)
  have htalk := h.talk c p hfd hengaged
  rw [hp] at htalk
  obtain ⟨wire, hn, hwire, hsent, ⟨-, hout, -⟩ | ⟨response, hserved, hlength, hin, hmessage, hneed⟩⟩ := htalk
  · rw [hout] at hk
    exact absurd hk.2.2 (by simp; omega)
  have hmessage' : (got ++ (s.conns c).outbox.take k) ++ (s.conns c).outbox.drop k =
      tag n (if header then frame response else response) := by
    rw [List.append_assoc, List.take_append_drop, hmessage]
  have hgot : (got ++ (s.conns c).outbox.take k).length = got.length + k := by
    rw [List.length_append, List.length_take, Nat.min_eq_left hk.2.2]
  have hmine : ∀ o ∈ got ++ (s.conns c).outbox.take k, o.call = n := by
    intro o ho
    exact mem_tag (hmessage' ▸ List.mem_append_left _ ho)
  simp only [Channel.step, hp, hfd, hk, and_self, if_true] at hstep
  let conn : Conn := { s.conns c with outbox := (s.conns c).outbox.drop k }
  by_cases hall : need = k
  · rw [if_pos hall] at hstep
    cases hstep
    have hlen : (got ++ (s.conns c).outbox.take k).length = if header then 4 else response.length := by omega
    cases header with
    | true =>
      -- The length is that of the response, which is all that is left.
      obtain ⟨htake, hdrop⟩ : got ++ (s.conns c).outbox.take k = tag n (encodeBe32 response.length) ∧
          (s.conns c).outbox.drop k = tag n response := by
        refine List.append_inj ?_ ?_
        · rw [← tag_append]
          exact hmessage'
        · rw [tag_length, encodeBe32_length]
          exact hlen
      have hdecode : decodeBe32 ((got ++ (s.conns c).outbox.take k).map (·.byte)) = response.length := by
        rw [htake, tag_bytes]
        exact decode_encode (Nat.lt_trans hlength (by decide))
      simp only [Channel.received, if_true, hdecode]
      split
      · refine h.exchange (.closing n true) conn hfd hothers trivial ?_ hsent.framed (fun _ => hsent.framed) ?_ rfl rfl rfl rfl
          rfl h.correct.answered
        · intro n polled header need got hst
          cases hst
        · intro hnot
          cases hnot
      · refine h.exchange (.reading n false false response.length []) conn hfd hothers trivial ?_ hsent.framed ?_ ?_ rfl rfl rfl
          rfl rfl h.correct.answered
        · intro n polled header need got hst
          cases hst
          simp
        · intro _
          exact ⟨wire, hn, hwire, hsent, .inr ⟨response, hserved, hlength, hin, by simpa using hdrop, by simp⟩⟩
        · intro hnot
          cases hnot
    | false =>
      obtain ⟨htake, hdrop⟩ : got ++ (s.conns c).outbox.take k = tag n response ∧ (s.conns c).outbox.drop k = [] := by
        refine List.append_inj (hmessage'.trans (List.append_nil _).symm) ?_
        rw [tag_length]
        exact hlen
      have hdone : ∀ s' : Channel P, s'.fd = s.fd →
          s'.conns = Function.update s.conns c { s.conns c with outbox := (s.conns c).outbox.drop k } →
          s'.made = s.made → s'.stage = Function.update s.stage p .idle → s'.requests = s.requests →
          (∀ r ∈ s'.returned, ∃ wire, s.requests[r.1]? = some wire ∧ (r.1, wire, r.2) ∈ s'.served) → Held s' := by
        intro s' h1 h2 h3 h4 h5 h6
        refine h.exchange .idle conn hfd hothers trivial ?_ hsent.framed ?_ (fun _ => ⟨hin, hdrop, hsent⟩) h1 h2 h3 h4 h5 h6
        · intro n polled header need got hst
          cases hst
        · intro hnot
          cases hnot
      simp only [Channel.received, Bool.false_eq_true, if_false]
      split
      · refine hdone _ rfl rfl rfl rfl rfl ?_
        intro r hr
        rcases List.mem_cons.mp hr with rfl | hr
        · refine ⟨wire, hn, ?_⟩
          rw [htake, tag_bytes]
          exact hserved
        · exact h.correct.answered r hr
      · exact hdone _ rfl rfl rfl rfl rfl h.correct.answered
  · rw [if_neg hall] at hstep
    cases hstep
    refine h.exchange (.reading n false header (need - k) (got ++ (s.conns c).outbox.take k)) conn hfd hothers trivial ?_
      hsent.framed ?_ ?_ rfl rfl rfl rfl rfl h.correct.answered
    · intro n polled header need got hst
      cases hst
      exact hmine
    · intro _
      refine ⟨wire, hn, hwire, hsent, .inr ⟨response, hserved, hlength, hin, hmessage', ?_⟩⟩
      omega
    · intro hnot
      cases hnot

omit [DecidableEq P] in
/-- Something happens on a connection that is not the channel's any more. -/
theorem elsewhere (h : Held s) (conn : Conn) (hfd : s.fd ≠ some c) (hsent : conn.sent = (s.conns c).sent)
    (hmade : c < s.made) {served : List (Nat × Bytes × Bytes)} (hserved : ∀ x ∈ s.served, x ∈ served) :
    Held { s.setConn c conn with served := served } := by
  have hsame : ∀ c', s.fd = some c' → Function.update s.conns c conn c' = s.conns c' := by
    intro c' hc'
    rw [Function.update_of_ne]
    rintro rfl
    exact hfd hc'
  constructor
  · exact h.alone
  · exact h.writes
  · intro c' hc' hnone
    show (Function.update s.conns c conn c').inbox = [] ∧ (Function.update s.conns c conn c').outbox = [] ∧
      Complete s.requests (Function.update s.conns c conn c').sent
    rw [hsame c' hc']
    exact h.clean c' hc' hnone
  · intro c' p' hc' hp'
    show Talk s.requests served (Function.update s.conns c conn c') (s.stage p')
    rw [hsame c' hc']
    exact (h.talk c' p' hc' hp').mono (List.prefix_refl _) hserved
  · refine ⟨h.made.1, ?_⟩
    intro c' hc'
    have hc' : s.made ≤ c' := hc'
    show Function.update s.conns c conn c' = {}
    rw [Function.update_of_ne (by omega)]
    exact h.made.2 c' hc'
  · refine ⟨?_, h.correct.own, ?_⟩
    · intro c'
      show Framed s.requests (Function.update s.conns c conn c').sent
      by_cases hc : c' = c
      · rw [hc, Function.update_self, hsent]
        exact h.correct.wire c
      · rw [Function.update_of_ne hc]
        exact h.correct.wire c'
    · intro r hr
      obtain ⟨wire, hwire, hmem⟩ := h.correct.answered r hr
      exact ⟨wire, hwire, hserved _ hmem⟩

theorem serve (h : Held s) {response : Bytes} (hstep : s.serve c response = some s') : Held s' := by
  unfold Channel.serve at hstep
  split at hstep
  next => cases hstep
  next owner request rest hnext =>
    obtain ⟨hresponse, hstep⟩ := Option.ite_none_right_eq_some.mp hstep
    cases hstep
    have hne : (s.conns c).inbox ≠ [] := by
      intro hnil
      simp [Conn.nextFrame, hnil] at hnext
    have hmore : ∀ x ∈ s.served, x ∈ (owner, request, response) :: s.served := fun _ hx => List.mem_cons_of_mem _ hx
    by_cases hfd : s.fd = some c
    · by_cases hnone : ∀ p, (s.stage p).engaged = false
      · exact absurd (h.clean c hfd hnone).1 hne
      · obtain ⟨p, hp⟩ : ∃ p, (s.stage p).engaged = true := by simpa using hnone
        have hothers : ∀ p' ≠ p, (s.stage p').engaged = false := by
          intro p' hpp
          by_contra hp'
          exact hpp (h.alone p' p (Bool.not_eq_false _ ▸ hp') hp)
        have hanswered : ∀ r ∈ s.returned, ∃ wire, s.requests[r.1]? = some wire ∧
            (r.1, wire, r.2) ∈ (owner, request, response) :: s.served := by
          intro r hr
          obtain ⟨wire, hwire, hmem⟩ := h.correct.answered r hr
          exact ⟨wire, hwire, hmore _ hmem⟩
        have htalk := h.talk c p hfd hp
        refine h.exchange (s.stage p) { s.conns c with
          inbox := rest
          outbox := (s.conns c).outbox ++ tag owner (frame response) } hfd hothers (h.writes p) (h.correct.own p)
          (htalk.framed hp) (fun _ => ?_) (fun hnot => absurd (hp.symm.trans hnot) (by simp)) rfl rfl rfl
          (Function.update_eq_self ..).symm rfl hanswered
        cases hst : s.stage p with
        | idle => trivial
        | writing n polled left body =>
          -- A frame is not whole before all of it was written.
          have hwrites := h.writes p
          rw [hst] at htalk hwrites
          obtain ⟨hleft, wire, hn, hlength, -⟩ := hwrites
          obtain ⟨wire', done, -, hn', hframe, hin, -⟩ := htalk
          have hsame : wire' = wire := Option.some.inj (hn'.symm.trans hn)
          subst hsame
          obtain ⟨hall, -⟩ := nextFrame_tag hin ⟨_, hframe.symm⟩ (Nat.lt_trans hlength (by decide)) hnext
          rw [← hall] at hframe
          simp [hleft] at hframe
        | reading n polled header need got =>
          rw [hst] at htalk
          obtain ⟨wire, hn, hlength, hsent, ⟨hin, hout, hgot, hheader, hneed⟩ | ⟨-, -, -, hin, -⟩⟩ := htalk
          · obtain ⟨-, hx⟩ := nextFrame_tag hin (List.prefix_refl _) (Nat.lt_trans hlength (by decide)) hnext
            obtain ⟨rfl, rfl, rfl⟩ : owner = n ∧ request = wire ∧ rest = [] := by simpa using hx
            refine ⟨request, hn, hlength, hsent, .inr ⟨response, List.mem_cons_self, hresponse, rfl, ?_, ?_⟩⟩
            · rw [hgot, hout, hheader]
              rfl
            · rw [hgot, hheader, hneed]
              rfl
          · exact absurd hin hne
        | closing n begun => exact htalk.framed hp
    · refine h.elsewhere { s.conns c with
        inbox := rest
        outbox := (s.conns c).outbox ++ tag owner (frame response) } hfd rfl ?_ hmore
      by_contra hge
      rw [h.made.2 c (Nat.not_lt.mp hge)] at hne
      exact hne rfl

theorem step {e : ChannelEvent P} (h : Held s) (hexclusive : s.Exclusive e) (hstep : s.step e = some s') : Held s' := by
  cases e with
  | connect ok =>
    cases ok with
    | true => cases hstep; exact h.connect hexclusive
    | false => cases hstep; exact h.cut (fun _ => .inl rfl) rfl rfl rfl rfl rfl rfl
  | close => cases hstep; exact h.cut (fun _ => .inl rfl) rfl rfl rfl rfl rfl rfl
  | call p wire =>
    obtain ⟨hp, hstep⟩ := Option.ite_none_right_eq_some.mp hstep
    cases hstep
    exact h.call hp wire
  | poll p ready =>
    simp only [Channel.step] at hstep
    split at hstep
    next n rest body hp =>
      cases ready with
      | true =>
        obtain ⟨-, hstep⟩ := Option.ite_none_right_eq_some.mp hstep
        cases hstep
        exact h.polled.1 rest body hp
      | false => cases hstep; exact h.fail rfl
    next n header need got hp =>
      cases ready with
      | true =>
        obtain ⟨-, hstep⟩ := Option.ite_none_right_eq_some.mp hstep
        cases hstep
        exact h.polled.2 header need got hp
      | false => cases hstep; exact h.fail (by rw [hp]; rfl)
    next => cases hstep
  | again p =>
    simp only [Channel.step] at hstep
    split at hstep
    next n rest body hp => cases hstep; exact h.polled.1 rest body hp
    next n header need got hp => cases hstep; exact h.polled.2 header need got hp
    next => cases hstep
  | error p =>
    simp only [Channel.step] at hstep
    split at hstep
    next n rest body hp => cases hstep; exact h.fail rfl
    next n header need got hp => cases hstep; exact h.fail (by rw [hp]; rfl)
    next => cases hstep
  | send p k =>
    simp only [Channel.step] at hstep
    split at hstep
    next n rest body c hp hfd =>
      obtain ⟨hk, hstep⟩ := Option.ite_none_right_eq_some.mp hstep
      cases hstep
      refine h.send hp hfd ?_ hk
      intro p' hne
      by_cases hself : (s.stage p).engaged = true
      · by_contra hp'
        exact hne (h.alone p' p (Bool.not_eq_false _ ▸ hp') hself)
      · exact hexclusive (Bool.not_eq_true _ ▸ hself) p'
    next => cases hstep
  | recv p k parsed =>
    have hstep' := hstep
    simp only [Channel.step] at hstep
    split at hstep
    next n header need got c hp hfd =>
      obtain ⟨hk, -⟩ := Option.ite_none_right_eq_some.mp hstep
      exact h.recv hp hfd hk hstep'
    next => cases hstep
  | hangUp p =>
    simp only [Channel.step] at hstep
    split at hstep
    next n begun hp =>
      cases hstep
      refine h.cut ?_ rfl rfl rfl rfl rfl rfl
      intro p'
      show Function.update s.stage p .idle p' = s.stage p' ∨ Function.update s.stage p .idle p' = .idle
      by_cases hpp : p' = p
      · rw [hpp, Function.update_self]
        exact .inr rfl
      · rw [Function.update_of_ne hpp]
        exact .inl rfl
    next => cases hstep
  | serve c response => exact h.serve hstep

omit [DecidableEq P] in
theorem new : Held (Channel.new : Channel P) := by
  refine ⟨?_, ?_, ?_, ?_, ⟨?_, ?_⟩, ⟨?_, ?_, ?_⟩⟩
  · intro p p' hp
    cases hp
  · exact fun p => trivial
  · intro c hc
    cases hc
  · intro c p hc
    cases hc
  · intro c hc
    cases hc
  · exact fun c _ => rfl
  · exact fun c => (Complete.nil _).framed
  · intro p n polled header need got hp
    cases hp
  · intro r hr
    cases hr

/-! ## Top theorem -/

theorem run (es : List (ChannelEvent P)) (h : Held s) (hexclusive : s.Along Channel.Exclusive es)
    (hrun : s.run es = some s') : Held s' := by
  induction es generalizing s with
  | nil => cases hrun; exact h
  | cons e es ih =>
    obtain ⟨s1, hstep, hrun⟩ := Option.bind_eq_some_iff.mp hrun
    exact ih (h.step hexclusive.1 hstep) (hexclusive.2 s1 hstep) hrun

end Held

theorem calls_answered {P : Type} [DecidableEq P] (es : List (ChannelEvent P)) {s : Channel P}
    (hexclusive : (Channel.new : Channel P).Along Channel.Exclusive es) (hrun : Channel.new.run es = some s) : s.Correct :=
  (Held.new.run es hexclusive hrun).correct

/-- Two calls one after the other, with sends and receives in parts. -/
theorem calls_answered_two : ∃ s : Channel (Fin 2), Channel.new.run
    [.connect true, .call 0 [1], .call 1 [2], .poll 0 true, .send 0 3, .poll 0 true, .send 0 1, .poll 0 true, .send 0 1,
      .serve 0 [11], .poll 0 true, .recv 0 4 true, .poll 0 true, .recv 0 1 true, .poll 1 true, .send 1 4, .poll 1 true,
      .send 1 1, .serve 0 [12], .poll 1 true, .recv 1 4 true, .poll 1 true, .recv 1 1 true] = some s ∧
    s.returned = [(1, [12]), (0, [11])] ∧ s.Correct := by
  have hexclusive : (Channel.new : Channel (Fin 2)).Along Channel.Exclusive [.connect true, .call 0 [1], .call 1 [2],
    .poll 0 true, .send 0 3, .poll 0 true, .send 0 1, .poll 0 true, .send 0 1, .serve 0 [11], .poll 0 true,
    .recv 0 4 true, .poll 0 true, .recv 0 1 true, .poll 1 true, .send 1 4, .poll 1 true, .send 1 1, .serve 0 [12],
    .poll 1 true, .recv 1 4 true, .poll 1 true, .recv 1 1 true] := by decide
  exact ⟨_, rfl, rfl, calls_answered _ hexclusive rfl⟩

/-- Both requests are written before the first response is read, and the second caller reads it. -/
theorem answer_of_another : ∃ s : Channel (Fin 2), Channel.new.run
    [.connect true, .call 0 [1], .call 1 [2], .poll 0 true, .send 0 4, .poll 0 true, .send 0 1, .poll 1 true, .send 1 4,
      .poll 1 true, .send 1 1, .serve 0 [11], .poll 1 true, .recv 1 4 true, .poll 1 true, .recv 1 1 true] = some s ∧
    ¬ s.Correct := by
  refine ⟨_, rfl, ?_⟩
  intro h
  obtain ⟨wire, -, hmem⟩ := h.answered (1, [11]) (by decide)
  have hserved : (1, wire, [11]) ∈ [((0, [1], [11]) : Nat × Bytes × Bytes)] := hmem
  simp at hserved

end Rpc
