import ZeroFrameworks.Kv.Bytes

/-!
# HTTP/2 frames (`http/http2.cc`)

`onFrame` is given the bytes a connection receives, in pieces.  It keeps nothing of a piece between two calls, so a
piece must end where a frame ends; the bytes of a frame that is cut are lost.

    every piece ends at the end of a frame  →  each SETTINGS frame is applied once, in order   (onFrames_whole)
-/

namespace Http.Http2

open Kv (Bytes lit)

/-! ## Algorithm -/

def kConnectionPreface : Bytes := lit "PRI * HTTP/2.0\r\n\r\nSM\r\n\r\n"

/-- `FrameType::SETTINGS`. -/
def SETTINGS : UInt8 := 0x4

/-- `FrameFlags::ACK`. -/
def ACK : UInt8 := 0x1

def SETTINGS_MAX_CONCURRENT_STREAMS : UInt16 := 0x3

def SETTINGS_MAX_FRAME_SIZE : UInt16 := 0x5

/-- `length` and `streamId` are `uint32_t`. -/
structure FrameHeader where
  length : Nat
  type : UInt8
  flags : UInt8
  streamId : Nat
  deriving DecidableEq

/-- `FrameHeader::kSize`. -/
def kSize : Nat := 9

/-- `none` is `return false`. -/
def FrameHeader.decode : Bytes → Option FrameHeader
  | d0 :: d1 :: d2 :: d3 :: d4 :: d5 :: d6 :: d7 :: d8 :: _ =>
    some {
      length := d0.toNat * 2 ^ 16 + d1.toNat * 2 ^ 8 + d2.toNat
      type := d3
      flags := d4
      streamId := (d5.toNat * 2 ^ 24 + d6.toNat * 2 ^ 16 + d7.toNat * 2 ^ 8 + d8.toNat) % 2 ^ 31 }
  | _ => none

def FrameHeader.encode (h : FrameHeader) : Bytes :=
  [UInt8.ofNat (h.length / 2 ^ 16), UInt8.ofNat (h.length / 2 ^ 8), UInt8.ofNat h.length, h.type, h.flags,
    UInt8.ofNat (h.streamId / 2 ^ 24 % 2 ^ 7), UInt8.ofNat (h.streamId / 2 ^ 16), UInt8.ofNat (h.streamId / 2 ^ 8),
    UInt8.ofNat h.streamId]

structure SettingsFrame where
  params : List (UInt16 × UInt32)
  deriving DecidableEq

/-- The loop of `SettingsFrame::decode` over the bytes of the payload. -/
def decodeParams : Bytes → List (UInt16 × UInt32)
  | p0 :: p1 :: p2 :: p3 :: p4 :: p5 :: rest =>
    (UInt16.ofNat (p0.toNat * 2 ^ 8 + p1.toNat),
      UInt32.ofNat (p2.toNat * 2 ^ 24 + p3.toNat * 2 ^ 16 + p4.toNat * 2 ^ 8 + p5.toNat)) :: decodeParams rest
  | _ => []

def SettingsFrame.decode (payload : Bytes) : Option SettingsFrame :=
  if payload.length % 6 ≠ 0 then none else some ⟨decodeParams payload⟩

def encodeParam (p : UInt16 × UInt32) : Bytes :=
  [UInt8.ofNat (p.1.toNat / 2 ^ 8), UInt8.ofNat p.1.toNat, UInt8.ofNat (p.2.toNat / 2 ^ 24),
    UInt8.ofNat (p.2.toNat / 2 ^ 16), UInt8.ofNat (p.2.toNat / 2 ^ 8), UInt8.ofNat p.2.toNat]

def SettingsFrame.encode (s : SettingsFrame) : Bytes := s.params.flatMap encodeParam

structure Http2Connection where
  receivedPreface : Bool
  settingsAcked : Bool
  maxFrameSize : UInt32
  maxConcurrentStreams : UInt32
  deriving DecidableEq

/-- A new connection. -/
def Http2Connection.create : Http2Connection where
  receivedPreface := false
  settingsAcked := false
  maxFrameSize := 16384
  maxConcurrentStreams := 100

namespace Http2Connection

def setParam (c : Http2Connection) (p : UInt16 × UInt32) : Http2Connection :=
  if p.1 = SETTINGS_MAX_FRAME_SIZE then { c with maxFrameSize := p.2 }
  else if p.1 = SETTINGS_MAX_CONCURRENT_STREAMS then { c with maxConcurrentStreams := p.2 }
  else c

def handleSettings (c : Http2Connection) (header : FrameHeader) (payload : Bytes) : Bool × Http2Connection :=
  if header.flags &&& ACK ≠ 0 then (true, { c with settingsAcked := true })
  else
    match SettingsFrame.decode (payload.take header.length) with
    | none => (false, c)
    | some settings => (true, settings.params.foldl setParam c)

/-- The loop of `onFrame`; `fuel` bounds the number of frames. -/
def frameLoop : Nat → Bytes → Http2Connection → Bool × Http2Connection
  | 0, _, c => (true, c)
  | fuel + 1, data, c =>
    if data.length < kSize then (true, c)
    else
      match FrameHeader.decode data with
      | none => (false, c)
      | some header =>
        if data.length < kSize + header.length then (false, c)
        else
          let payload := data.drop kSize
          let rest := data.drop (kSize + header.length)
          if header.type = SETTINGS then
            match handleSettings c header payload with
            | (false, c) => (false, c)
            | (true, c) => frameLoop fuel rest c
          else frameLoop fuel rest c

def onFrame (c : Http2Connection) (data : Bytes) : Bool × Http2Connection :=
  if c.receivedPreface then frameLoop data.length data c
  else if data.length < kConnectionPreface.length then (false, c)
  else if data.take kConnectionPreface.length ≠ kConnectionPreface then (false, c)
  else
    let rest := data.drop kConnectionPreface.length
    frameLoop rest.length rest { c with receivedPreface := true }

/-- The connection after a call for each piece. -/
def onFrames (c : Http2Connection) (pieces : List Bytes) : Http2Connection :=
  pieces.foldl (fun c piece => (c.onFrame piece).2) c

end Http2Connection

/-! ## Specification -/

/-- What a frame carries. -/
inductive Body where
  | settings (s : SettingsFrame)
  | other (type : UInt8) (payload : Bytes) (notSettings : type ≠ SETTINGS)

def Body.type : Body → UInt8
  | .settings _ => SETTINGS
  | .other type _ _ => type

def Body.payload : Body → Bytes
  | .settings s => s.encode
  | .other _ payload _ => payload

/-- A frame whose length fits its header. -/
structure Frame where
  flags : UInt8
  streamId : Nat
  body : Body
  small : body.payload.length < 2 ^ 24

namespace Frame

def header (f : Frame) : FrameHeader where
  length := f.body.payload.length
  type := f.body.type
  flags := f.flags
  streamId := f.streamId

def encode (f : Frame) : Bytes := f.header.encode ++ f.body.payload

/-- A SETTINGS frame sets the parameters it lists or acknowledges ours; other frames change nothing here. -/
def apply (c : Http2Connection) (f : Frame) : Http2Connection :=
  match f.body with
  | .settings s =>
    if f.flags &&& ACK ≠ 0 then { c with settingsAcked := true } else s.params.foldl Http2Connection.setParam c
  | .other .. => c

end Frame

/-- What a client sends. -/
def stream (frames : List Frame) : Bytes := kConnectionPreface ++ frames.flatMap Frame.encode

/-- Whatever was received before a call is nothing or ends where a frame, or the preface, ends. -/
def Whole (frames : List Frame) (pieces : List Bytes) : Prop :=
  ∀ i, (pieces.take i).flatten = [] ∨ ∃ k, (pieces.take i).flatten = stream (frames.take k)

/-- The connection after each SETTINGS frame was applied once, in order. -/
def received (frames : List Frame) : Http2Connection :=
  frames.foldl Frame.apply { Http2Connection.create with receivedPreface := true }

/-! ## Lemmas -/

theorem kSize_eq : kSize = 9 := rfl

/-- **Frame headers** are read back. -/
theorem FrameHeader.decode_encode (h : FrameHeader) (rest : Bytes) (hl : h.length < 2 ^ 24) :
    FrameHeader.decode (h.encode ++ rest) = some { h with streamId := h.streamId % 2 ^ 31 } := by
  have hlength : h.length / 2 ^ 16 % 256 * 2 ^ 16 + h.length / 2 ^ 8 % 256 * 2 ^ 8 + h.length % 256 = h.length := by omega
  have hstream : (h.streamId / 2 ^ 24 % 2 ^ 7 % 256 * 2 ^ 24 + h.streamId / 2 ^ 16 % 256 * 2 ^ 16 +
      h.streamId / 2 ^ 8 % 256 * 2 ^ 8 + h.streamId % 256) % 2 ^ 31 = h.streamId % 2 ^ 31 := by omega
  show some { length := _, type := _, flags := _, streamId := _ : FrameHeader } = _
  simp only [UInt8.toNat_ofNat', hlength, hstream]

theorem encode_length (h : FrameHeader) : h.encode.length = kSize := rfl

theorem decodeParams_encode (params : List (UInt16 × UInt32)) : decodeParams (params.flatMap encodeParam) = params := by
  induction params with
  | nil => rfl
  | cons p params ih =>
    have h1 := p.1.toNat_lt
    have h2 := p.2.toNat_lt
    show (_, _) :: decodeParams (params.flatMap encodeParam) = _
    rw [ih]
    congr 1
    refine Prod.ext ?_ ?_
    · apply UInt16.toNat_inj.mp
      simp only [UInt8.toNat_ofNat', UInt16.toNat_ofNat']
      omega
    · apply UInt32.toNat_inj.mp
      simp only [UInt8.toNat_ofNat', UInt32.toNat_ofNat']
      omega

theorem encode_params_length (params : List (UInt16 × UInt32)) :
    (params.flatMap encodeParam).length = 6 * params.length := by
  induction params with
  | nil => rfl
  | cons p params ih =>
    rw [List.flatMap_cons, List.length_append, ih, List.length_cons, show (encodeParam p).length = 6 from rfl]
    omega

/-- **SETTINGS payloads** are read back. -/
theorem SettingsFrame.decode_encode (s : SettingsFrame) : SettingsFrame.decode s.encode = some s := by
  have hlen := encode_params_length s.params
  unfold SettingsFrame.decode SettingsFrame.encode
  rw [if_neg (by omega), decodeParams_encode]

theorem encode_ne_nil (f : Frame) : f.encode ≠ [] := List.cons_ne_nil _ _

theorem encode_frame_length (f : Frame) : f.encode.length = kSize + f.body.payload.length := by
  unfold Frame.encode
  rw [List.length_append, encode_length]

theorem frameLoop_frame (f : Frame) (fuel : Nat) (rest : Bytes) (c : Http2Connection) :
    Http2Connection.frameLoop (fuel + 1) (f.encode ++ rest) c = Http2Connection.frameLoop fuel rest (f.apply c) := by
  have hlen := encode_frame_length f
  have hdecode : FrameHeader.decode (f.encode ++ rest) = some { f.header with streamId := f.streamId % 2 ^ 31 } := by
    unfold Frame.encode
    rw [List.append_assoc]
    exact FrameHeader.decode_encode f.header _ f.small
  have hpayload : (f.encode ++ rest).drop kSize = f.body.payload ++ rest := by
    unfold Frame.encode
    rw [List.append_assoc, ← encode_length f.header, List.drop_left]
  have hrest : (f.encode ++ rest).drop (kSize + f.body.payload.length) = rest := by
    rw [← hlen, List.drop_left]
  rw [Http2Connection.frameLoop, if_neg (by rw [List.length_append]; omega), hdecode]
  dsimp only
  rw [if_neg (by rw [List.length_append, hlen]; exact Nat.not_lt.mpr (Nat.le_add_right _ _))]
  show (if f.body.type = SETTINGS then _ else _) = _
  rw [show f.header.length = f.body.payload.length from rfl, hpayload, hrest]
  unfold Frame.apply Http2Connection.handleSettings
  cases hbody : f.body with
  | settings s =>
    rw [if_pos (by rfl)]
    dsimp only
    rw [show (f.header).flags = f.flags from rfl]
    by_cases hack : f.flags &&& ACK ≠ 0
    · rw [if_pos hack, if_pos hack]
    · rw [if_neg hack, if_neg hack]
      rw [show (Body.settings s).payload = s.encode from rfl, List.take_left, SettingsFrame.decode_encode]
  | other type payload hne => rw [if_neg (by exact hne)]

theorem frameLoop_frames (frames : List Frame) (fuel : Nat) (h : (frames.flatMap Frame.encode).length ≤ fuel)
    (c : Http2Connection) :
    Http2Connection.frameLoop fuel (frames.flatMap Frame.encode) c = (true, frames.foldl Frame.apply c) := by
  induction frames generalizing fuel c with
  | nil =>
    cases fuel with
    | zero => rfl
    | succ fuel => rfl
  | cons f frames ih =>
    have hlen := encode_frame_length f
    have hsize := kSize_eq
    rw [List.flatMap_cons] at h ⊢
    rw [List.length_append] at h
    obtain ⟨fuel, rfl⟩ : ∃ n, fuel = n + 1 := ⟨fuel - 1, by omega⟩
    rw [frameLoop_frame, ih fuel (by omega)]
    rfl

theorem setParam_receivedPreface (c : Http2Connection) (p : UInt16 × UInt32) :
    (c.setParam p).receivedPreface = c.receivedPreface := by
  unfold Http2Connection.setParam
  split
  next => rfl
  next =>
    split
    next => rfl
    next => rfl

theorem foldl_receivedPreface {α : Type} {f : Http2Connection → α → Http2Connection}
    (h : ∀ c x, (f c x).receivedPreface = c.receivedPreface) (xs : List α) (c : Http2Connection) :
    (xs.foldl f c).receivedPreface = c.receivedPreface := by
  induction xs generalizing c with
  | nil => rfl
  | cons x xs ih => exact (ih (f c x)).trans (h c x)

theorem apply_receivedPreface (c : Http2Connection) (f : Frame) : (f.apply c).receivedPreface = c.receivedPreface := by
  unfold Frame.apply
  cases f.body with
  | settings s =>
    dsimp only
    split
    next => rfl
    next => exact foldl_receivedPreface setParam_receivedPreface s.params c
  | other type payload hne => rfl

theorem received_receivedPreface (frames : List Frame) : (received frames).receivedPreface = true :=
  foldl_receivedPreface apply_receivedPreface frames _

variable {frames : List Frame}

theorem stream_take_append {k k' : Nat} {piece : Bytes}
    (h : stream (frames.take k) ++ piece = stream (frames.take k')) :
    ∃ more, piece = more.flatMap Frame.encode ∧ frames.take k' = frames.take k ++ more := by
  by_cases hk : k ≤ k'
  · refine ⟨(frames.drop k).take (k' - k), ?_, ?_⟩
    · have hsplit : frames.take k' = frames.take k ++ (frames.drop k).take (k' - k) := by
        rw [← List.take_add, Nat.add_sub_cancel' hk]
      rw [hsplit, stream, stream, List.flatMap_append, ← List.append_assoc] at h
      exact List.append_cancel_left h
    · rw [← List.take_add, Nat.add_sub_cancel' hk]
  · -- an earlier cut adds nothing
    have hsplit : frames.take k = frames.take k' ++ (frames.drop k').take (k - k') := by
      rw [← List.take_add, Nat.add_sub_cancel' (by omega)]
    rw [hsplit, stream, stream, List.flatMap_append, ← List.append_assoc, List.append_assoc] at h
    obtain ⟨hnil, rfl⟩ := List.append_eq_nil_iff.mp (List.append_right_eq_self.mp h)
    refine ⟨[], rfl, ?_⟩
    have hnone : (frames.drop k').take (k - k') = [] := by
      cases hd : (frames.drop k').take (k - k') with
      | nil => rfl
      | cons f fs =>
        rw [hd, List.flatMap_cons] at hnil
        exact absurd (List.append_eq_nil_iff.mp hnil).1 (encode_ne_nil f)
    rw [hsplit, hnone, List.append_nil, List.append_nil]

theorem onFrame_first (frames : List Frame) :
    Http2Connection.create.onFrame (stream frames) = (true, received frames) := by
  unfold Http2Connection.onFrame stream
  rw [if_neg (by decide), if_neg (by rw [List.length_append]; omega), List.take_left, if_neg (not_not_intro rfl),
    List.drop_left]
  exact frameLoop_frames frames _ (Nat.le_refl _) _

theorem onFrame_later (frames more : List Frame) :
    (received frames).onFrame (more.flatMap Frame.encode) = (true, received (frames ++ more)) := by
  unfold Http2Connection.onFrame
  rw [if_pos (received_receivedPreface frames), frameLoop_frames more _ (Nat.le_refl _)]
  unfold received
  rw [List.foldl_append]

theorem onFrame_nil (c : Http2Connection) : (c.onFrame []).2 = c := by
  unfold Http2Connection.onFrame
  split
  next => rfl
  next => rfl

/-- The state of the connection goes by what it has received so far. -/
def At (frames : List Frame) (c : Http2Connection) (bytes : Bytes) : Prop :=
  bytes = [] ∧ c = Http2Connection.create ∨ ∃ k, bytes = stream (frames.take k) ∧ c = received (frames.take k)

theorem stream_ne_nil (frames : List Frame) : stream frames ≠ [] := by
  intro h
  have hpre : kConnectionPreface = [] := (List.append_eq_nil_iff.mp h).1
  exact absurd hpre (by decide)

theorem At.step {c : Http2Connection} {bytes piece : Bytes} (h : At frames c bytes)
    (hend : bytes ++ piece = [] ∨ ∃ k, bytes ++ piece = stream (frames.take k)) :
    At frames (c.onFrame piece).2 (bytes ++ piece) := by
  obtain ⟨rfl, rfl⟩ | ⟨k, rfl, rfl⟩ := h
  · rw [List.nil_append] at hend ⊢
    obtain rfl | ⟨k, rfl⟩ := hend
    · exact .inl ⟨rfl, onFrame_nil _⟩
    · exact .inr ⟨k, rfl, by rw [onFrame_first]⟩
  · obtain hnil | ⟨k', hk'⟩ := hend
    · exact absurd (List.append_eq_nil_iff.mp hnil).1 (stream_ne_nil _)
    · obtain ⟨more, rfl, htake⟩ := stream_take_append hk'
      exact .inr ⟨k', hk', by rw [onFrame_later, htake]⟩

theorem At.run {pieces : List Bytes} (h : Whole frames pieces) (n : Nat) :
    At frames (Http2Connection.create.onFrames (pieces.take n)) (pieces.take n).flatten := by
  induction n with
  | zero => exact .inl ⟨rfl, rfl⟩
  | succ n ih =>
    have hend := h (n + 1)
    rw [List.take_add_one, List.flatten_append] at hend ⊢
    unfold Http2Connection.onFrames
    rw [List.foldl_append]
    cases hp : pieces[n]? with
    | none =>
      show At _ _ (_ ++ [])
      rw [List.append_nil]
      exact ih
    | some piece =>
      rw [hp] at hend
      show At _ ((Http2Connection.create.onFrames (pieces.take n)).onFrame piece).2 (_ ++ (piece ++ []))
      rw [List.append_nil]
      change _ ++ (piece ++ []) = [] ∨ ∃ k, _ ++ (piece ++ []) = _ at hend
      rw [List.append_nil] at hend
      exact ih.step hend

/-! ## Top theorem -/

/-- **The connection and its codecs**: pieces that end at the end of a frame are received as the whole stream; headers
and settings are read back as they were written. -/
theorem onFrames_whole (frames : List Frame) (pieces : List Bytes) :
    (pieces.flatten = stream frames → Whole frames pieces → Http2Connection.create.onFrames pieces = received frames) ∧
    (∀ (h : FrameHeader) rest, h.length < 2 ^ 24 → h.streamId < 2 ^ 31 →
      FrameHeader.decode (h.encode ++ rest) = some h) ∧
    ∀ s : SettingsFrame, SettingsFrame.decode s.encode = some s := by
  refine ⟨fun hall h => ?_, fun h rest hl hs => ?_, SettingsFrame.decode_encode⟩
  · have hat := At.run h pieces.length
    rw [List.take_length, hall] at hat
    obtain ⟨hnil, -⟩ | ⟨k, hk, hc⟩ := hat
    · exact absurd hnil (stream_ne_nil frames)
    · obtain ⟨more, hmore, htake⟩ := stream_take_append (show stream (frames.take k) ++ [] = stream (frames.take frames.length) by
        rw [List.append_nil, List.take_length, ← hk])
      cases more with
      | nil =>
        rw [List.take_length, List.append_nil] at htake
        rw [hc, ← htake]
      | cons f more => exact absurd (List.append_eq_nil_iff.mp hmore.symm).1 (encode_ne_nil f)
  · rw [FrameHeader.decode_encode h rest hl, Nat.mod_eq_of_lt hs]

/-- A frame that acknowledges our settings. -/
def ackFrame : Frame where
  flags := ACK
  streamId := 0
  body := .settings ⟨[]⟩
  small := by decide

/-- A frame with two settings of the peer. -/
def settingsFrame : Frame where
  flags := 0
  streamId := 0
  body := .settings ⟨[(3, 100), (4, 65535)]⟩
  small := by decide

theorem onFrames_whole_sample :
    Http2Connection.create.onFrames [kConnectionPreface ++ settingsFrame.encode, ackFrame.encode] =
        received [settingsFrame, ackFrame] ∧
      FrameHeader.decode (settingsFrame.header.encode ++ ackFrame.encode) = some settingsFrame.header := by
  refine ⟨(onFrames_whole [settingsFrame, ackFrame] _).1 (by decide) fun i => ?_,
    (onFrames_whole [] []).2.1 _ _ (by decide) (by decide)⟩
  obtain rfl | rfl | ⟨n, rfl⟩ : i = 0 ∨ i = 1 ∨ ∃ n, i = n + 2 := by
    by_cases h : i < 2
    · omega
    · exact .inr (.inr ⟨i - 2, by omega⟩)
  · exact .inl rfl
  · exact .inr ⟨1, by decide⟩
  · refine .inr ⟨2, ?_⟩
    rw [List.take_of_length_le (Nat.le_add_left 2 n)]
    decide

/-- The preface in two pieces is not recognised, and an acknowledgement in two pieces is lost. -/
theorem onFrames_cut :
    ([kConnectionPreface.take 10, kConnectionPreface.drop 10] : List Bytes).flatten = stream [] ∧
      Http2Connection.create.onFrames [kConnectionPreface.take 10, kConnectionPreface.drop 10] ≠ received [] ∧
      ([kConnectionPreface, ackFrame.encode.take 4, ackFrame.encode.drop 4] : List Bytes).flatten = stream [ackFrame] ∧
      Http2Connection.create.onFrames [kConnectionPreface, ackFrame.encode.take 4, ackFrame.encode.drop 4] ≠
        received [ackFrame] := by
  decide

end Http.Http2
