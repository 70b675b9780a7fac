import Ja3Proxy.ExceptRules
import Ja3Proxy.FrameReader
import Ja3Proxy.SdkExchange

/-! The response side of `executeStream`, from the bytes of the reply to the completion of the
exchange. The frame reader of the TypeScript package keeps the unread part of one chunk; the
JSON parser with the generated schema validators is a parameter. -/
namespace SdkResponse

open ExceptRules SdkErrors
open FrameReader hiding protocolError
open SdkExchange hiding frame next

/-- The limits of `capabilities`, which refuses larger ones. -/
structure FrameLimits where
  metadata : ℕ
  data : ℕ
  metadata_le : metadata ≤ 65536
  data_le : data ≤ 65536

/-- `pending` is the unread part of the current chunk. -/
structure Source where
  pending : Bytes
  stream : List Bytes
  deriving DecidableEq, Repr

def Source.rest (s : Source) : Bytes := s.pending ++ s.stream.flatten

/-- The loop of `exact` from its `written` bytes on: an iteration that does not fill the buffer
uses up the chunk. `none` is the accepted end of the stream. -/
def fill (length : ℕ) (allowEof : Bool) (bytes pending : Bytes) (stream : List Bytes) :
    Except Unit (Option (Bytes × Source)) :=
  let count := min (length - bytes.length) pending.length
  let bytes := bytes ++ pending.take count
  if length ≤ bytes.length then .ok (some (bytes, ⟨pending.drop count, stream⟩))
  else
    match stream with
    | [] => if allowEof && bytes.isEmpty then .ok none else .error ()
    | chunk :: stream => fill length allowEof bytes chunk stream

def Source.exact (s : Source) (length : ℕ) (allowEof : Bool) :
    Except Unit (Option (Bytes × Source)) :=
  fill length allowEof [] s.pending s.stream

def FrameLimits.limit (l : FrameLimits) (kind : UInt8) : ℕ :=
  if kind = 2 then l.data else l.metadata

def Source.next (l : FrameLimits) (s : Source) :
    Except Unit (Option ((UInt8 × Bytes) × Source)) :=
  (s.exact 5 true).bind fun
    | none => .ok none
    | some (header, s) =>
      (rejectIf (!([1, 2, 3, 4].contains (header.headD 0)) ||
        l.limit (header.headD 0) < fromBeBytes (header.drop 1)) ()).bind fun _ =>
      (s.exact (fromBeBytes (header.drop 1)) false).bind fun
        | none => .error ()
        | some (payload, s) => .ok (some ((header.headD 0, payload), s))

/-- What reading consumes: the next bytes, if there are enough of them. -/
theorem fill_spec (allowEof : Bool) (pending : Bytes) (stream : List Bytes) {length : ℕ}
    {bytes : Bytes} (hle : bytes.length ≤ length) :
    (length ≤ bytes.length + (pending ++ stream.flatten).length →
      ∃ s, fill length allowEof bytes pending stream =
          .ok (some (bytes ++ (pending ++ stream.flatten).take (length - bytes.length), s)) ∧
        s.rest = (pending ++ stream.flatten).drop (length - bytes.length)) ∧
    (bytes.length + (pending ++ stream.flatten).length < length →
      fill length allowEof bytes pending stream =
        if allowEof && (bytes ++ (pending ++ stream.flatten)).isEmpty then .ok none
        else .error ()) := by
  fun_induction fill length allowEof bytes pending stream with
  | case1 stream bytes pending count bytes' hfull =>
    have hcount : count = min (length - bytes.length) pending.length := rfl
    simp only [bytes', List.length_append, List.length_take] at hfull
    have henough : length - bytes.length ≤ pending.length := by omega
    have htake : count = length - bytes.length := by omega
    refine ⟨fun _ => ⟨⟨pending.drop count, stream⟩, ?_, ?_⟩, ?_⟩
    · simp only [bytes']
      rw [List.take_append_of_le_length henough, ← htake]
    · rw [List.drop_append_of_le_length henough, ← htake]
      rfl
    · intro hshort
      simp only [List.length_append] at hshort
      omega
  | case2 bytes pending count bytes' hfull hend =>
    have hcount : count = min (length - bytes.length) pending.length := rfl
    simp only [bytes', List.length_append, List.length_take] at hfull
    have hall : pending.take count = pending := List.take_of_length_le (by omega)
    constructor
    · intro henough
      simp only [List.flatten_nil, List.append_nil] at henough
      omega
    · intro _
      simp only [bytes', hall] at hend
      simp only [List.flatten_nil, List.append_nil, hend, if_true]
  | case3 bytes pending count bytes' hfull hend =>
    have hcount : count = min (length - bytes.length) pending.length := rfl
    simp only [bytes', List.length_append, List.length_take] at hfull
    have hall : pending.take count = pending := List.take_of_length_le (by omega)
    constructor
    · intro henough
      simp only [List.flatten_nil, List.append_nil] at henough
      omega
    · intro _
      simp only [bytes', hall] at hend
      simp only [List.flatten_nil, List.append_nil, hend, if_false, Bool.false_eq_true]
  | case4 bytes pending count bytes' hfull chunk stream ih =>
    have hcount : count = min (length - bytes.length) pending.length := rfl
    simp only [bytes', List.length_append, List.length_take] at hfull
    have hall : pending.take count = pending := List.take_of_length_le (by omega)
    have hbytes : bytes' = bytes ++ pending := by simp only [bytes', hall]
    obtain ⟨hread, heof⟩ := ih (by rw [hbytes, List.length_append]; omega)
    have hlater : length - bytes.length - pending.length = length - bytes'.length := by
      rw [hbytes, List.length_append]
      omega
    have hmore : pending.length ≤ length - bytes.length := by omega
    constructor
    · intro henough
      obtain ⟨s, hs, hrest⟩ := hread (by
        simp only [hbytes, List.flatten_cons, List.length_append] at henough ⊢
        omega)
      have htake : (pending ++ (chunk ++ stream.flatten)).take (length - bytes.length) =
          pending ++ (chunk ++ stream.flatten).take (length - bytes'.length) := by
        rw [List.take_append, List.take_of_length_le hmore, hlater]
      have hdrop : (pending ++ (chunk ++ stream.flatten)).drop (length - bytes.length) =
          (chunk ++ stream.flatten).drop (length - bytes'.length) := by
        rw [List.drop_append, List.drop_eq_nil_of_le hmore, hlater]
        rfl
      refine ⟨s, ?_, ?_⟩
      · rw [hs, List.flatten_cons, htake, hbytes, List.append_assoc]
      · rw [hrest, List.flatten_cons, hdrop]
    · intro hshort
      rw [heof (by
        simp only [hbytes, List.flatten_cons, List.length_append] at hshort ⊢
        omega), hbytes, List.flatten_cons, List.append_assoc]

variable {l : FrameLimits} {s s' : Source} {kind : UInt8} {payload tail : Bytes}

theorem exact_enough {length : ℕ} (allowEof : Bool) (h : length ≤ s.rest.length) :
    ∃ s', s.exact length allowEof = .ok (some (s.rest.take length, s')) ∧
      s'.rest = s.rest.drop length := by
  have hempty : ([] : Bytes).length ≤ length := Nat.zero_le _
  have hspec := (fill_spec allowEof s.pending s.stream hempty).1
  simpa [Source.exact, Source.rest] using hspec (by simpa [Source.rest] using h)

theorem exact_short {length : ℕ} (allowEof : Bool) (h : s.rest.length < length) :
    s.exact length allowEof =
      if allowEof && s.rest.isEmpty then .ok none else .error () := by
  have hempty : ([] : Bytes).length ≤ length := Nat.zero_le _
  exact (fill_spec allowEof s.pending s.stream hempty).2 (by simpa [Source.rest] using h)

theorem exact_some {length : ℕ} {allowEof : Bool} {bytes : Bytes}
    (h : s.exact length allowEof = .ok (some (bytes, s'))) :
    bytes.length = length ∧ s.rest = bytes ++ s'.rest := by
  by_cases hle : length ≤ s.rest.length
  · obtain ⟨r, hr, hrest⟩ := exact_enough allowEof hle
    rw [h] at hr
    cases hr
    rw [hrest, List.take_append_drop, List.length_take]
    exact ⟨by omega, rfl⟩
  · rw [exact_short allowEof (by omega)] at h
    split at h <;> cases h

theorem exact_none {length : ℕ} {allowEof : Bool} (h : s.exact length allowEof = .ok none) :
    s.rest = [] := by
  by_cases hle : length ≤ s.rest.length
  · obtain ⟨r, hr, -⟩ := exact_enough allowEof hle
    rw [h] at hr
    cases hr
  · rw [exact_short allowEof (by omega)] at h
    split at h
    · next hend =>
      simp only [Bool.and_eq_true, List.isEmpty_iff] at hend
      exact hend.2
    · cases h

theorem next_nil (h : s.rest = []) : s.next l = .ok none := by
  have hshort : s.exact 5 true = .ok none := by
    rw [exact_short true (by simp [h]), h]
    rfl
  simp [Source.next, hshort, Except.bind]

theorem FrameLimits.limit_le (l : FrameLimits) (kind : UInt8) : l.limit kind ≤ 65536 := by
  unfold FrameLimits.limit
  split
  · exact l.data_le
  · exact l.metadata_le

theorem next_frame (hr : s.rest = frame kind payload ++ tail)
    (hkind : [1, 2, 3, 4].contains kind = true) (hle : payload.length ≤ l.limit kind) :
    ∃ s', s.next l = .ok (some ((kind, payload), s')) ∧ s'.rest = tail := by
  have hsmall : payload.length < 2 ^ 32 :=
    Nat.lt_of_le_of_lt (Nat.le_trans hle (l.limit_le kind)) (by decide)
  have hsplit : s.rest = (kind :: toBeBytes payload.length) ++ (payload ++ tail) := by
    rw [hr, frame, List.append_assoc]
  have hfive : (kind :: toBeBytes payload.length).length = 5 := rfl
  obtain ⟨s₁, hheader, hrest⟩ := exact_enough true (show 5 ≤ s.rest.length by
    rw [hsplit, List.length_append, hfive]
    omega)
  rw [hsplit, List.take_left' hfive] at hheader
  rw [hsplit, List.drop_left' hfive] at hrest
  obtain ⟨s₂, hpayload, htail⟩ := exact_enough false (show payload.length ≤ s₁.rest.length by
    rw [hrest, List.length_append]
    omega)
  rw [hrest, List.take_left] at hpayload
  rw [hrest, List.drop_left] at htail
  have hlen : fromBeBytes (toBeBytes payload.length) = payload.length :=
    fromBeBytes_toBeBytes hsmall
  refine ⟨s₂, ?_, htail⟩
  simp only [Source.next, hheader, Except.bind, List.headD_cons, List.drop_succ_cons,
    List.drop_zero, hlen, hkind, hpayload, Bool.not_true, Bool.false_or, rejectIf,
    decide_eq_true_eq]
  rw [if_neg (by omega)]

/-- Within the limits, the bytes determine their first frame. -/
theorem first_frame {payload' tail' : Bytes} (hr : s.rest = frame kind payload ++ tail)
    (hr' : s.rest = frame kind payload' ++ tail') (hkind : [1, 2, 3, 4].contains kind = true)
    (hle : payload.length ≤ l.limit kind) (hle' : payload'.length ≤ l.limit kind) :
    payload = payload' := by
  obtain ⟨_, hread, -⟩ := next_frame hr hkind hle
  obtain ⟨_, hread', -⟩ := next_frame hr' hkind hle'
  rw [hread] at hread'
  cases hread'
  rfl

theorem next_some (h : s.next l = .ok (some ((kind, payload), s'))) :
    s.rest = frame kind payload ++ s'.rest ∧ [1, 2, 3, 4].contains kind = true ∧
      payload.length ≤ l.limit kind := by
  obtain ⟨first, hfirst, h⟩ := bind_ok.mp h
  cases first with
  | none => cases h
  | some first =>
    obtain ⟨header, s₁⟩ := first
    obtain ⟨hlen, hrest⟩ := exact_some hfirst
    obtain ⟨_, hok, h⟩ := bind_ok.mp h
    obtain ⟨second, hsecond, h⟩ := bind_ok.mp h
    cases second with
    | none => cases h
    | some second =>
      obtain ⟨body, s₂⟩ := second
      obtain ⟨hbody, hrest'⟩ := exact_some hsecond
      cases h
      cases header with
      | nil => cases hlen
      | cons kind header =>
        have hfour : header.length = 4 := by simpa using hlen
        obtain ⟨hbytes, -⟩ := toBeBytes_fromBeBytes hfour
        simp only [rejectIf_ok, List.headD_cons, List.drop_succ_cons, List.drop_zero,
          Bool.or_eq_false_iff, Bool.not_eq_false', decide_eq_false_iff_not,
          Nat.not_lt] at hok hbody
        refine ⟨?_, hok.1, by rw [hbody]; exact hok.2⟩
        rw [hrest, hrest', List.headD_cons, frame, hbody, hbytes, List.append_assoc]

theorem next_none (h : s.next l = .ok none) : s.rest = [] := by
  obtain ⟨first, hfirst, h⟩ := bind_ok.mp h
  cases first with
  | none => exact exact_none hfirst
  | some first =>
    obtain ⟨_, _, h⟩ := bind_ok.mp h
    obtain ⟨second, _, h⟩ := bind_ok.mp h
    cases second <;> cases h

structure Parsers where
  metadata : Bytes → Json ResponseMetadata
  complete : Bytes → Json Diagnostics
  error : Bytes → Json WireError

def Parsers.parse (d : Parsers) (kind : UInt8) (payload : Bytes) : Frame :=
  if kind = 1 then .metadata (d.metadata payload)
  else if kind = 2 then .data payload
  else if kind = 3 then .complete (d.complete payload)
  else .error (d.error payload)

def Source.read (l : FrameLimits) (d : Parsers) (s : Source) :
    Except Unit (Option Frame × Source) :=
  (s.next l).bind fun
    | none => .ok (none, s)
    | some ((kind, payload), s) => .ok (some (d.parse kind payload), s)

structure Reading where
  call : Call
  limits : FrameLimits
  parsers : Parsers
  meter : ℕ → Meter

def Reading.settle (g : Reading) (m : Meter) (s : State) (last : Last) (r : Source) : State :=
  match r.read g.limits g.parsers with
  | .error () => s.finish (g.call.normalize s m .foreign)
  | .ok (f, _) => afterLast g.call s m last f

def Reading.pump (g : Reading) (value : ResponseMetadata) :
    ℕ → State → Source → Bytes → State × Bytes
  | 0, s, _, body => (s, body)
  | fuel + 1, s, r, body =>
    match r.read g.limits g.parsers with
    | .error () => (s.finish (g.call.normalize s (g.meter fuel) .foreign), body)
    | .ok (f, r) =>
      match (bodyFrame g.call s (g.meter fuel) value f).stage, f with
      | .received, some (.data payload) =>
        g.pump value fuel
          { bodyFrame g.call s (g.meter fuel) value f with stage := .reading none } r
          (body ++ payload)
      | .reading (some last), _ =>
        (g.settle (g.meter fuel) (bodyFrame g.call s (g.meter fuel) value f) last r, body)
      | _, _ => (bodyFrame g.call s (g.meter fuel) value f, body)

def Reading.start (g : Reading) (fuel : ℕ) (s : State) (r : Source) : State × Bytes :=
  match r.read g.limits g.parsers with
  | .error () => (fail g.call s (g.meter fuel) .foreign, [])
  | .ok (f, r) =>
    match (firstFrame g.call s (g.meter fuel) f).stage, f with
    | .handing, some (.metadata (.accepted value)) =>
      g.pump value fuel
        { firstFrame g.call s (g.meter fuel) f with stage := .reading none } r []
    | .rejecting e, _ =>
      match r.read g.limits g.parsers with
      | .error () =>
        (fail g.call (firstFrame g.call s (g.meter fuel) f) (g.meter fuel) .foreign, [])
      | .ok (after, _) =>
        (afterError g.call (firstFrame g.call s (g.meter fuel) f) (g.meter fuel) e after, [])
    | _, _ => (firstFrame g.call s (g.meter fuel) f, [])

def opened (c : Call) (queueMs : ℕ) : State :=
  { State.initial c with
    stage := .opening
    dispatched := true
    diag := { (State.initial c).diag with
      queueMs := queueMs
      phase := .upstream
      delivery := .possiblySent
      contextId := c.target.contextId } }

/-- A call that is answered with `head` and these chunks, and whose body is read to its end.
Every frame takes five bytes at least. -/
def Reading.executeStream (g : Reading) (queueMs : ℕ) (m : Meter) (head : Head)
    (chunks : List Bytes) : Option (State × Bytes) :=
  ((dispatch g.call (.initial g.call) queueMs).bind (respond g.call · m head)).map fun s =>
    if s.stage = .opening then g.start (chunks.flatten.length + 1) s ⟨[], chunks⟩ else (s, [])

/-- The head of the reply that `request_handler` makes. -/
def serviceHead : Head := ⟨200, some "application/vnd.ja3proxy", true⟩

theorem executeStream_streams {g : Reading} {queueMs : ℕ} {m : Meter} {head : Head}
    {chunks : List Bytes} (hid : opaqueText g.call.requestId = true)
    (hhead : head.streams = true) :
    g.executeStream queueMs m head chunks =
      some (g.start (chunks.flatten.length + 1) (opened g.call queueMs) ⟨[], chunks⟩) := by
  have hok : head.ok = true := by
    simp only [Head.streams, Bool.and_eq_true, beq_iff_eq] at hhead
    simp [Head.ok, hhead.1.1]
  have hopened : (dispatch g.call (.initial g.call) queueMs).bind (respond g.call · m head) =
      some (opened g.call queueMs) := by
    simp [dispatch, State.initial, hid, respond, hok, hhead, opened]
  rw [Reading.executeStream, hopened]
  rfl

structure Response where
  metadata : Bytes
  payloads : List Bytes
  complete : Bytes

def Response.bytes (p : Response) : Bytes :=
  FrameReader.frame 1 p.metadata ++
    (p.payloads.flatMap (FrameReader.frame 2) ++ FrameReader.frame 3 p.complete)

structure Completes (c : Call) (value : ResponseMetadata) (count : ℕ) (d : Diagnostics) : Prop where
  correlated : diagnosticsOk d (some (c.requestId, c.attempt)) = true
  phase : d.phase = .complete
  delivery : d.delivery = .responseStarted
  bytes : d.responseBytes = count
  context : ∀ contextId ∈ c.target.contextId, d.contextId = some contextId
  revision : ∀ revision ∈ value.cookieRevision, d.cookieRevision = some revision

structure Ending (g : Reading) (value : ResponseMetadata) (count : ℕ) (payloads : List Bytes)
    (complete : Bytes) (d : Diagnostics) : Prop where
  sizes : ∀ payload ∈ payloads, 1 ≤ payload.length ∧ payload.length ≤ g.limits.data
  total : count + payloads.flatten.length ≤ g.call.maxResponseBytes
  bodyless : bodyless g.call value = true → payloads = []
  complete : g.parsers.complete complete = .accepted d
  completes : Completes g.call value (count + payloads.flatten.length) d

structure Response.WellFormed (g : Reading) (p : Response) (value : ResponseMetadata)
    (d : Diagnostics) : Prop where
  metadata : g.parsers.metadata p.metadata = .accepted value
  expected : metadataOk g.call value = true
  ending : Ending g value 0 p.payloads p.complete d

def Response.Bounded (l : FrameLimits) (p : Response) : Prop :=
  p.metadata.length ≤ l.metadata ∧ p.complete.length ≤ l.metadata

variable {d : Parsers}

theorem read_nil (h : s.rest = []) : s.read l d = .ok (none, s) := by
  simp [Source.read, next_nil h, Except.bind]

theorem read_frame (l : FrameLimits) (d : Parsers) (kind : UInt8) {payload : Bytes}
    (hr : s.rest = FrameReader.frame kind payload ++ tail)
    (hkind : [1, 2, 3, 4].contains kind = true) (hle : payload.length ≤ l.limit kind) :
    ∃ s', s.read l d = .ok (some (d.parse kind payload), s') ∧ s'.rest = tail := by
  obtain ⟨s', hnext, hrest⟩ := next_frame hr hkind hle
  exact ⟨s', by simp [Source.read, hnext, Except.bind], hrest⟩

theorem read_some {f : Frame} (h : s.read l d = .ok (some f, s')) :
    ∃ kind payload, f = d.parse kind payload ∧
      s.rest = FrameReader.frame kind payload ++ s'.rest ∧
      [1, 2, 3, 4].contains kind = true ∧ payload.length ≤ l.limit kind := by
  obtain ⟨r, hnext, h⟩ := bind_ok.mp h
  cases r with
  | none => cases h
  | some r =>
    obtain ⟨⟨kind, payload⟩, r⟩ := r
    cases h
    exact ⟨kind, payload, rfl, next_some hnext⟩

theorem read_none (h : s.read l d = .ok (none, s')) : s.rest = [] := by
  obtain ⟨r, hnext, h⟩ := bind_ok.mp h
  cases r with
  | none => exact next_none hnext
  | some r => cases h

theorem read_metadata {json : Json ResponseMetadata}
    (h : s.read l d = .ok (some (.metadata json), s')) :
    ∃ payload, json = d.metadata payload ∧ s.rest = FrameReader.frame 1 payload ++ s'.rest ∧
      payload.length ≤ l.metadata := by
  obtain ⟨kind, payload, hf, hrest, -, hle⟩ := read_some h
  unfold Parsers.parse at hf
  split at hf
  · next hk =>
    subst hk
    cases hf
    exact ⟨payload, rfl, hrest, hle⟩
  · split at hf
    · cases hf
    · split at hf <;> cases hf

theorem read_data (h : s.read l d = .ok (some (.data payload), s')) :
    s.rest = FrameReader.frame 2 payload ++ s'.rest ∧ payload.length ≤ l.data := by
  obtain ⟨kind, payload', hf, hrest, -, hle⟩ := read_some h
  unfold Parsers.parse at hf
  split at hf
  · cases hf
  · split at hf
    · next hk =>
      subst hk
      cases hf
      exact ⟨hrest, hle⟩
    · split at hf <;> cases hf

theorem read_complete {json : Json Diagnostics}
    (h : s.read l d = .ok (some (.complete json), s')) :
    ∃ payload, json = d.complete payload ∧ s.rest = FrameReader.frame 3 payload ++ s'.rest ∧
      payload.length ≤ l.metadata := by
  obtain ⟨kind, payload, hf, hrest, -, hle⟩ := read_some h
  unfold Parsers.parse at hf
  split at hf
  · cases hf
  · split at hf
    · cases hf
    · split at hf
      · next hk =>
        subst hk
        cases hf
        exact ⟨payload, rfl, hrest, hle⟩
      · cases hf

variable {c : Call} {m : Meter} {t : State} {value : ResponseMetadata} {g : Reading}

theorem finish_open {e : SdkError} (h : t.terminal = none) :
    t.finish e = { t with terminal := some (.error e), diag := e.diagnostics } := by
  simp [State.finish, h]

/-- Everything that a frame of the body can do. -/
theorem bodyFrame_cases (c : Call) (t : State) (m : Meter) (value : ResponseMetadata)
    (f : Option Frame) :
    (∃ payload, f = some (.data payload) ∧ bodyless c value = false ∧ payload ≠ [] ∧
      t.responseBytes + payload.length ≤ c.maxResponseBytes ∧
      bodyFrame c t m value f = { t with
        stage := .received
        responseBytes := t.responseBytes + payload.length
        diag :=
          { t.diag with phase := .body, responseBytes := t.responseBytes + payload.length } }) ∨
    (∃ d, f = some (.complete (.accepted d)) ∧ completeOk c t value d = true ∧
      bodyFrame c t m value f = { t with stage := .reading (some (.complete d)) }) ∨
    (∃ e, bodyFrame c t m value f = { t with stage := .reading (some (.failed e)) }) ∨
    (∃ e, bodyFrame c t m value f = t.finish e) := by
  unfold bodyFrame
  split
  · next payload =>
    split
    · exact .inr (.inr (.inr ⟨_, rfl⟩))
    · next hbody =>
      split
      · exact .inr (.inr (.inr ⟨_, rfl⟩))
      · next htotal =>
        simp only [Bool.or_eq_true, not_or, Bool.not_eq_true, List.isEmpty_eq_false_iff] at hbody
        exact .inl ⟨payload, rfl, hbody.1, hbody.2, Nat.le_of_not_lt htotal, rfl⟩
  · split
    · exact .inr (.inr (.inr ⟨_, rfl⟩))
    · split
      · exact .inr (.inr (.inl ⟨_, rfl⟩))
      · exact .inr (.inr (.inr ⟨_, rfl⟩))
  · exact .inr (.inr (.inr ⟨_, rfl⟩))
  · next d =>
    split
    · next hok => exact .inr (.inl ⟨d, rfl, hok, rfl⟩)
    · exact .inr (.inr (.inr ⟨_, rfl⟩))
  · exact .inr (.inr (.inr ⟨_, rfl⟩))

def received (t : State) (payload : Bytes) : State :=
  { t with
    stage := .reading none
    responseBytes := t.responseBytes + payload.length
    diag := { t.diag with phase := .body, responseBytes := t.responseBytes + payload.length } }

theorem pump_data {fuel : ℕ} {body : Bytes}
    (hread : s.read g.limits g.parsers = .ok (some (.data payload), s'))
    (hbody : bodyless g.call value = false) (hne : payload ≠ [])
    (htotal : t.responseBytes + payload.length ≤ g.call.maxResponseBytes) :
    g.pump value (fuel + 1) t s body =
      g.pump value fuel (received t payload) s' (body ++ payload) := by
  have hreject : (bodyless g.call value || payload.isEmpty) = false := by simp [hbody, hne]
  simp only [Reading.pump, hread, bodyFrame, hreject, Bool.false_eq_true, if_false,
    if_neg (Nat.not_lt.mpr htotal)]
  rfl

theorem pump_last {fuel : ℕ} {body : Bytes} {f : Option Frame} {last : Last}
    (hread : s.read g.limits g.parsers = .ok (f, s'))
    (hlast : bodyFrame g.call t (g.meter fuel) value f =
      { t with stage := .reading (some last) }) :
    g.pump value (fuel + 1) t s body =
      (g.settle (g.meter fuel) { t with stage := .reading (some last) } last s', body) := by
  simp only [Reading.pump, hread, hlast]

theorem pump_finish {fuel : ℕ} {body : Bytes} {f : Option Frame} {e : SdkError}
    (hstage : t.stage = .reading none) (hread : s.read g.limits g.parsers = .ok (f, s'))
    (hfinish : bodyFrame g.call t (g.meter fuel) value f = t.finish e) :
    g.pump value (fuel + 1) t s body = (t.finish e, body) := by
  have hkeep : (t.finish e).stage = .reading none := by
    unfold State.finish
    split <;> exact hstage
  simp only [Reading.pump, hread, hfinish, hkeep]

theorem pump_thrown {fuel : ℕ} {body : Bytes} (hread : s.read g.limits g.parsers = .error ()) :
    g.pump value (fuel + 1) t s body =
      (t.finish (g.call.normalize t (g.meter fuel) .foreign), body) := by
  simp only [Reading.pump, hread]

theorem option_all_eq {α : Type} [DecidableEq α] {o x : Option α} :
    (o.all fun a => x == some a) = true ↔ ∀ a ∈ o, x = some a := by
  cases o <;> simp

theorem completeOk_iff {d : Diagnostics} :
    completeOk c t value d = true ↔ Completes c value t.responseBytes d := by
  simp only [completeOk, Bool.and_eq_true, beq_iff_eq, option_all_eq]
  constructor
  · rintro ⟨⟨⟨⟨⟨hid, hphase⟩, hdelivery⟩, hbytes⟩, hcontext⟩, hrevision⟩
    exact ⟨hid, hphase, hdelivery, hbytes, hcontext, hrevision⟩
  · rintro ⟨hid, hphase, hdelivery, hbytes, hcontext, hrevision⟩
    exact ⟨⟨⟨⟨⟨hid, hphase⟩, hdelivery⟩, hbytes⟩, hcontext⟩, hrevision⟩

/-- The read behind the last frame ends the exchange, and well only at the end of the stream. -/
theorem settle_spec (g : Reading) (m : Meter) (s : Source) (last : Last)
    (hopen : t.terminal = none) :
    (g.settle m t last s).outcome = t.outcome ∧ (g.settle m t last s).terminal.isSome = true ∧
      ∀ d, (g.settle m t last s).terminal = some (.ok d) → last = .complete d ∧ s.rest = [] := by
  unfold Reading.settle
  split
  · simp [finish_open hopen]
  · next f r hread =>
    cases f with
    | some f =>
      have hlate : afterLast g.call t m last (some f) =
          t.finish (protocolError g.call (t.updateLocal m)) := by
        cases last <;> rfl
      simp [hlate, finish_open hopen]
    | none =>
      cases last with
      | failed e => simp [afterLast, finish_open hopen]
      | complete d =>
        refine ⟨rfl, rfl, ?_⟩
        intro d' hd
        have hsame : d = d' := by simpa [afterLast] using hd
        exact ⟨by rw [hsame], read_none hread⟩

/-- The same for a state that has just seen its last frame. -/
theorem settle_last (g : Reading) (m : Meter) (s : Source) (last : Last)
    (hopen : t.terminal = none) :
    (g.settle m { t with stage := .reading (some last) } last s).outcome = t.outcome ∧
      (g.settle m { t with stage := .reading (some last) } last s).terminal.isSome = true ∧
      ∀ d, (g.settle m { t with stage := .reading (some last) } last s).terminal = some (.ok d) →
        last = .complete d ∧ s.rest = [] :=
  settle_spec g m s last hopen

theorem settle_end {d : Diagnostics} (h : s.rest = []) :
    g.settle m t (.complete d) s = { t with terminal := some (.ok d), diag := d } := by
  simp [Reading.settle, read_nil h, afterLast]

theorem ending_cons {count : ℕ} {ps : List Bytes} {json : Bytes} {d : Diagnostics} :
    Ending g value count (payload :: ps) json d ↔
      bodyless g.call value = false ∧ payload ≠ [] ∧ payload.length ≤ g.limits.data ∧
        Ending g value (count + payload.length) ps json d := by
  constructor
  · intro h
    have htotal := h.total
    have hcompletes := h.completes
    simp only [List.flatten_cons, List.length_append, ← Nat.add_assoc] at htotal hcompletes
    obtain ⟨hone, hle⟩ := h.sizes payload List.mem_cons_self
    refine ⟨?_, by rintro rfl; simp at hone, hle,
      fun p hp => h.sizes p (List.mem_cons_of_mem _ hp), htotal, ?_, h.complete, hcompletes⟩
    · by_contra hbody
      cases h.bodyless (by simpa using hbody)
    · intro hbody
      cases h.bodyless hbody
  · rintro ⟨hbody, hne, hle, h⟩
    refine ⟨?_, ?_, by simp [hbody], h.complete, ?_⟩
    · intro p hp
      rcases List.mem_cons.mp hp with rfl | hp
      · exact ⟨List.length_pos_iff.mpr hne, hle⟩
      · exact h.sizes p hp
    · simpa [Nat.add_assoc] using h.total
    · simpa [Nat.add_assoc] using h.completes

/-- Where the rest of the stream is a good ending, the consumer gets its payloads. -/
theorem pump_of_ending {fuel : ℕ} {body json : Bytes} {ps : List Bytes} {d : Diagnostics}
    (hfuel : ps.length < fuel)
    (hrest : s.rest = ps.flatMap (FrameReader.frame 2) ++ FrameReader.frame 3 json)
    (hend : Ending g value t.responseBytes ps json d) (hjson : json.length ≤ g.limits.metadata) :
    (g.pump value fuel t s body).1.outcome = t.outcome ∧
      (g.pump value fuel t s body).1.terminal = some (.ok d) ∧
      (g.pump value fuel t s body).2 = body ++ ps.flatten := by
  induction ps generalizing fuel t s body with
  | nil =>
    cases fuel with
    | zero => cases hfuel
    | succ fuel =>
      have hlast : s.rest = FrameReader.frame 3 json ++ [] := by simpa using hrest
      obtain ⟨s', hread, htail⟩ := read_frame g.limits g.parsers 3 hlast (by decide) hjson
      have hframe : g.parsers.parse 3 json = .complete (.accepted d) := by
        simp [Parsers.parse, hend.complete]
      have hok : completeOk g.call t value d = true :=
        completeOk_iff.mpr (by simpa using hend.completes)
      rw [hframe] at hread
      have hdone : bodyFrame g.call t (g.meter fuel) value (some (.complete (.accepted d))) =
          { t with stage := .reading (some (.complete d)) } := by
        simp only [bodyFrame, hok, if_true]
      rw [pump_last hread hdone, settle_end htail]
      simp
  | cons p ps ih =>
    cases fuel with
    | zero => cases hfuel
    | succ fuel =>
      obtain ⟨hbody, hne, hle, hlater⟩ := ending_cons.mp hend
      rw [List.flatMap_cons, List.append_assoc] at hrest
      obtain ⟨s', hread, htail⟩ := read_frame g.limits g.parsers 2 hrest (by decide) hle
      have hframe : g.parsers.parse 2 p = .data p := rfl
      rw [hframe] at hread
      have htotal : t.responseBytes + p.length ≤ g.call.maxResponseBytes := by
        have := hlater.total
        omega
      rw [pump_data hread hbody hne htotal, List.flatten_cons, ← List.append_assoc]
      exact ih (by simpa using hfuel) htail hlater

/-- The stream shrinks by every frame. -/
theorem read_shrinks {f : Frame} (h : s.read l d = .ok (some f, s')) :
    s'.rest.length < s.rest.length := by
  obtain ⟨kind, payload, -, hrest, -⟩ := read_some h
  rw [hrest, List.length_append, FrameReader.frame]
  simp only [List.length_append, List.length_cons]
  omega

/-- Whatever the stream is, reading it to the end completes the exchange. -/
theorem pump_terminal {fuel : ℕ} {body : Bytes} (hfuel : s.rest.length < fuel)
    (hopen : t.terminal = none) (hstage : t.stage = .reading none) :
    (g.pump value fuel t s body).1.outcome = t.outcome ∧
      (g.pump value fuel t s body).1.terminal.isSome = true := by
  induction fuel generalizing t s body with
  | zero => cases hfuel
  | succ fuel ih =>
    cases hread : s.read g.limits g.parsers with
    | error u => simp [pump_thrown hread, finish_open hopen]
    | ok r =>
      obtain ⟨f, s'⟩ := r
      rcases bodyFrame_cases g.call t (g.meter fuel) value f with
        ⟨payload, rfl, hbody, hne, htotal, -⟩ | ⟨d, -, -, hlast⟩ | ⟨e, hlast⟩ | ⟨e, hfinish⟩
      · rw [pump_data hread hbody hne htotal]
        have := read_shrinks hread
        exact ih (by omega) hopen rfl
      · rw [pump_last hread hlast]
        exact ⟨(settle_last g _ s' _ hopen).1, (settle_last g _ s' _ hopen).2.1⟩
      · rw [pump_last hread hlast]
        exact ⟨(settle_last g _ s' _ hopen).1, (settle_last g _ s' _ hopen).2.1⟩
      · rw [pump_finish hstage hread hfinish]
        simp [finish_open hopen]

/-- A completion that is ok comes from a good ending. -/
theorem ending_of_pump {fuel : ℕ} {body : Bytes} {d : Diagnostics} (hopen : t.terminal = none)
    (hstage : t.stage = .reading none) (hbound : t.responseBytes ≤ g.call.maxResponseBytes)
    (h : (g.pump value fuel t s body).1.terminal = some (.ok d)) :
    ∃ ps json, s.rest = ps.flatMap (FrameReader.frame 2) ++ FrameReader.frame 3 json ∧
      Ending g value t.responseBytes ps json d ∧ json.length ≤ g.limits.metadata := by
  induction fuel generalizing t s body with
  | zero =>
    rw [Reading.pump, hopen] at h
    cases h
  | succ fuel ih =>
    cases hread : s.read g.limits g.parsers with
    | error u => simp [pump_thrown hread, finish_open hopen] at h
    | ok r =>
      obtain ⟨f, s'⟩ := r
      rcases bodyFrame_cases g.call t (g.meter fuel) value f with
        ⟨payload, rfl, hbody, hne, htotal, -⟩ | ⟨d', rfl, hok, hlast⟩ | ⟨e, hlast⟩ | ⟨e, hfinish⟩
      · rw [pump_data hread hbody hne htotal] at h
        obtain ⟨ps, json, hrest, hend, hjson⟩ := ih (t := received t payload) hopen rfl htotal h
        obtain ⟨hfirst, hle⟩ := read_data hread
        refine ⟨payload :: ps, json, ?_, ending_cons.mpr ⟨hbody, hne, hle, hend⟩, hjson⟩
        rw [hfirst, hrest, List.flatMap_cons, List.append_assoc]
      · rw [pump_last hread hlast] at h
        obtain ⟨hsame, hrest⟩ := (settle_last g _ s' _ hopen).2.2 d h
        cases hsame
        obtain ⟨json, hparse, hfirst, hle⟩ := read_complete hread
        refine ⟨[], json, by simpa [hrest] using hfirst, ?_, hle⟩
        exact ⟨by simp, by simpa using hbound, fun _ => rfl, hparse.symm,
          by simpa using completeOk_iff.mp hok⟩
      · rw [pump_last hread hlast] at h
        cases ((settle_last g _ s' _ hopen).2.2 d h).1
      · rw [pump_finish hstage hread hfinish] at h
        simp [finish_open hopen] at h

/-- Everything that the first frame can do to a call that nobody has ended. -/
theorem firstFrame_cases (c : Call) (m : Meter) (f : Option Frame) (hopen : t.terminal = none) :
    (∃ value, f = some (.metadata (.accepted value)) ∧ metadataOk c value = true ∧
      firstFrame c t m f =
        { t with stage := .handing, metadata := some value, diag := value.diagnostics }) ∨
    (∃ e reported, firstFrame c t m f = { t with stage := .rejecting e, reported := reported }) ∨
    (∃ thrown, firstFrame c t m f = fail c t m thrown) := by
  unfold firstFrame
  split
  · split
    · exact .inr (.inr ⟨_, rfl⟩)
    · exact .inr (.inl ⟨_, _, rfl⟩)
  · exact .inr (.inr ⟨_, rfl⟩)
  · next value =>
    split
    · exact .inr (.inr ⟨_, rfl⟩)
    · next hok =>
      split
      · next hdone =>
        rw [hopen] at hdone
        cases hdone
      · exact .inl ⟨value, rfl, by simpa using hok, rfl⟩
  · exact .inr (.inr ⟨_, rfl⟩)

theorem fail_stage (c : Call) (t : State) (m : Meter) (thrown : Thrown) :
    (fail c t m thrown).stage = t.stage ∧ ∃ e, (fail c t m thrown).outcome = some (.error e) := by
  refine ⟨?_, _, rfl⟩
  unfold fail State.finish State.settle
  split <;> rfl

def Succeeds (result : State × Bytes) (d : Diagnostics) : Prop :=
  result.1.outcome = none ∧ result.1.terminal = some (.ok d)

def Fails (result : State × Bytes) : Prop :=
  (∃ e, result.1.outcome = some (.error e)) ∨ ∃ e, result.1.terminal = some (.error e)

theorem not_succeeds_of_outcome {result : State × Bytes} {e : SdkError} {d : Diagnostics}
    (h : result.1.outcome = some (.error e)) : ¬ Succeeds result d := by
  rintro ⟨hnone, -⟩
  cases hnone.symm.trans h

def resolved (t : State) (value : ResponseMetadata) : State :=
  { t with stage := .reading none, metadata := some value, diag := value.diagnostics }

theorem start_metadata {fuel : ℕ} (hopen : t.terminal = none)
    (hread : s.read g.limits g.parsers = .ok (some (.metadata (.accepted value)), s'))
    (hok : metadataOk g.call value = true) :
    g.start fuel t s = g.pump value fuel (resolved t value) s' [] := by
  have hfirst : firstFrame g.call t (g.meter fuel) (some (.metadata (.accepted value))) =
      { t with stage := .handing, metadata := some value, diag := value.diagnostics } := by
    simp [firstFrame, hok, hopen]
  simp only [Reading.start, hread, hfirst]
  rfl

/-- Without acceptable metadata in front the call is rejected. -/
theorem start_cases {fuel : ℕ} (hopen : t.terminal = none) (hstage : t.stage = .opening) :
    (∃ value s', s.read g.limits g.parsers = .ok (some (.metadata (.accepted value)), s') ∧
      metadataOk g.call value = true) ∨
    ∃ e, (g.start fuel t s).1.outcome = some (.error e) := by
  cases hread : s.read g.limits g.parsers with
  | error u =>
    right
    simp only [Reading.start, hread]
    exact (fail_stage _ _ _ _).2
  | ok r =>
    obtain ⟨f, s'⟩ := r
    rcases firstFrame_cases g.call (g.meter fuel) f hopen with ⟨value, rfl, hok, -⟩ |
      ⟨e, reported, hreject⟩ | ⟨thrown, hfail⟩
    · exact .inl ⟨value, s', rfl, hok⟩
    · right
      simp only [Reading.start, hread, hreject]
      split
      · exact (fail_stage _ _ _ _).2
      · next after _ _ =>
        cases after <;> exact (fail_stage _ _ _ _).2
    · right
      obtain ⟨hkeep, hout⟩ := fail_stage g.call t (g.meter fuel) thrown
      simp only [Reading.start, hread, hfail, hkeep, hstage]
      exact hout

theorem length_frames (ps : List Bytes) :
    ps.length ≤ (ps.flatMap (FrameReader.frame 2)).length := by
  induction ps with
  | nil => exact Nat.le_refl _
  | cons p ps ih =>
    simp only [List.flatMap_cons, List.length_cons, List.length_append, FrameReader.frame]
    omega

/-- A response within the grammar is accepted. -/
theorem succeeds_of_response {fuel : ℕ} {p : Response} {d : Diagnostics}
    (hopen : t.terminal = none) (hout : t.outcome = none) (hzero : t.responseBytes = 0)
    (hfuel : s.rest.length < fuel) (hbytes : s.rest = p.bytes) (hwf : p.WellFormed g value d)
    (hbound : p.Bounded g.limits) :
    Succeeds (g.start fuel t s) d ∧ (g.start fuel t s).2 = p.payloads.flatten := by
  obtain ⟨s', hread, htail⟩ := read_frame g.limits g.parsers 1 hbytes (by decide) hbound.1
  have hframe : g.parsers.parse 1 p.metadata = .metadata (.accepted value) := by
    simp [Parsers.parse, hwf.metadata]
  rw [hframe] at hread
  have hlong : p.payloads.length < fuel := by
    have := length_frames p.payloads
    rw [hbytes, Response.bytes] at hfuel
    simp only [List.length_append] at hfuel
    omega
  have hend : Ending g value (resolved t value).responseBytes p.payloads p.complete d := by
    have := hwf.ending
    rwa [← hzero] at this
  rw [start_metadata hopen hread hwf.expected]
  obtain ⟨houtcome, hterminal, hbody⟩ := pump_of_ending hlong htail hend hbound.2
  exact ⟨⟨houtcome.trans hout, hterminal⟩, by simpa using hbody⟩

/-- Only a response within the grammar is accepted. -/
theorem response_of_succeeds {fuel : ℕ} {d : Diagnostics} (hopen : t.terminal = none)
    (hstage : t.stage = .opening) (hzero : t.responseBytes = 0)
    (h : Succeeds (g.start fuel t s) d) :
    ∃ (p : Response) (value : ResponseMetadata),
      s.rest = p.bytes ∧ p.WellFormed g value d ∧ p.Bounded g.limits := by
  rcases start_cases hopen hstage with ⟨value, s', hread, hok⟩ | ⟨e, hrejected⟩
  · rw [start_metadata hopen hread hok] at h
    obtain ⟨json, hparse, hfirst, hle⟩ := read_metadata hread
    obtain ⟨ps, last, hrest, hend, hlast⟩ := ending_of_pump (t := resolved t value) hopen rfl
      (by simp [resolved, hzero]) h.2
    refine ⟨⟨json, ps, last⟩, value, ?_, ⟨hparse.symm, hok, ?_⟩, hle, hlast⟩
    · rw [hfirst, hrest]
      rfl
    · rwa [← hzero]
  · exact absurd h (not_succeeds_of_outcome hrejected)

theorem start_decides {fuel : ℕ} (hopen : t.terminal = none) (hstage : t.stage = .opening)
    (hout : t.outcome = none) (hfuel : s.rest.length < fuel) :
    (∃ d, Succeeds (g.start fuel t s) d) ∨ Fails (g.start fuel t s) := by
  rcases start_cases (g := g) hopen hstage with ⟨value, s', hread, hok⟩ | hrejected
  · rw [start_metadata hopen hread hok]
    have hshrinks := read_shrinks hread
    have hpump : (g.pump value fuel (resolved t value) s' []).1.outcome = t.outcome ∧
        (g.pump value fuel (resolved t value) s' []).1.terminal.isSome = true :=
      pump_terminal (by omega) hopen rfl
    obtain ⟨houtcome, hterminal⟩ := hpump
    obtain ⟨result, hresult⟩ := Option.isSome_iff_exists.mp hterminal
    cases result with
    | ok d => exact .inl ⟨d, houtcome.trans hout, hresult⟩
    | error e => exact .inr (.inr ⟨e, hresult⟩)
  · exact .inr (.inl hrejected)

/-- The SDK accepts exactly the responses of the grammar, however they are cut into chunks, and
hands out their payloads; on every other stream the call fails. -/
theorem response_grammar (g : Reading) (queueMs : ℕ) (m : Meter) (head : Head)
    (chunks : List Bytes) (hid : opaqueText g.call.requestId = true)
    (hhead : head.streams = true) :
    ∃ result, g.executeStream queueMs m head chunks = some result ∧
      (∀ d, Succeeds result d ↔
        ∃ (p : Response) (value : ResponseMetadata),
          chunks.flatten = p.bytes ∧ p.WellFormed g value d ∧ p.Bounded g.limits) ∧
      (∀ (p : Response) value d, chunks.flatten = p.bytes → p.WellFormed g value d →
        p.Bounded g.limits →
        result.2 = p.payloads.flatten) ∧
      ((¬ ∃ d, Succeeds result d) → Fails result) := by
  have hrest : (⟨[], chunks⟩ : Source).rest = chunks.flatten := by simp [Source.rest]
  have hfuel : (⟨[], chunks⟩ : Source).rest.length < chunks.flatten.length + 1 := by
    rw [hrest]
    omega
  refine ⟨_, executeStream_streams hid hhead, ?_, ?_, ?_⟩
  · intro d
    constructor
    · intro h
      obtain ⟨p, value, hbytes, hwf, hbound⟩ := response_of_succeeds rfl rfl rfl h
      exact ⟨p, value, hrest.symm.trans hbytes, hwf, hbound⟩
    · rintro ⟨p, value, hbytes, hwf, hbound⟩
      exact (succeeds_of_response rfl rfl rfl hfuel (hrest.trans hbytes) hwf hbound).1
  · intro p value d hbytes hwf hbound
    exact (succeeds_of_response rfl rfl rfl hfuel (hrest.trans hbytes) hwf hbound).2
  · intro hnot
    rcases start_decides (g := g) (t := opened g.call queueMs) rfl rfl rfl hfuel
      with hsucceeds | hfails
    · exact absurd hsucceeds hnot
    · exact hfails

private def utf8 (text : String) : Bytes := text.toUTF8.data.toList

private def headersJson (headers : List (String × String)) : String :=
  ",".intercalate (headers.map fun h => "[\"" ++ h.1 ++ "\",\"" ++ h.2 ++ "\"]")

private def metadataJson (headers : List (String × String)) : Bytes :=
  utf8 ("\x7b\"requestId\":\"r1\",\"status\":200,\"headers\":[" ++ headersJson headers ++
    "],\"diagnostics\":\x7b\"requestId\":\"r1\",\"attempt\":0,\"phase\":\"body\"," ++
    "\"delivery\":\"response_started\",\"queueMs\":0,\"headersMs\":1,\"bodyMs\":null," ++
    "\"totalMs\":1,\"requestBytes\":0,\"responseBytes\":0,\"tlsProfile\":\"chrome\"\x7d\x7d")

private def completeJson : Bytes :=
  utf8 ("\x7b\"requestId\":\"r1\",\"attempt\":0,\"phase\":\"complete\"," ++
    "\"delivery\":\"response_started\",\"queueMs\":0,\"headersMs\":1,\"bodyMs\":1," ++
    "\"totalMs\":2,\"requestBytes\":0,\"responseBytes\":2,\"tlsProfile\":\"chrome\"\x7d")

private def finalDiagnostics : Diagnostics :=
  { initialDiagnostics "r1" 0 "chrome" with
    phase := .complete
    delivery := .responseStarted
    headersMs := some 1
    bodyMs := some 1
    totalMs := 2
    responseBytes := 2 }

private def okMetadata (headers : List (String × String)) : ResponseMetadata :=
  ⟨"r1", 200, headers, { initialDiagnostics "r1" 0 "chrome" with
    phase := .body
    delivery := .responseStarted
    headersMs := some 1
    totalMs := 1 }, none⟩

private def plainCall : Call :=
  ⟨.stream, .connection, "r1", 0, false, "chrome", some "chrome", false, 8, 1024⟩

private def plainReading (headers : List (String × String)) (limits : FrameLimits) : Reading where
  call := plainCall
  limits := limits
  parsers := ⟨fun json =>
      if json = metadataJson headers then .accepted (okMetadata headers) else .malformed,
    fun json => if json = completeJson then .accepted finalDiagnostics else .malformed,
    fun _ => .malformed⟩
  meter := fun _ => ⟨3, 0⟩

private def plainResponse (headers : List (String × String)) : Response :=
  ⟨metadataJson headers, [[104, 105]], completeJson⟩

def wide : FrameLimits := ⟨65536, 65536, by decide, by decide⟩

private def narrow : FrameLimits := ⟨600, 65536, by decide, by decide⟩

private def manyHeaders : List (String × String) :=
  List.replicate 30 ("accept-ranges", "bytes")

private theorem plainResponse_wellFormed {headers : List (String × String)} {limits : FrameLimits}
    (hok : metadataOk plainCall (okMetadata headers) = true) (h : 2 ≤ limits.data) :
    (plainResponse headers).WellFormed (plainReading headers limits) (okMetadata headers)
      finalDiagnostics where
  metadata := by simp [plainReading, plainResponse]
  expected := hok
  ending := by
    refine ⟨?_, show 2 ≤ 8 by decide, ?_, by simp [plainReading, plainResponse], ?_⟩
    · intro payload hp
      rw [List.mem_singleton.mp hp]
      exact ⟨by decide, h⟩
    · exact show bodyless plainCall (okMetadata headers) = true →
        [[104, 105]] = ([] : List Bytes) by
        intro hbodyless
        exact absurd hbodyless (by simp [bodyless, plainCall, okMetadata])
    · have hok : diagnosticsOk finalDiagnostics (some ("r1", 0)) = true := by decide
      exact ⟨hok, rfl, rfl, rfl, fun _ hc => (by cases hc), fun _ hr => (by cases hr)⟩

/-- The response in three chunks, one of them empty. -/
theorem response_grammar_three_chunks :
    ∃ result, (plainReading [] wide).executeStream 0 ⟨1, 0⟩ serviceHead
        [(plainResponse []).bytes.take 7, [], (plainResponse []).bytes.drop 7] = some result ∧
      Succeeds result finalDiagnostics ∧ result.2 = [104, 105] := by
  obtain ⟨result, hresult, hiff, hbody, -⟩ := response_grammar (plainReading [] wide) 0 ⟨1, 0⟩
    serviceHead [(plainResponse []).bytes.take 7, [], (plainResponse []).bytes.drop 7]
    (by decide) (by decide)
  have hbytes : [(plainResponse []).bytes.take 7, [], (plainResponse []).bytes.drop 7].flatten =
      (plainResponse []).bytes := by simp
  have hwf : (plainResponse []).WellFormed (plainReading [] wide) (okMetadata [])
      finalDiagnostics := plainResponse_wellFormed (by decide +kernel) (by decide)
  have hbound : (plainResponse []).Bounded wide := by
    constructor <;> decide +kernel
  exact ⟨result, hresult, (hiff _).mpr ⟨_, _, hbytes, hwf, hbound⟩, hbody _ _ _ hbytes hwf hbound⟩

/-- Under a metadata limit below the size of its JSON, such a response is refused. -/
theorem long_metadata_refused :
    ¬ ∀ (g : Reading) (queueMs : ℕ) (m : Meter) (head : Head) (chunks : List Bytes),
      opaqueText g.call.requestId = true → head.streams = true →
      ∃ result, g.executeStream queueMs m head chunks = some result ∧
        ∀ d, Succeeds result d ↔
          ∃ (p : Response) (value : ResponseMetadata),
            chunks.flatten = p.bytes ∧ p.WellFormed g value d := by
  intro h
  obtain ⟨result, hresult, hiff⟩ := h (plainReading manyHeaders narrow) 0 ⟨1, 0⟩ serviceHead
    [(plainResponse manyHeaders).bytes] (by decide) (by decide)
  have hsucceeds := (hiff finalDiagnostics).mpr
    ⟨plainResponse manyHeaders, okMetadata manyHeaders, by simp,
      plainResponse_wellFormed (by decide +kernel) (by decide)⟩
  rw [executeStream_streams (by decide) (by decide), Option.some.injEq] at hresult
  rw [← hresult] at hsucceeds
  obtain ⟨p, -, hbytes, -, hbound⟩ := response_of_succeeds rfl rfl rfl hsucceeds
  have hsent : (⟨[], [(plainResponse manyHeaders).bytes]⟩ : Source).rest =
      (plainResponse manyHeaders).bytes := by simp [Source.rest]
  have hlong : 600 < (metadataJson manyHeaders).length ∧
      (metadataJson manyHeaders).length ≤ 65536 := by
    decide +kernel
  have hsame : p.metadata = metadataJson manyHeaders :=
    first_frame (l := wide) hbytes hsent (by decide) (Nat.le_trans hbound.1 (by decide)) hlong.2
  have hle : p.metadata.length ≤ 600 := hbound.1
  rw [hsame] at hle
  omega

end SdkResponse
