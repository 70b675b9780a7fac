import Ja3Proxy.FrameReader
import Ja3Proxy.TransitionRuns

/-! The request side of `executeStream` and the encoder `uploadFrames` of the TypeScript
package. The stream is driven by pulls; a pull may wait for the body's source, and it may be
cancelled while it waits. -/
namespace SdkUpload

open FrameReader TransitionRuns TransportErrors

inductive Item where
  | chunk (data : Bytes)
  /-- A value that is not a `Uint8Array`. -/
  | alien
  | failure
  deriving DecidableEq, Repr

inductive Body where
  | absent
  | text (content : String)
  | bytes (data : Bytes)
  /-- A `ReadableStream` or an async iterable. -/
  | chunks (items : List Item)
  deriving DecidableEq

def Body.pending : Body → Bytes
  | .text content => content.toUTF8.toList
  | .bytes data => data
  | _ => []

def Body.items : Body → List Item
  | .chunks items => items
  | _ => []

def Body.hasSource : Body → Bool
  | .chunks _ => true
  | _ => false

def Item.data : Item → Bytes
  | .chunk data => data
  | _ => []

def Body.content (body : Body) : Bytes := body.pending ++ body.items.flatMap Item.data

/-- The limits that the service advertises. -/
structure Limits where
  maxBytes : ℕ
  maxData : ℕ
  maxFrames : ℕ

inductive Status where
  | readable
  | closed
  | errored
  deriving DecidableEq, Repr

/-- The variables of `uploadFrames` and the state of its stream. -/
structure Encoder where
  pending : Bytes
  offset : ℕ
  stage : ℕ
  ended : Bool
  sourceEnded : Bool
  frames : ℕ
  emptyReads : ℕ
  bytes : ℕ
  /-- What the source has not given yet. -/
  items : List Item
  /-- A pull waits for the source. -/
  waiting : Bool
  status : Status
  /-- Everything enqueued so far. -/
  output : List Bytes
  /-- `cancel` came before the end of the body. -/
  cancelled : Bool
  deriving DecidableEq

def Encoder.initial (body : Body) : Encoder where
  pending := body.pending
  offset := 0
  stage := 0
  ended := false
  sourceEnded := !body.hasSource
  frames := 0
  emptyReads := 0
  bytes := 0
  items := body.items
  waiting := false
  status := .readable
  output := []
  cancelled := false

def Encoder.cancel (s : Encoder) : Encoder :=
  if s.ended && s.sourceEnded then s
  else { s with ended := true, pending := [], cancelled := true }

/-- `controller.error`, which a stream ignores once it is closed, and the cleanup after it. -/
def Encoder.fail (s : Encoder) : Encoder :=
  { s with
    waiting := false
    status := if s.status = .readable then .errored else s.status
    ended := true
    pending := if s.ended && s.sourceEnded then s.pending else [] }

/-- The part of a pull after its loop. -/
def Encoder.emit (l : Limits) (s : Encoder) : Encoder :=
  if s.offset < s.pending.length then
    if l.maxBytes < s.bytes + ((s.pending.drop s.offset).take l.maxData).length ∨
        l.maxFrames ≤ s.frames + 1 then s.fail
    else
      { s with
        waiting := false
        frames := s.frames + 1
        bytes := s.bytes + ((s.pending.drop s.offset).take l.maxData).length
        offset := s.offset + ((s.pending.drop s.offset).take l.maxData).length
        output := s.output ++ [frame 2 ((s.pending.drop s.offset).take l.maxData)] }
  else
    { s with
      waiting := false
      ended := true
      pending := []
      status := .closed
      output := s.output ++ [frame 3 []] }

/-- The head of the loop: wait for the source, or go on with what is at hand. -/
def Encoder.advance (l : Limits) (s : Encoder) : Encoder :=
  if s.offset = s.pending.length ∧ s.sourceEnded = false then { s with waiting := true }
  else s.emit l

def Encoder.pull (l : Limits) (metadata : Bytes) (s : Encoder) : Encoder :=
  if s.ended then { s with status := .closed }
  else if s.stage = 0 then { s with stage := 1, output := s.output ++ [frame 1 metadata] }
  else s.advance l

def Encoder.answer (l : Limits) (s : Encoder) : Encoder :=
  match s.items with
  | [] => if s.ended then { s with waiting := false } else { s with sourceEnded := true }.emit l
  | .failure :: items => { s with items := items }.fail
  | .alien :: items =>
    if s.ended then { s with waiting := false, items := items }
    else { s with items := items }.fail
  | .chunk data :: items =>
    if s.ended then { s with waiting := false, items := items }
    else if data = [] then
      if l.maxFrames ≤ s.emptyReads + 1 then
        { s with items := items, emptyReads := s.emptyReads + 1 }.fail
      else
        { s with
          items := items, emptyReads := s.emptyReads + 1, pending := [], offset := 0 }.advance
          l
    else { s with items := items, emptyReads := 0, pending := data, offset := 0 }.advance l

inductive Event where
  | pull
  | answer
  /-- `cancel` of the upload. -/
  | cancel
  /-- The consumer cancels the stream. -/
  | cancelStream
  deriving DecidableEq, Repr

def next (l : Limits) (metadata : Bytes) (s : Encoder) : Event → Option Encoder
  | .pull =>
    if s.status = .readable ∧ s.waiting = false then some (s.pull l metadata) else none
  | .answer => if s.waiting then some (s.answer l) else none
  | .cancel => some s.cancel
  | .cancelStream =>
    if s.status = .readable then some { s with status := .closed }.cancel else none

def machine (l : Limits) (metadata : Bytes) (body : Body) : Machine Encoder Event :=
  ⟨.initial body, next l metadata⟩

structure Wire (Fields : Type) where
  fields : Fields
  hasBody : Bool
  bodyLength : Option ℕ
  deriving DecidableEq

def Body.length : Body → Option ℕ
  | .text content => some content.toUTF8.toList.length
  | .bytes data => some data.length
  | _ => none

def Body.wire {Fields : Type} (fields : Fields) (body : Body) : Wire Fields :=
  ⟨fields, body ≠ .absent, body.length⟩

/-- The request side of `executeStream`: the metadata frame's payload, or a refusal of the
request before anything is sent. `stringify` is `JSON.stringify` followed by `TextEncoder`. -/
def describe {Fields : Type} (stringify : Wire Fields → Bytes) (maxMetadata maxBytes : ℕ)
    (fields : Fields) (body : Body) : Except ErrorCode Bytes :=
  if body.length.any (maxBytes < ·) then .error .bodyTooLarge
  else if maxMetadata < (stringify (body.wire fields)).length then .error .bodyTooLarge
  else .ok (stringify (body.wire fields))

def pieces (maxData size : ℕ) : ℕ := (size + (maxData - 1)) / maxData

def itemFrames (maxData : ℕ) : List Item → ℕ
  | [] => 0
  | item :: items => pieces maxData item.data.length + itemFrames maxData items

/-- How many data frames the whole body needs: chunks are cut, never joined. -/
def Body.frames (maxData : ℕ) (body : Body) : ℕ :=
  pieces maxData body.pending.length + itemFrames maxData body.items

def Item.bad : Item → Bool
  | .chunk _ => false
  | _ => true

variable {l : Limits} {metadata : Bytes} {body : Body} {s t : Encoder} {ps : List Bytes}

theorem pieces_zero (hd : 0 < l.maxData) : pieces l.maxData 0 = 0 :=
  Nat.div_eq_of_lt (by omega)

theorem pieces_take (data : Bytes) (hd : 0 < l.maxData) (hne : 0 < data.length) :
    pieces l.maxData data.length =
      pieces l.maxData (data.drop (data.take l.maxData).length).length + 1 := by
  rw [List.length_drop, List.length_take]
  unfold pieces
  by_cases hle : l.maxData ≤ data.length
  · rw [Nat.min_eq_left hle]
    have hsplit : data.length + (l.maxData - 1) =
        (data.length - l.maxData + (l.maxData - 1)) + l.maxData := by omega
    rw [hsplit, Nat.add_div_right _ hd]
  · have hone : (data.length + (l.maxData - 1)) / l.maxData = 1 :=
      Nat.div_eq_of_lt_le (by omega) (by omega)
    have hzero : (l.maxData - 1) / l.maxData = 0 := Nat.div_eq_of_lt (by omega)
    rw [Nat.min_eq_right (by omega), Nat.sub_self, Nat.zero_add, hone, hzero]

def Encoder.left (s : Encoder) : Bytes := s.pending.drop s.offset

structure Sending (l : Limits) (metadata : Bytes) (body : Body) (s : Encoder) (ps : List Bytes) :
    Prop where
  ended : s.ended = false
  cancelled : s.cancelled = false
  output : s.output = if s.stage = 0 then [] else frame 1 metadata :: ps.map (frame 2)
  start : s.stage = 0 → ps = []
  offset : s.offset ≤ s.pending.length
  content : ps.flatten ++ (s.left ++ s.items.flatMap Item.data) = body.content
  sizes : ∀ p ∈ ps, p ≠ [] ∧ p.length ≤ l.maxData
  frames : s.frames = ps.length
  few : ps = [] ∨ ps.length < l.maxFrames
  bytes : s.bytes = ps.flatten.length
  within : ps.flatten.length ≤ l.maxBytes
  budget : s.frames + (pieces l.maxData s.left.length + itemFrames l.maxData s.items) =
    body.frames l.maxData
  bad : ∀ item ∈ body.items, item.bad = true → item ∈ s.items
  source : s.sourceEnded = true → s.items = []

structure Finished (l : Limits) (metadata : Bytes) (body : Body) (output : List Bytes)
    (ps : List Bytes) : Prop where
  output : output = frame 1 metadata :: ps.map (frame 2) ++ [frame 3 []]
  content : ps.flatten = body.content
  sizes : ∀ p ∈ ps, p ≠ [] ∧ p.length ≤ l.maxData
  few : ps = [] ∨ ps.length < l.maxFrames
  within : body.content.length ≤ l.maxBytes
  budget : ps.length = body.frames l.maxData
  good : ∀ item ∈ body.items, item.bad = false

structure Done (l : Limits) (metadata : Bytes) (body : Body) (s : Encoder) : Prop where
  ended : s.ended = true
  sourceEnded : s.sourceEnded = true
  closed : s.status = .closed
  waiting : s.waiting = false
  cancelled : s.cancelled = false
  finished : ∃ ps, Finished l metadata body s.output ps

def Unfinished (output : List Bytes) : Prop := ∀ f ∈ output, f.head? ≠ some 3

inductive Invariant (l : Limits) (metadata : Bytes) (body : Body) (s : Encoder) : Prop where
  | sending (ps : List Bytes) (h : Sending l metadata body s ps)
      (waiting : s.waiting = true → s.stage ≠ 0 ∧ s.left = [])
  | done (h : Done l metadata body s)
  | dead (ended : s.ended = true) (output : Unfinished s.output)

theorem Sending.unfinished (h : Sending l metadata body s ps) : Unfinished s.output := by
  intro f hf
  rw [h.output] at hf
  split at hf
  · cases hf
  · rcases List.mem_cons.mp hf with rfl | hf
    · simp [frame]
    · obtain ⟨p, -, rfl⟩ := List.mem_map.mp hf
      simp [frame]

theorem Invariant.initial : Invariant l metadata body (.initial body) := by
  refine .sending [] ⟨rfl, rfl, rfl, fun _ => rfl, Nat.zero_le _, ?_, by simp, rfl, .inl rfl, rfl,
    Nat.zero_le _,
    ?_, fun _ h _ => h, ?_⟩ (by simp [Encoder.initial])
  · rfl
  · simp [Encoder.initial, Encoder.left, Body.frames]
  · cases body <;> simp [Encoder.initial, Body.hasSource, Body.items]

theorem Invariant.cancel (h : Invariant l metadata body s) :
    Invariant l metadata body s.cancel := by
  unfold Encoder.cancel
  split
  · exact h
  · next hlive =>
    cases h with
    | sending ps h _ => exact .dead rfl h.unfinished
    | done h => simp [h.ended, h.sourceEnded] at hlive
    | dead ended output => exact .dead rfl output

theorem Sending.fail (h : Sending l metadata body s ps) : Invariant l metadata body s.fail :=
  .dead rfl h.unfinished

/-- A data frame goes out. -/
theorem Sending.emit_data (hd : 0 < l.maxData) (h : Sending l metadata body s ps)
    (hstage : s.stage ≠ 0) (hmore : s.offset < s.pending.length)
    (hbytes : s.bytes + (s.left.take l.maxData).length ≤ l.maxBytes)
    (hframes : s.frames + 1 < l.maxFrames) :
    Sending l metadata body
      { s with
        waiting := false
        frames := s.frames + 1
        bytes := s.bytes + (s.left.take l.maxData).length
        offset := s.offset + (s.left.take l.maxData).length
        output := s.output ++ [frame 2 (s.left.take l.maxData)] }
      (ps ++ [s.left.take l.maxData]) := by
  have hlen : s.left.length = s.pending.length - s.offset := List.length_drop
  have hdrop : s.pending.drop (s.offset + (s.left.take l.maxData).length) =
      s.left.drop (s.left.take l.maxData).length := by
    rw [Encoder.left, List.drop_drop]
  have htake : (s.left.take l.maxData).length = min l.maxData s.left.length := List.length_take
  have hflat : (ps ++ [s.left.take l.maxData]).flatten = ps.flatten ++ s.left.take l.maxData := by
    simp
  constructor
  · exact h.ended
  · exact h.cancelled
  · rw [h.output]
    simp [hstage]
  · exact fun hzero => absurd hzero hstage
  · change s.offset + _ ≤ s.pending.length
    omega
  · have hsplit : s.left.take l.maxData ++ s.left.drop (s.left.take l.maxData).length = s.left := by
      rw [List.length_take]
      conv_rhs => rw [← List.take_append_drop (min l.maxData s.left.length) s.left]
      rw [List.take_eq_take_min (i := l.maxData)]
    change (ps ++ [s.left.take l.maxData]).flatten ++
      (s.pending.drop (s.offset + (s.left.take l.maxData).length) ++ _) = _
    rw [hflat, hdrop, ← h.content, List.append_assoc, ← List.append_assoc (s.left.take l.maxData),
      hsplit]
  · intro p hp
    rcases List.mem_append.mp hp with hp | hp
    · exact h.sizes p hp
    · rw [List.mem_singleton.mp hp]
      refine ⟨?_, by omega⟩
      intro hnil
      have := congrArg List.length hnil
      simp only [List.length_nil] at this
      omega
  · change s.frames + 1 = _
    rw [h.frames, List.length_append]
    rfl
  · right
    have := h.frames
    rw [List.length_append, List.length_singleton]
    omega
  · change s.bytes + _ = _
    rw [hflat, List.length_append, h.bytes]
  · have := h.bytes
    rw [hflat, List.length_append]
    omega
  · have hpieces := pieces_take s.left hd (by omega)
    have hbudget := h.budget
    change s.frames + 1 + (pieces l.maxData (s.pending.drop
      (s.offset + (s.left.take l.maxData).length)).length + itemFrames l.maxData s.items) = _
    rw [hdrop]
    omega
  · exact h.bad
  · exact h.source

theorem Sending.finish (hd : 0 < l.maxData) (h : Sending l metadata body s ps)
    (hstage : s.stage ≠ 0) (hleft : s.left = []) (hitems : s.items = []) :
    Finished l metadata body (s.output ++ [frame 3 []]) ps := by
  have hcontent := h.content
  have hbudget := h.budget
  rw [hleft, hitems] at hcontent hbudget
  simp only [List.flatMap_nil, List.append_nil] at hcontent
  refine ⟨?_, hcontent, h.sizes, h.few, ?_, ?_, ?_⟩
  · rw [h.output]
    simp [hstage]
  · rw [← hcontent]
    exact h.within
  · rw [List.length_nil, pieces_zero hd, h.frames] at hbudget
    simpa [itemFrames] using hbudget
  · intro item hitem
    by_contra hbad
    have := h.bad item hitem (by simpa using hbad)
    rw [hitems] at this
    cases this

theorem Sending.emit (hd : 0 < l.maxData) (h : Sending l metadata body s ps)
    (hstage : s.stage ≠ 0) (hready : s.offset = s.pending.length → s.sourceEnded = true) :
    Invariant l metadata body (s.emit l) := by
  unfold Encoder.emit
  split
  · next hmore =>
    split
    · exact h.fail
    · next hfits =>
      obtain ⟨hbytes, hframes⟩ := not_or.mp hfits
      exact .sending _ (h.emit_data hd hstage hmore (Nat.le_of_not_lt hbytes)
        (Nat.lt_of_not_le hframes)) (by simp)
  · next hmore =>
    have hend : s.offset = s.pending.length := Nat.le_antisymm h.offset (Nat.le_of_not_lt hmore)
    have hsource := hready hend
    have hleft : s.left = [] := by
      rw [Encoder.left, hend, List.drop_length]
    exact .done ⟨rfl, hsource, rfl, rfl, h.cancelled,
      ps, h.finish hd hstage hleft (h.source hsource)⟩

theorem Sending.advance (hd : 0 < l.maxData) (h : Sending l metadata body s ps)
    (hstage : s.stage ≠ 0) : Invariant l metadata body (s.advance l) := by
  unfold Encoder.advance
  split
  · next hwait =>
    refine .sending ps ⟨h.ended, h.cancelled, h.output, h.start, h.offset, h.content, h.sizes,
      h.frames, h.few, h.bytes, h.within, h.budget, h.bad, h.source⟩ ?_
    intro _
    refine ⟨hstage, ?_⟩
    change s.pending.drop s.offset = []
    rw [hwait.1, List.drop_length]
  · next hgo =>
    refine h.emit hd hstage ?_
    intro hend
    by_contra hsource
    exact hgo ⟨hend, by simpa using hsource⟩

theorem Sending.pull (hd : 0 < l.maxData) (h : Sending l metadata body s ps)
    (hidle : s.waiting = false) : Invariant l metadata body (s.pull l metadata) := by
  unfold Encoder.pull
  rw [if_neg (by simp [h.ended])]
  split
  · next hstage =>
    have hnil := h.start hstage
    refine .sending ps ⟨h.ended, h.cancelled, ?_, by simp, h.offset, h.content, h.sizes, h.frames,
      h.few, h.bytes, h.within, h.budget, h.bad, h.source⟩ (by simp [hidle])
    rw [h.output, hnil]
    simp [hstage]
  · next hstage => exact h.advance hd hstage

/-- A chunk takes the place of one that is used up. -/
theorem Sending.chunk (hd : 0 < l.maxData) (h : Sending l metadata body s ps) {data : Bytes}
    {items : List Item} {emptyReads : ℕ} (hleft : s.left = [])
    (hitems : s.items = .chunk data :: items) :
    Sending l metadata body
      { s with items := items, emptyReads := emptyReads, pending := data, offset := 0 } ps where
  ended := h.ended
  cancelled := h.cancelled
  output := h.output
  start := h.start
  offset := Nat.zero_le _
  content := by
    rw [← h.content, hleft, hitems]
    simp [Encoder.left, Item.data]
  sizes := h.sizes
  frames := h.frames
  few := h.few
  bytes := h.bytes
  within := h.within
  budget := by
    have hbudget := h.budget
    rw [hleft, hitems, List.length_nil, pieces_zero hd] at hbudget
    simpa [Encoder.left, itemFrames, Item.data] using hbudget
  bad := by
    intro item hitem hbad
    have hmem := h.bad item hitem hbad
    rw [hitems] at hmem
    rcases List.mem_cons.mp hmem with rfl | hmem
    · cases hbad
    · exact hmem
  source := by
    intro hsource
    have := h.source hsource
    rw [hitems] at this
    cases this

theorem Sending.answer (hd : 0 < l.maxData) (h : Sending l metadata body s ps)
    (hstage : s.stage ≠ 0) (hleft : s.left = []) : Invariant l metadata body (s.answer l) := by
  unfold Encoder.answer
  split
  · next hitems =>
    rw [if_neg (by simp [h.ended])]
    have hsent : Sending l metadata body { s with sourceEnded := true } ps :=
      ⟨h.ended, h.cancelled, h.output, h.start, h.offset, h.content, h.sizes, h.frames, h.few,
        h.bytes, h.within, h.budget, h.bad, fun _ => hitems⟩
    exact hsent.emit hd hstage fun _ => rfl
  · exact .dead rfl h.unfinished
  · rw [if_neg (by simp [h.ended])]
    exact .dead rfl h.unfinished
  · next data items hitems =>
    rw [if_neg (by simp [h.ended])]
    split
    · next hempty =>
      subst hempty
      split
      · exact .dead rfl h.unfinished
      · exact (h.chunk hd hleft hitems).advance hd hstage
    · exact (h.chunk hd hleft hitems).advance hd hstage

theorem dead_answer (hended : s.ended = true) (hout : Unfinished s.output) :
    Invariant l metadata body (s.answer l) := by
  unfold Encoder.answer
  split
  · rw [if_pos hended]
    exact .dead hended hout
  · exact .dead rfl hout
  · rw [if_pos hended]
    exact .dead hended hout
  · rw [if_pos hended]
    exact .dead hended hout

theorem Invariant.next (hd : 0 < l.maxData) (h : Invariant l metadata body s) {e : Event}
    (hn : next l metadata s e = some t) : Invariant l metadata body t := by
  cases e with
  | pull =>
    simp only [SdkUpload.next, Option.ite_none_right_eq_some, Option.some.injEq] at hn
    obtain ⟨⟨hopen, hidle⟩, rfl⟩ := hn
    cases h with
    | sending ps h _ => exact h.pull hd hidle
    | done h => cases h.closed.symm.trans hopen
    | dead ended output =>
      unfold Encoder.pull
      rw [if_pos ended]
      exact .dead ended output
  | answer =>
    simp only [SdkUpload.next, Option.ite_none_right_eq_some, Option.some.injEq] at hn
    obtain ⟨hwait, rfl⟩ := hn
    cases h with
    | sending ps h waiting =>
      obtain ⟨hstage, hleft⟩ := waiting hwait
      exact h.answer hd hstage hleft
    | done h => cases h.waiting.symm.trans hwait
    | dead ended output => exact dead_answer ended output
  | cancel =>
    cases hn
    exact h.cancel
  | cancelStream =>
    simp only [SdkUpload.next, Option.ite_none_right_eq_some, Option.some.injEq] at hn
    obtain ⟨hopen, rfl⟩ := hn
    apply Invariant.cancel
    cases h with
    | sending ps h waiting =>
      exact .sending ps ⟨h.ended, h.cancelled, h.output, h.start, h.offset, h.content, h.sizes,
        h.frames, h.few, h.bytes, h.within, h.budget, h.bad, h.source⟩ waiting
    | done h => cases h.closed.symm.trans hopen
    | dead ended output => exact .dead ended output

theorem run_invariant (hd : 0 < l.maxData) {es : List Event}
    (h : (machine l metadata body).run (.initial body) es = some s) : Invariant l metadata body s :=
  Machine.run_preserves (P := Invariant l metadata body) (fun _ _ _ hs hn => hs.next hd hn)
    .initial h

/-- What `FrameReader::upload` is told about this request. -/
def Body.terms (limit : ℕ) (body : Body) : Terms := ⟨limit, body ≠ .absent, body.length⟩

def serviceLimits (maxRequestBytes : ℕ) : Limits := ⟨maxRequestBytes, maxDataBytes, maxUploadFrames⟩

theorem Body.length_content {n : ℕ} (h : body.length = some n) : body.content.length = n := by
  cases body <;> simp_all [Body.length, Body.content, Body.pending, Body.items]

theorem Finished.acceptable {limit : ℕ} {output : List Bytes}
    (h : Finished (serviceLimits limit) metadata body output ps) :
    Acceptable (body.terms limit) maxUploadFrames 0 ps where
  few := by
    rcases h.few with rfl | hfew
    · decide
    · exact hfew
  small := fun p hp => (h.sizes p hp).2
  within := by
    rw [Nat.zero_add, h.content]
    exact h.within
  declared := by
    intro n hn
    rw [Nat.zero_add, h.content]
    exact Body.length_content hn
  body := by
    intro hbody
    have habsent : body = .absent := by simpa [Body.terms] using hbody
    have hnil : ps.flatten = [] := by
      rw [h.content, habsent]
      rfl
    rw [List.flatten_eq_nil_iff] at hnil
    cases ps with
    | nil => rfl
    | cons p ps => exact absurd (hnil p List.mem_cons_self) (h.sizes p List.mem_cons_self).1

theorem Finished.flatten {output : List Bytes} (h : Finished l metadata body output ps) :
    output.flatten = frame 1 metadata ++ encode ps := by
  rw [h.output]
  simp [encode, List.flatMap]

theorem describe_ok {Fields : Type} {stringify : Wire Fields → Bytes} {maxMetadata maxBytes : ℕ}
    {fields : Fields} (h : describe stringify maxMetadata maxBytes fields body = .ok metadata) :
    metadata = stringify (body.wire fields) ∧ metadata.length ≤ maxMetadata := by
  unfold describe at h
  split at h
  · cases h
  · split at h
    · cases h
    · next hle =>
      cases h
      exact ⟨rfl, Nat.le_of_not_lt hle⟩

theorem available_chunks (chunks : List Bytes) :
    available (chunks.map .bytes) = chunks.flatten ∧ Chunk.failure ∉ chunks.map Chunk.bytes := by
  induction chunks with
  | nil => exact ⟨rfl, by simp⟩
  | cons data chunks ih => simp [available, ih]

/-- A finished upload, cut into chunks in any way, is accepted by the service, which forwards
exactly the body; a body that is too large, bad or cancelled gets no end frame. -/
theorem upload_round_trip {Fields : Type} (stringify : Wire Fields → Bytes)
    (decode : Bytes → Option (Wire Fields)) (maxRequestBytes : ℕ) (fields : Fields) (body : Body)
    (metadata : Bytes) (es : List Event) (s : Encoder)
    (hjson : stringify (body.wire fields) ≠ [])
    (hdecode : decode (stringify (body.wire fields)) = some (body.wire fields))
    (hside : describe stringify maxMetadataBytes maxRequestBytes fields body = .ok metadata)
    (h : (machine (serviceLimits maxRequestBytes) metadata body).run (.initial body) es = some s) :
    (s.status = .closed → (∃ f ∈ s.output, f.head? = some 3) →
      ∀ chunks : List Bytes, chunks.flatten = s.output.flatten →
        ∃ r, Reader.metadata decode ⟨[], chunks.map .bytes⟩ = .ok (body.wire fields, r) ∧
          (body.terms maxRequestBytes).upload maxUploadFrames r 0 = .ok () ∧
          ((body.terms maxRequestBytes).forwarded maxUploadFrames r 0).flatten = body.content) ∧
    (maxRequestBytes < body.content.length ∨ maxUploadFrames ≤ body.frames maxDataBytes ∨
      .alien ∈ body.items ∨ .failure ∈ body.items ∨ s.cancelled = true → Unfinished s.output) := by
  have hinv := run_invariant (l := serviceLimits maxRequestBytes) (Nat.zero_lt_succ _) h
  constructor
  · rintro - ⟨f, hf, hkind⟩ chunks hchunks
    cases hinv with
    | sending ps h _ => exact absurd hkind (h.unfinished f hf)
    | dead ended output => exact absurd hkind (output f hf)
    | done hdone =>
      obtain ⟨ps, hps⟩ := hdone.finished
      obtain ⟨rfl, hle⟩ := describe_ok hside
      obtain ⟨hbytes, hgood⟩ := available_chunks chunks
      have hrest : (⟨[], chunks.map .bytes⟩ : Reader).rest =
          frame 1 (stringify (body.wire fields)) ++ encode ps := by
        rw [Reader.rest, List.nil_append, hbytes, hchunks, hps.flatten]
      obtain ⟨r, hmeta, htail, hsound⟩ := metadata_of_rest hrest hjson hle hdecode
      have hacc := hps.acceptable
      refine ⟨r, hmeta, upload_of_encode (by decide) (hsound.mpr hgood) htail hacc, ?_⟩
      rw [forwarded_of_encode (by decide) (hsound.mpr hgood) htail hacc, hps.content]
  · intro hbad
    cases hinv with
    | sending ps h _ => exact h.unfinished
    | dead ended output => exact output
    | done hdone =>
      exfalso
      obtain ⟨ps, hps⟩ := hdone.finished
      rcases hbad with hlarge | hmany | halien | hfailure | hcancelled
      · exact absurd hps.within (Nat.not_le_of_lt hlarge)
      · have hbudget : ps.length = body.frames maxDataBytes := hps.budget
        have hfew := hps.acceptable.few
        omega
      · cases hps.good _ halien
      · cases hps.good _ hfailure
      · cases hdone.cancelled.symm.trans hcancelled

private def streamedJson : Bytes :=
  "\x7b\"hasBody\":true\x7d".toList.map fun c => UInt8.ofNat c.toNat

private def streamed : Body := .chunks [.chunk [104], .chunk [], .chunk [105, 106]]

private def streamedRun : List Event :=
  [.pull, .pull, .answer, .pull, .answer, .answer, .pull, .answer]

/-- Three chunks, one of them empty, read back byte by byte. -/
theorem upload_round_trip_streamed :
    ∃ s, (machine (serviceLimits 3) streamedJson streamed).run (.initial streamed) streamedRun =
        some s ∧
      ∃ r,
        Reader.metadata (fun json => if json = streamedJson then some (streamed.wire ()) else none)
          ⟨[], (s.output.flatten.map fun b => [b]).map .bytes⟩ = .ok (streamed.wire (), r) ∧
        (streamed.terms 3).upload maxUploadFrames r 0 = .ok () ∧
        ((streamed.terms 3).forwarded maxUploadFrames r 0).flatten = [104, 105, 106] := by
  have hrun : ∃ s, (machine (serviceLimits 3) streamedJson streamed).run (.initial streamed)
      streamedRun = some s ∧ s.status = .closed ∧ frame 3 [] ∈ s.output :=
    ⟨_, rfl, by decide, by decide⟩
  obtain ⟨s, hs, hclosed, hend⟩ := hrun
  refine ⟨s, hs, ?_⟩
  have htrip := upload_round_trip (fun _ => streamedJson)
    (fun json => if json = streamedJson then some (streamed.wire ()) else none) 3 () streamed
    streamedJson streamedRun s (by decide) (by decide) (by decide) hs
  exact htrip.1 hclosed ⟨_, hend, rfl⟩ _ (single_bytes _)

end SdkUpload
