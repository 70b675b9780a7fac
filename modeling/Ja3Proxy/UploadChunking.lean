import Ja3Proxy.FrameReader
import Ja3Proxy.RequestRegistry

/-! Reading a request envelope does not depend on how its bytes are cut into chunks.
Readers with the same bytes in front of them give the same metadata, the same payloads and the
same request record. The loops of `next_bytes` and `exact` are also written out with a bound on
their iterations, which the length of the stream gives. -/
namespace UploadChunking

open ExceptRules TransportErrors FrameReader RequestRecord

/-- `next_bytes`, or `none` if its loop condition is tested more than `fuel` times. -/
def nextBytesWhile : ℕ → Reader → Option (Except TransportError (Bool × Reader))
  | 0, _ => none
  | fuel + 1, r =>
    if r.pending.isEmpty then
      match r.stream with
      | .bytes data :: stream => nextBytesWhile fuel ⟨data, stream⟩
      | .failure :: _ => some (.error protocolError)
      | [] => some (.ok (false, r))
    else some (.ok (true, r))

/-- The copying loop of `exact`, or `none` if its condition is tested more than `fuel` times. -/
def exactWhile (length : ℕ) :
    ℕ → Bytes → Reader → Option (Except TransportError (Bytes × Reader))
  | 0, _, _ => none
  | fuel + 1, bytes, r =>
    if bytes.length < length then
      (nextBytesWhile fuel r).bind fun
        | .error e => some (.error e)
        | .ok (false, _) => some (.error protocolError)
        | .ok (true, r) =>
          let take := min (length - bytes.length) r.pending.length
          exactWhile length fuel (bytes ++ r.pending.take take) ⟨r.pending.drop take, r.stream⟩
    else some (.ok (bytes, r))

theorem nextBytesWhile_eq {fuel : ℕ} {r : Reader} (h : r.stream.length < fuel) :
    nextBytesWhile fuel r = some r.nextBytes := by
  induction fuel generalizing r with
  | zero => exact absurd h (Nat.not_lt_zero _)
  | succ fuel ih =>
    obtain ⟨pending, stream⟩ := r
    cases pending with
    | cons b rest => simp [nextBytesWhile, Reader.nextBytes, pull]
    | nil =>
      cases stream with
      | nil => rfl
      | cons chunk stream =>
        cases chunk with
        | failure => rfl
        | bytes data => exact ih (r := ⟨data, stream⟩) (Nat.lt_of_succ_lt_succ h)

theorem pull_stream_le {pending : Bytes} {stream : List Chunk} {r : Reader}
    (h : pull pending stream = .ok (true, r)) :
    r.pending ≠ [] ∧ r.stream.length ≤ stream.length ∧
      (pending = [] → r.stream.length < stream.length) := by
  fun_induction pull pending stream with
  | case1 =>
    cases h
    simp
  | case2 => cases h
  | case3 => cases h
  | case4 data stream ih =>
    obtain ⟨hne, hle, _⟩ := ih h
    simp only [List.length_cons]
    exact ⟨hne, by omega, by omega⟩

/-- An unfinished `gather` starts with the next byte of the stream. -/
theorem gather_pull {length : ℕ} {bytes pending : Bytes} {stream : List Chunk}
    (hmore : bytes.length < length) :
    gather length bytes pending stream =
      (pull pending stream).bind fun (more, r) =>
        if more then gather length bytes r.pending r.stream else .error protocolError := by
  fun_induction pull pending stream with
  | case1 => rfl
  | case2 =>
    rw [gather]
    simp [Except.bind, hmore]
  | case3 =>
    rw [gather]
    simp [Except.bind, hmore]
  | case4 data stream ih =>
    rw [← ih, gather]
    simp [Nat.not_le.mpr hmore]

theorem gather_done {length : ℕ} {bytes pending : Bytes} {stream : List Chunk}
    (h : length ≤ bytes.length) :
    gather length bytes pending stream = .ok (bytes, ⟨pending, stream⟩) := by
  have hzero : length - bytes.length = 0 := Nat.sub_eq_zero_of_le h
  rw [gather.eq_def]
  simp [hzero, h]

/-- One round of copying. -/
theorem gather_round {length : ℕ} {bytes pending : Bytes} {stream : List Chunk} :
    gather length bytes pending stream =
      gather length (bytes ++ pending.take (min (length - bytes.length) pending.length))
        (pending.drop (min (length - bytes.length) pending.length)) stream := by
  by_cases hfull : length ≤
      (bytes ++ pending.take (min (length - bytes.length) pending.length)).length
  · rw [gather_done hfull, gather.eq_def]
    simp only [hfull, if_true]
  · have htake : min (length - bytes.length) pending.length = pending.length := by
      simp only [List.length_append, List.length_take] at hfull
      omega
    conv_lhs => rw [gather.eq_def]
    conv_rhs => rw [gather.eq_def]
    simp [htake]

theorem exactWhile_done {length fuel : ℕ} {bytes : Bytes} {r : Reader} (hfuel : 0 < fuel)
    (h : length ≤ bytes.length) : exactWhile length fuel bytes r = some (.ok (bytes, r)) := by
  obtain ⟨fuel, rfl⟩ := Nat.exists_eq_succ_of_ne_zero (Nat.ne_of_gt hfuel)
  simp [exactWhile, Nat.not_lt.mpr h]

/-- The copying loop ends: every round but the first starts with an empty buffer and takes a
chunk off the stream. -/
theorem exactWhile_eq {length fuel : ℕ} {bytes : Bytes} {r : Reader}
    (hfuel : r.stream.length + 2 ≤ fuel)
    (hstart : r.pending = [] ∨ r.stream.length + 3 ≤ fuel) :
    exactWhile length fuel bytes r = some (gather length bytes r.pending r.stream) := by
  induction fuel generalizing bytes r with
  | zero => omega
  | succ fuel ih =>
    by_cases hmore : length ≤ bytes.length
    · rw [exactWhile_done (Nat.succ_pos _) hmore, gather_done hmore]
    · have hlt : bytes.length < length := Nat.not_le.mp hmore
      rw [exactWhile, if_pos hlt, nextBytesWhile_eq (by omega), gather_pull hlt, Reader.nextBytes]
      cases hpull : pull r.pending r.stream with
      | error e => rfl
      | ok step =>
        obtain ⟨more, r'⟩ := step
        cases more with
        | false => rfl
        | true =>
          obtain ⟨_, hle, hshort⟩ := pull_stream_le hpull
          simp only [Option.bind_some, Except.bind, if_true]
          rw [gather_round]
          by_cases hfull : length ≤
              (bytes ++ r'.pending.take (min (length - bytes.length) r'.pending.length)).length
          · rw [exactWhile_done (by omega) hfull, gather_done hfull]
          · have hempty : r'.pending.drop (min (length - bytes.length) r'.pending.length) = [] := by
              apply List.drop_of_length_le
              simp only [List.length_append, List.length_take] at hfull
              omega
            have hleft : r'.stream.length + 2 ≤ fuel := by
              rcases hstart with hnil | hbig
              · have := hshort hnil
                omega
              · omega
            exact ih (r := ⟨_, r'.stream⟩) hleft (.inl hempty)

structure Same (r s : Reader) : Prop where
  left : r.Sound
  right : s.Sound
  bytes : r.rest = s.rest

theorem gather_error {length : ℕ} {bytes pending : Bytes} {stream : List Chunk} :
    FailsWith (· = protocolError) (gather length bytes pending stream) := by
  fun_induction gather length bytes pending stream with
  | case1 => exact .ok _
  | case2 => exact .error rfl
  | case3 => exact .error rfl
  | case4 bytes pending take bytes' hfull data stream ih => exact ih

theorem exact_error {r : Reader} {length : ℕ} : FailsWith (· = protocolError) (r.exact length) := by
  unfold Reader.exact
  split
  · exact .ok _
  · exact gather_error

/-- A reader without enough bytes fails with a protocol error. -/
theorem exact_short {r : Reader} {length : ℕ} (h : r.rest.length < length) :
    r.exact length = .error protocolError := by
  cases hexact : r.exact length with
  | error e => rw [exact_error e hexact]
  | ok step =>
    obtain ⟨hlen, hrest, _⟩ := exact_ok hexact
    rw [hrest, List.length_append] at h
    omega

def Continue {α : Type} (x y : α × Reader) : Prop := x.1 = y.1 ∧ Same x.2 y.2

theorem Same.exact {r s : Reader} (h : Same r s) (length : ℕ) :
    Related Continue (r.exact length) (s.exact length) := by
  by_cases hlen : length ≤ r.rest.length
  · obtain ⟨b, r', hr⟩ := exact_total hlen
    obtain ⟨c, s', hs⟩ := exact_total (h.bytes ▸ hlen)
    obtain ⟨hb, hrest, hsound⟩ := exact_ok hr
    obtain ⟨hc, hrest', hsound'⟩ := exact_ok hs
    have hsplit : b ++ r'.rest = c ++ s'.rest := by rw [← hrest, ← hrest', h.bytes]
    obtain ⟨hbc, htail⟩ := List.append_inj hsplit (hb.trans hc.symm)
    rw [hr, hs]
    exact .ok ⟨hbc, hsound.mpr h.left, hsound'.mpr h.right, htail⟩
  · have hshort : r.rest.length < length := Nat.not_le.mp hlen
    rw [exact_short hshort, exact_short (h.bytes ▸ hshort)]
    exact .error _

theorem Same.frameHeader {r s : Reader} (h : Same r s) :
    Related Continue r.frameHeader s.frameHeader := by
  apply (h.exact 5).bind
  rintro ⟨header, r'⟩ ⟨header', s'⟩ ⟨rfl, hsame⟩
  exact .ok ⟨rfl, hsame⟩

theorem Same.metadata {Metadata : Type} {decode : Bytes → Option Metadata} {r s : Reader}
    (h : Same r s) : Related Continue (r.metadata decode) (s.metadata decode) := by
  apply h.frameHeader.bind
  rintro ⟨⟨kind, length⟩, r₁⟩ ⟨_, s₁⟩ ⟨rfl, h₁⟩
  apply (Related.refl _).bind
  rintro u _ rfl
  apply (h₁.exact length).bind
  rintro ⟨json, r₂⟩ ⟨_, s₂⟩ ⟨rfl, h₂⟩
  dsimp only
  cases decode json with
  | none => exact .error _
  | some metadata => exact .ok ⟨rfl, h₂⟩

/-- Only the end of the stream makes `next_bytes` return false. -/
theorem pull_more {pending : Bytes} {stream : List Chunk} (hs : Chunk.failure ∉ stream)
    (hne : pending ++ available stream ≠ []) : ∃ r, pull pending stream = .ok (true, r) := by
  fun_induction pull pending stream with
  | case1 => exact ⟨_, rfl⟩
  | case2 => exact absurd rfl hne
  | case3 => simp at hs
  | case4 data stream ih =>
    have hs' : Chunk.failure ∉ stream := by simpa using hs
    exact ih hs' (by simpa [available] using hne)

theorem Same.nextBytes {r s : Reader} (h : Same r s) :
    Related (fun x y => x.1 = y.1) r.nextBytes s.nextBytes := by
  by_cases hend : r.rest = []
  · have hr : r.nextBytes = .ok (false, ⟨[], []⟩) := pull_of_end h.left hend
    have hs : s.nextBytes = .ok (false, ⟨[], []⟩) := pull_of_end h.right (h.bytes.symm.trans hend)
    rw [hr, hs]
    exact .ok rfl
  · obtain ⟨r', hr⟩ := pull_more h.left hend
    have hmore : s.rest ≠ [] := h.bytes ▸ hend
    obtain ⟨s', hs⟩ := pull_more h.right hmore
    rw [Reader.nextBytes, Reader.nextBytes, hr, hs]
    exact .ok rfl

inductive SameFrame :
    Option (Bytes × Reader × ℕ) → Option (Bytes × Reader × ℕ) → Prop where
  | done : SameFrame none none
  | data {r s : Reader} (payload : Bytes) (count : ℕ) (h : Same r s) :
      SameFrame (some (payload, r, count)) (some (payload, s, count))

theorem Same.uploadFrame {r s : Reader} (h : Same r s) (u : Terms) (count : ℕ) :
    Related SameFrame (u.uploadFrame r count) (u.uploadFrame s count) := by
  apply h.frameHeader.bind
  rintro ⟨⟨kind, length⟩, r₁⟩ ⟨_, s₁⟩ ⟨rfl, h₁⟩
  dsimp only
  split
  · apply (Related.refl _).bind
    rintro _ _ rfl
    apply (Related.refl _).bind
    rintro count' _ rfl
    apply (Related.refl _).bind
    rintro _ _ rfl
    apply (h₁.exact length).bind
    rintro ⟨payload, r₂⟩ ⟨_, s₂⟩ ⟨rfl, h₂⟩
    exact .ok (.data payload count' h₂)
  · split
    · apply (Related.refl _).bind
      rintro _ _ rfl
      apply h₁.nextBytes.bind
      rintro ⟨more, _⟩ ⟨_, _⟩ rfl
      apply (Related.refl _).bind
      rintro _ _ rfl
      exact .ok .done
    · exact .error _

/-- The request record that `upload` leaves: each data frame that was read in full sets
`request_bytes`. -/
def recorded (u : Terms) : ℕ → Reader → ℕ → Record → Record
  | 0, _, _, record => record
  | frames + 1, r, count, record =>
    match u.uploadFrame r count with
    | .ok (some (_, r, count)) =>
      recorded u frames r count (record.update fun d => { d with requestBytes := count })
    | _ => record

structure Outcome where
  result : Except TransportError Unit
  forwarded : List Bytes
  record : Record

def uploadOutcome (u : Terms) (frames : ℕ) (r : Reader) (count : ℕ) (record : Record) : Outcome :=
  ⟨u.upload frames r count, u.forwarded frames r count, recorded u frames r count record⟩

theorem Same.uploadOutcome {u : Terms} {frames : ℕ} {r s : Reader} (h : Same r s) (count : ℕ)
    (record : Record) :
    uploadOutcome u frames r count record = uploadOutcome u frames s count record := by
  induction frames generalizing r s count record with
  | zero => rfl
  | succ frames ih =>
    have hframe := h.uploadFrame u count
    unfold UploadChunking.uploadOutcome at ih ⊢
    simp only [Terms.upload, Terms.forwarded, recorded]
    generalize u.uploadFrame r count = x at hframe
    generalize u.uploadFrame s count = y at hframe
    cases hframe with
    | error e => rfl
    | ok hstep =>
      cases hstep with
      | done => rfl
      | data payload count' hsame =>
        have hlater := ih hsame count' (record.update fun d => { d with requestBytes := count' })
        simp only [Outcome.mk.injEq] at hlater
        simp only [Except.bind, hlater]

/-- `FrameReader::new` on a body that arrives in these chunks. -/
def ofChunks (chunks : List Bytes) : Reader := ⟨[], chunks.map .bytes⟩

/-- `metadata` and then `upload`, whose terms the caller takes from the metadata. -/
def receive {Metadata : Type} (decode : Bytes → Option Metadata) (terms : Metadata → Terms)
    (r : Reader) (record : Record) : Outcome :=
  match r.metadata decode with
  | .error e => ⟨.error e, [], record⟩
  | .ok (metadata, r) => uploadOutcome (terms metadata) maxUploadFrames r 0 record

theorem ofChunks_rest (chunks : List Bytes) : (ofChunks chunks).rest = chunks.flatten := by
  have havailable : available (chunks.map Chunk.bytes) = chunks.flatten := by
    induction chunks with
    | nil => rfl
    | cons chunk chunks ih => simp [available, ih]
  simpa [Reader.rest, ofChunks] using havailable

theorem ofChunks_sound (chunks : List Bytes) : (ofChunks chunks).Sound := by
  simp [Reader.Sound, ofChunks]

theorem Same.receive {Metadata : Type} {decode : Bytes → Option Metadata}
    {terms : Metadata → Terms} {r s : Reader} (h : Same r s) (record : Record) :
    receive decode terms r record = receive decode terms s record := by
  have hmeta : Related Continue (r.metadata decode) (s.metadata decode) := h.metadata
  unfold UploadChunking.receive
  generalize r.metadata decode = x at hmeta
  generalize s.metadata decode = y at hmeta
  cases hmeta with
  | error e => rfl
  | @ok a b hstep =>
    obtain ⟨metadata, r'⟩ := a
    obtain ⟨_, s'⟩ := b
    obtain ⟨rfl, hsame⟩ := hstep
    exact hsame.uploadOutcome 0 record

/-- What an accepted metadata frame looks like on the wire. -/
theorem metadata_ok {Metadata : Type} {decode : Bytes → Option Metadata} {r r' : Reader}
    {metadata : Metadata} (h : r.metadata decode = .ok (metadata, r')) :
    ∃ json, r.rest = frame 1 json ++ r'.rest ∧ json ≠ [] ∧ json.length ≤ maxMetadataBytes ∧
      decode json = some metadata ∧ (r'.Sound ↔ r.Sound) := by
  obtain ⟨⟨⟨kind, length⟩, r₁⟩, hheader, hchecked⟩ := bind_ok.mp h
  obtain ⟨hrest, _, hsound⟩ := frameHeader_ok hheader
  obtain ⟨_, hreject, hread⟩ := bind_ok.mp hchecked
  obtain ⟨⟨json, r₂⟩, hexact, hdecoded⟩ := bind_ok.mp hread
  obtain ⟨rfl, hrest', hsound'⟩ := exact_ok hexact
  simp only [rejectIf_ok, Bool.or_eq_false_iff, decide_eq_false_iff_not, ne_eq, not_not,
    Nat.not_lt] at hreject
  obtain ⟨⟨rfl, hne⟩, hle⟩ := hreject
  dsimp only at hdecoded
  cases hd : decode json with
  | none =>
    rw [hd] at hdecoded
    cases hdecoded
  | some value =>
    rw [hd] at hdecoded
    cases hdecoded
    refine ⟨json, ?_, ?_, hle, hd, hsound'.trans hsound⟩
    · rw [hrest, hrest', frame]
      simp
    · rintro rfl
      exact hne rfl

/-- The outcome depends on the bytes alone. Behind the metadata frame the accepted bytes are
data frames and one end frame within the terms, and the payloads are forwarded in order. The
loops of `next_bytes` and `exact` end after as many iterations as the stream has chunks. -/
theorem receive_chunking {Metadata : Type} (decode : Bytes → Option Metadata)
    (terms : Metadata → Terms) (record : Record) (chunks : List Bytes) :
    receive decode terms (ofChunks chunks) record =
        receive decode terms (ofChunks [chunks.flatten]) record ∧
      (∀ metadata r, (ofChunks chunks).metadata decode = .ok (metadata, r) →
        (∃ json, chunks.flatten = frame 1 json ++ r.rest ∧ decode json = some metadata) ∧
        ((receive decode terms (ofChunks chunks) record).result = .ok () ↔
          ∃ payloads, r.rest = encode payloads ∧
            Acceptable (terms metadata) maxUploadFrames 0 payloads) ∧
        ∀ payloads, r.rest = encode payloads →
          Acceptable (terms metadata) maxUploadFrames 0 payloads →
          (receive decode terms (ofChunks chunks) record).forwarded =
            payloads.filter (!·.isEmpty)) ∧
      ∀ r : Reader, nextBytesWhile (r.stream.length + 1) r = some r.nextBytes ∧
        ∀ length bytes, exactWhile length (r.stream.length + 3) bytes r =
          some (gather length bytes r.pending r.stream) := by
  refine ⟨?_, ?_, ?_⟩
  · apply Same.receive
    refine ⟨ofChunks_sound _, ofChunks_sound _, ?_⟩
    simp [ofChunks_rest]
  · intro metadata r hmeta
    obtain ⟨json, hrest, _, _, hdecode, hsound⟩ := metadata_ok hmeta
    have hr : r.Sound := hsound.mpr (ofChunks_sound _)
    have hreceive : receive decode terms (ofChunks chunks) record =
        uploadOutcome (terms metadata) maxUploadFrames r 0 record := by
      simp only [receive, hmeta]
    rw [ofChunks_rest] at hrest
    refine ⟨⟨json, hrest, hdecode⟩, ?_, ?_⟩
    · rw [hreceive]
      apply (upload_ok_iff (terms metadata) r).trans
      exact ⟨fun h => h.2, fun h => ⟨hr, h⟩⟩
    · intro payloads hp hacc
      rw [hreceive]
      exact forwarded_eq_of_encode (by decide) hr hp hacc
  · intro r
    refine ⟨nextBytesWhile_eq (Nat.lt_succ_self _), ?_⟩
    intro length bytes
    exact exactWhile_eq (Nat.le_succ _) (.inr (Nat.le_refl _))

def cutEnvelope : List Bytes :=
  [[1], [0, 0, 0], [2], [], [123], [125, 2, 0, 0], [0, 3, 0, 255],
    [128, 2, 0, 0, 0, 0, 3, 0, 0, 0], [0]]

theorem receive_chunking_cut :
    (receive (fun json => if json = [123, 125] then some () else none) (fun _ => ⟨16, true, some 3⟩)
        (ofChunks cutEnvelope) ⟨0, 0, RequestRegistry.sampleDiagnostics "r", none, none⟩).result =
          .ok () ∧
      (receive (fun json => if json = [123, 125] then some () else none)
        (fun _ => ⟨16, true, some 3⟩)
        (ofChunks cutEnvelope)
        ⟨0, 0, RequestRegistry.sampleDiagnostics "r", none, none⟩).forwarded =
          [[0, 255, 128]] := by
  have hall := receive_chunking (fun json => if json = [123, 125] then some () else none)
    (fun _ => ⟨16, true, some 3⟩) ⟨0, 0, RequestRegistry.sampleDiagnostics "r", none, none⟩
    cutEnvelope
  have hbody := hall.2.1 () ⟨[2, 0, 0],
    [.bytes [0, 3, 0, 255], .bytes [128, 2, 0, 0, 0, 0, 3, 0, 0, 0], .bytes [0]]⟩ rfl
  have hacc : Acceptable ⟨16, true, some 3⟩ maxUploadFrames 0 [[0, 255, 128], []] :=
    ⟨by decide, by decide, by decide, by simp, by simp⟩
  exact ⟨hbody.2.1.mpr ⟨_, rfl, hacc⟩, hbody.2.2 _ rfl hacc⟩

end UploadChunking
