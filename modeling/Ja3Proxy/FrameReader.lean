import Ja3Proxy.ExceptRules
import Ja3Proxy.TransportErrors
import Ja3Proxy.WordArithmetic

/-! The bounded binary framing of request bodies (`src/protocol.rs`).
A reader holds the bytes it has not used and the rest of the chunk stream. The end of the
list is the end of the stream, and nothing is read after a failed chunk. -/
namespace FrameReader

open ExceptRules TransportErrors WordArithmetic

abbrev Bytes := List UInt8

inductive Chunk where
  | bytes (data : Bytes)
  | failure
  deriving DecidableEq, Repr

structure Reader where
  pending : Bytes
  stream : List Chunk
  deriving DecidableEq, Repr

def maxMetadataBytes : ℕ := 65536
def maxDataBytes : ℕ := 65536
def maxUploadFrames : ℕ := 65536

def protocolError : TransportError := .fromCode .protocolError

def pull : Bytes → List Chunk → Except TransportError (Bool × Reader)
  | b :: rest, stream => .ok (true, ⟨b :: rest, stream⟩)
  | [], [] => .ok (false, ⟨[], []⟩)
  | [], .failure :: _ => .error protocolError
  | [], .bytes data :: stream => pull data stream

def Reader.nextBytes (r : Reader) : Except TransportError (Bool × Reader) :=
  pull r.pending r.stream

/-- The loop of `exact`. An iteration that does not complete the buffer has used up
`pending`, so the next one starts from the following chunk. -/
def gather (length : ℕ) (bytes pending : Bytes) (stream : List Chunk) :
    Except TransportError (Bytes × Reader) :=
  let take := min (length - bytes.length) pending.length
  let bytes := bytes ++ pending.take take
  if length ≤ bytes.length then .ok (bytes, ⟨pending.drop take, stream⟩)
  else
    match stream with
    | [] => .error protocolError
    | .failure :: _ => .error protocolError
    | .bytes data :: stream => gather length bytes data stream

def Reader.exact (r : Reader) (length : ℕ) : Except TransportError (Bytes × Reader) :=
  if length ≤ r.pending.length then
    .ok (r.pending.take length, ⟨r.pending.drop length, r.stream⟩)
  else gather length [] r.pending r.stream

def fromBeBytes (bytes : Bytes) : ℕ := bytes.foldl (fun n b => n * 256 + b.toNat) 0

def toBeBytes (length : ℕ) : Bytes :=
  [UInt8.ofNat (length / 2 ^ 24), UInt8.ofNat (length / 2 ^ 16), UInt8.ofNat (length / 2 ^ 8),
    UInt8.ofNat length]

def Reader.frameHeader (r : Reader) : Except TransportError ((UInt8 × ℕ) × Reader) :=
  (r.exact 5).bind fun (header, r) =>
    .ok ((header.headD 0, fromBeBytes ((header.drop 1).take 4)), r)

/-- `FrameReader::metadata`, where `decode` is `serde_json::from_slice`. -/
def Reader.metadata {Metadata : Type} (decode : Bytes → Option Metadata) (r : Reader) :
    Except TransportError (Metadata × Reader) :=
  r.frameHeader.bind fun ((kind, length), r) =>
    (rejectIf (kind ≠ 1 || length = 0 || maxMetadataBytes < length) protocolError).bind fun _ =>
    (r.exact length).bind fun (json, r) =>
      match decode json with
      | some metadata => .ok (metadata, r)
      | none => .error (.fromCode .invalidRequest)

def frame (kind : UInt8) (payload : Bytes) : Bytes :=
  kind :: toBeBytes payload.length ++ payload

/-- What `upload` is told about the body it forwards. -/
structure Terms where
  limit : ℕ
  hasBody : Bool
  bodyLength : Option ℕ
  deriving DecidableEq, Repr

def Terms.advance (u : Terms) (count length : ℕ) : Except TransportError ℕ :=
  match (checkedAdd count length).filter (· ≤ u.limit) with
  | some count => .ok count
  | none => .error (.fromCode .bodyTooLarge)

/-- One iteration of `upload`: the payload of a data frame with the reader and the count
behind it, or `none` when the end frame and the end of the stream were accepted. -/
def Terms.uploadFrame (u : Terms) (r : Reader) (count : ℕ) :
    Except TransportError (Option (Bytes × Reader × ℕ)) :=
  r.frameHeader.bind fun ((kind, length), r) =>
    if kind = 2 then
      (rejectIf (!u.hasBody || maxDataBytes < length) protocolError).bind fun _ =>
      (u.advance count length).bind fun count =>
      (rejectIf (u.bodyLength.any (· < count)) protocolError).bind fun _ =>
      (r.exact length).bind fun (payload, r) =>
      .ok (some (payload, r, count))
    else if kind = 3 ∧ length = 0 then
      (rejectIf (u.bodyLength.any (count ≠ ·)) protocolError).bind fun _ =>
      r.nextBytes.bind fun (more, _) =>
      (rejectIf more protocolError).bind fun _ =>
      .ok none
    else .error protocolError

/-- The value `upload` returns when its future is not dropped. Payloads are handed to the
body channel on the way; a failed hand-over is ignored and does not change the value. -/
def Terms.upload (u : Terms) : ℕ → Reader → ℕ → Except TransportError Unit
  | 0, _, _ => .error protocolError
  | frames + 1, r, count =>
    (u.uploadFrame r count).bind fun
      | none => .ok ()
      | some (_, r, count) => u.upload frames r count

def Terms.forwarded (u : Terms) : ℕ → Reader → ℕ → List Bytes
  | 0, _, _ => []
  | frames + 1, r, count =>
    match u.uploadFrame r count with
    | .ok (some (payload, r, count)) =>
      if payload.isEmpty then u.forwarded frames r count
      else payload :: u.forwarded frames r count
    | _ => []

def available : List Chunk → Bytes
  | [] => []
  | .failure :: _ => []
  | .bytes data :: stream => data ++ available stream

def Reader.rest (r : Reader) : Bytes := r.pending ++ available r.stream

def Reader.Sound (r : Reader) : Prop := Chunk.failure ∉ r.stream

theorem pull_end {pending : Bytes} {stream : List Chunk} {r : Reader} :
    pull pending stream = .ok (false, r) →
      pending ++ available stream = [] ∧ Chunk.failure ∉ stream := by
  fun_induction pull pending stream with
  | case1 => simp
  | case2 => simp [available]
  | case3 => simp
  | case4 data stream ih =>
    intro h
    simpa [available] using ih h

theorem pull_of_end {pending : Bytes} {stream : List Chunk} (hs : Chunk.failure ∉ stream)
    (hr : pending ++ available stream = []) : pull pending stream = .ok (false, ⟨[], []⟩) := by
  fun_induction pull pending stream with
  | case1 => simp at hr
  | case2 => rfl
  | case3 => simp at hs
  | case4 data stream ih =>
    have hs' : Chunk.failure ∉ stream := by simpa using hs
    exact ih hs' (by simpa [available] using hr)

theorem gather_ok {length : ℕ} {bytes pending : Bytes} {stream : List Chunk} {b : Bytes}
    {r : Reader} (hle : bytes.length ≤ length)
    (h : gather length bytes pending stream = .ok (b, r)) :
    b.length = length ∧ bytes ++ (pending ++ available stream) = b ++ r.rest ∧
      (r.Sound ↔ Chunk.failure ∉ stream) := by
  fun_induction gather length bytes pending stream with
  | case1 stream bytes pending take bytes' hfull =>
    obtain ⟨rfl, rfl⟩ := Prod.mk.inj (Except.ok.inj h)
    refine ⟨?_, ?_, Iff.rfl⟩
    · have htake : take = min (length - bytes.length) pending.length := rfl
      simp only [bytes', List.length_append, List.length_take] at hfull ⊢
      omega
    · change bytes ++ (pending ++ available stream) =
        (bytes ++ pending.take take) ++ (pending.drop take ++ available stream)
      rw [List.append_assoc, ← List.append_assoc (pending.take take), List.take_append_drop]
  | case2 => cases h
  | case3 => cases h
  | case4 bytes pending take bytes' hfull data stream ih =>
    have htake : take = min (length - bytes.length) pending.length := rfl
    have hall : pending.take take = pending := by
      apply List.take_of_length_le
      simp only [bytes', List.length_append, List.length_take] at hfull
      omega
    obtain ⟨hlen, hcat, hsound⟩ := ih (by omega) h
    refine ⟨hlen, ?_, by simpa using hsound⟩
    rw [← hcat]
    simp [bytes', hall, available]

theorem gather_total {length : ℕ} {bytes pending : Bytes} {stream : List Chunk}
    (h : length ≤ bytes.length + (pending ++ available stream).length) :
    ∃ b r, gather length bytes pending stream = .ok (b, r) := by
  fun_induction gather length bytes pending stream with
  | case1 => exact ⟨_, _, rfl⟩
  | case2 bytes pending take bytes' hfull =>
    have htake : take = min (length - bytes.length) pending.length := rfl
    simp only [bytes', available, List.append_nil, List.length_append, List.length_take] at hfull h
    omega
  | case3 bytes pending take bytes' hfull =>
    have htake : take = min (length - bytes.length) pending.length := rfl
    simp only [bytes', available, List.append_nil, List.length_append, List.length_take] at hfull h
    omega
  | case4 bytes pending take bytes' hfull data stream ih =>
    have htake : take = min (length - bytes.length) pending.length := rfl
    apply ih
    simp only [bytes', available, List.length_append, List.length_take] at hfull h ⊢
    omega

/-- `exact` splits the remaining bytes and keeps the rest of the stream as it is. -/
theorem exact_ok {r r' : Reader} {length : ℕ} {b : Bytes} (h : r.exact length = .ok (b, r')) :
    b.length = length ∧ r.rest = b ++ r'.rest ∧ (r'.Sound ↔ r.Sound) := by
  unfold Reader.exact at h
  split at h
  · rename_i hle
    obtain ⟨rfl, rfl⟩ := Prod.mk.inj (Except.ok.inj h)
    exact ⟨by simp [hle], by simp [Reader.rest, ← List.append_assoc], Iff.rfl⟩
  · exact gather_ok (Nat.zero_le _) h

theorem exact_total {r : Reader} {length : ℕ} (h : length ≤ r.rest.length) :
    ∃ b r', r.exact length = .ok (b, r') := by
  unfold Reader.exact
  split
  · exact ⟨_, _, rfl⟩
  · exact gather_total (by simpa [Reader.rest] using h)

theorem single_bytes (bytes : Bytes) : (bytes.map fun b => [b]).flatten = bytes := by
  rw [← List.flatMap_def]
  exact List.flatMap_singleton' bytes

theorem fromBeBytes_toBeBytes {n : ℕ} (h : n < 2 ^ 32) : fromBeBytes (toBeBytes n) = n := by
  simp only [fromBeBytes, toBeBytes, List.foldl_cons, List.foldl_nil, UInt8.toNat_ofNat']
  omega

theorem toBeBytes_fromBeBytes {bytes : Bytes} (h : bytes.length = 4) :
    toBeBytes (fromBeBytes bytes) = bytes ∧ fromBeBytes bytes < 2 ^ 32 := by
  obtain ⟨a, b, c, d, rfl⟩ : ∃ a b c d, bytes = [a, b, c, d] := by
    match bytes, h with
    | [a, b, c, d], _ => exact ⟨a, b, c, d, rfl⟩
  have ha := a.toNat_lt
  have hb := b.toNat_lt
  have hc := c.toNat_lt
  have hd := d.toNat_lt
  simp only [fromBeBytes, toBeBytes, List.foldl_cons, List.foldl_nil, List.cons.injEq, and_true,
    ← UInt8.toNat_inj, UInt8.toNat_ofNat']
  omega

theorem frameHeader_ok {r r' : Reader} {kind : UInt8} {length : ℕ}
    (h : r.frameHeader = .ok ((kind, length), r')) :
    r.rest = kind :: toBeBytes length ++ r'.rest ∧ length < 2 ^ 32 ∧ (r'.Sound ↔ r.Sound) := by
  obtain ⟨⟨header, r''⟩, hexact, hok⟩ := bind_ok.mp h
  obtain ⟨hlen, hrest, hsound⟩ := exact_ok hexact
  simp only [Except.ok.injEq, Prod.mk.injEq] at hok
  obtain ⟨⟨rfl, rfl⟩, rfl⟩ := hok
  cases header with
  | nil => cases hlen
  | cons kind tail =>
    have htail : tail.length = 4 := by simpa using hlen
    have hsplit : (List.drop 1 (kind :: tail)).take 4 = tail := by
      simp [List.take_of_length_le (Nat.le_of_eq htail)]
    obtain ⟨hbytes, hlt⟩ := toBeBytes_fromBeBytes htail
    rw [hsplit, hbytes]
    exact ⟨by simpa using hrest, hlt, hsound⟩

theorem frameHeader_of_rest {r : Reader} {kind : UInt8} {length : ℕ} {tail : Bytes}
    (hr : r.rest = kind :: toBeBytes length ++ tail) (hlen : length < 2 ^ 32) :
    ∃ r', r.frameHeader = .ok ((kind, length), r') ∧ r'.rest = tail ∧ (r'.Sound ↔ r.Sound) := by
  have hfive : 5 ≤ r.rest.length := by
    rw [hr]
    simp [toBeBytes]
  obtain ⟨header, r', hexact⟩ := exact_total hfive
  obtain ⟨hl, hrest, hsound⟩ := exact_ok hexact
  have hheader : header = kind :: toBeBytes length ∧ r'.rest = tail := by
    apply List.append_inj (hrest.symm.trans hr)
    simp [hl, toBeBytes]
  refine ⟨r', ?_, hheader.2, hsound⟩
  have hsplit : (List.drop 1 (kind :: toBeBytes length)).take 4 = toBeBytes length := rfl
  simp only [Reader.frameHeader, hexact, Except.bind, hheader.1, hsplit,
    fromBeBytes_toBeBytes hlen, List.headD_cons]

theorem advance_ok {u : Terms} {count length c : ℕ} :
    u.advance count length = .ok c ↔
      c = count + length ∧ count + length < 2 ^ 64 ∧ count + length ≤ u.limit := by
  unfold Terms.advance
  cases hsum : checkedAdd count length with
  | none =>
    have hover := checkedAdd_eq_none.mp hsum
    constructor
    · intro h
      cases h
    · rintro ⟨_, hlt, _⟩
      exact absurd hlt hover
  | some sum =>
    obtain ⟨hlt, rfl⟩ := checkedAdd_eq_some.mp hsum
    by_cases hle : count + length ≤ u.limit
    · simp only [Option.filter, hle, decide_true, if_true, Except.ok.injEq]
      exact ⟨fun h => ⟨h.symm, hlt, trivial⟩, fun h => h.1.symm⟩
    · simp [Option.filter, hle]

/-- What an accepted data frame looks like on the wire. -/
theorem uploadFrame_data {u : Terms} {r r' : Reader} {count count' : ℕ} {payload : Bytes}
    (h : u.uploadFrame r count = .ok (some (payload, r', count'))) :
    r.rest = frame 2 payload ++ r'.rest ∧ u.hasBody = true ∧ payload.length ≤ maxDataBytes ∧
      count' = count + payload.length ∧ count' ≤ u.limit ∧
      (∀ n ∈ u.bodyLength, count' ≤ n) ∧ (r'.Sound ↔ r.Sound) := by
  obtain ⟨⟨⟨kind, length⟩, r₁⟩, hheader, h⟩ := bind_ok.mp h
  obtain ⟨hrest, _, hsound⟩ := frameHeader_ok hheader
  simp only at h
  split at h
  · rename_i hkind
    obtain ⟨_, hsmall, h⟩ := bind_ok.mp h
    obtain ⟨c, hc, h⟩ := bind_ok.mp h
    obtain ⟨_, hbody, h⟩ := bind_ok.mp h
    obtain ⟨⟨b, r₂⟩, hexact, h⟩ := bind_ok.mp h
    obtain ⟨hlen, hrest', hsound'⟩ := exact_ok hexact
    simp only [Except.ok.injEq, Option.some.injEq, Prod.mk.injEq] at h
    obtain ⟨rfl, rfl, rfl⟩ := h
    obtain ⟨rfl, _, hlimit⟩ := advance_ok.mp hc
    simp only [rejectIf_ok, Bool.or_eq_false_iff, Bool.not_eq_false', decide_eq_false_iff_not,
      Nat.not_lt] at hsmall
    subst hlen
    refine ⟨?_, hsmall.1, hsmall.2, rfl, hlimit, ?_, hsound'.trans hsound⟩
    · rw [hrest, hrest', hkind, frame]
      simp
    · intro n hn
      rw [rejectIf_ok, hn] at hbody
      simpa using hbody
  · split at h
    · simp at h
    · cases h

theorem uploadFrame_end {u : Terms} {r : Reader} {count : ℕ}
    (h : u.uploadFrame r count = .ok none) :
    r.rest = frame 3 [] ∧ (∀ n ∈ u.bodyLength, count = n) ∧ r.Sound := by
  obtain ⟨⟨⟨kind, length⟩, r₁⟩, hheader, h⟩ := bind_ok.mp h
  obtain ⟨hrest, _, hsound⟩ := frameHeader_ok hheader
  simp only at h
  split at h
  · simp at h
  · split at h
    · rename_i hkind
      obtain ⟨_, hbody, h⟩ := bind_ok.mp h
      obtain ⟨⟨more, r₂⟩, hnext, h⟩ := bind_ok.mp h
      obtain ⟨_, hmore, _⟩ := bind_ok.mp h
      have hlast : more = false := rejectIf_ok.mp hmore
      subst hlast
      obtain ⟨hempty, hclean⟩ := pull_end hnext
      refine ⟨?_, ?_, hsound.mp hclean⟩
      · rw [hrest, hkind.1, hkind.2, Reader.rest, hempty]
        rfl
      · intro n hn
        rw [rejectIf_ok, hn] at hbody
        simpa using hbody
    · cases h

theorem uploadFrame_of_data {u : Terms} {r : Reader} {count : ℕ} {payload tail : Bytes}
    (hr : r.rest = frame 2 payload ++ tail) (hbody : u.hasBody = true)
    (hsmall : payload.length ≤ maxDataBytes) (hword : count + payload.length < 2 ^ 64)
    (hlimit : count + payload.length ≤ u.limit)
    (hlength : ∀ n ∈ u.bodyLength, count + payload.length ≤ n) :
    ∃ r', u.uploadFrame r count = .ok (some (payload, r', count + payload.length)) ∧
      r'.rest = tail ∧ (r'.Sound ↔ r.Sound) := by
  have hlt : payload.length < 2 ^ 32 := Nat.lt_of_le_of_lt hsmall (by decide)
  have hr' : r.rest = 2 :: toBeBytes payload.length ++ (payload ++ tail) := by
    rw [hr, frame]
    simp
  obtain ⟨r₁, hheader, hrest, hsound⟩ := frameHeader_of_rest hr' hlt
  obtain ⟨b, r₂, hexact⟩ := exact_total (show payload.length ≤ r₁.rest.length by simp [hrest])
  obtain ⟨hlen, hsplit, hsound'⟩ := exact_ok hexact
  obtain ⟨rfl, htail⟩ := List.append_inj (hsplit.symm.trans hrest) hlen
  refine ⟨r₂, ?_, htail, hsound'.trans hsound⟩
  have hfits : u.bodyLength.any (· < count + b.length) = false := by
    cases hb : u.bodyLength with
    | none => rfl
    | some n => simpa using hlength n hb
  have hadv : u.advance count b.length = .ok (count + b.length) :=
    advance_ok.mpr ⟨rfl, hword, hlimit⟩
  have hreject : (!u.hasBody || decide (maxDataBytes < b.length)) = false := by
    simp [hbody, hsmall]
  refine bind_ok.mpr ⟨_, hheader, ?_⟩
  refine bind_ok.mpr ⟨(), rejectIf_ok.mpr hreject, ?_⟩
  refine bind_ok.mpr ⟨_, hadv, ?_⟩
  refine bind_ok.mpr ⟨(), rejectIf_ok.mpr hfits, ?_⟩
  exact bind_ok.mpr ⟨_, hexact, rfl⟩

theorem uploadFrame_of_end {u : Terms} {r : Reader} {count : ℕ} (hr : r.rest = frame 3 [])
    (hlength : ∀ n ∈ u.bodyLength, count = n) (hsound : r.Sound) :
    u.uploadFrame r count = .ok none := by
  have hr' : r.rest = 3 :: toBeBytes 0 ++ [] := hr
  obtain ⟨r₁, hheader, hrest, hs⟩ := frameHeader_of_rest hr' (by decide)
  have hnext : r₁.nextBytes = .ok (false, ⟨[], []⟩) := pull_of_end (hs.mpr hsound) hrest
  have hfits : u.bodyLength.any (count ≠ ·) = false := by
    cases hb : u.bodyLength with
    | none => rfl
    | some n => simpa using hlength n hb
  refine bind_ok.mpr ⟨_, hheader, ?_⟩
  refine bind_ok.mpr ⟨(), rejectIf_ok.mpr hfits, ?_⟩
  refine bind_ok.mpr ⟨_, hnext, ?_⟩
  exact bind_ok.mpr ⟨(), rejectIf_ok.mpr rfl, rfl⟩

def encode (payloads : List Bytes) : Bytes := payloads.flatMap (frame 2) ++ frame 3 []

@[simp] theorem encode_cons (p : Bytes) (ps : List Bytes) :
    encode (p :: ps) = frame 2 p ++ encode ps := by
  simp [encode]

/-- The rest of an upload that `upload` accepts with `frames` iterations left and `count`
bytes already forwarded. -/
structure Acceptable (u : Terms) (frames count : ℕ) (payloads : List Bytes) : Prop where
  few : payloads.length < frames
  small : ∀ p ∈ payloads, p.length ≤ maxDataBytes
  within : count + payloads.flatten.length ≤ u.limit
  declared : ∀ n ∈ u.bodyLength, count + payloads.flatten.length = n
  body : u.hasBody = false → payloads = []

theorem acceptable_cons {u : Terms} {frames count : ℕ} {p : Bytes} {ps : List Bytes} :
    Acceptable u (frames + 1) count (p :: ps) ↔
      u.hasBody = true ∧ p.length ≤ maxDataBytes ∧ Acceptable u frames (count + p.length) ps := by
  constructor
  · rintro ⟨hfew, hsmall, hwithin, hdecl, hbody⟩
    have hhas : u.hasBody = true := by
      by_contra hno
      cases hbody (by simpa using hno)
    simp only [List.flatten_cons, List.length_append, ← Nat.add_assoc] at hwithin hdecl
    exact ⟨hhas, hsmall p List.mem_cons_self, by simpa using hfew,
      fun q hq => hsmall q (List.mem_cons_of_mem _ hq), hwithin, hdecl, by simp [hhas]⟩
  · rintro ⟨hhas, hp, hfew, hsmall, hwithin, hdecl, _⟩
    refine ⟨by simpa using hfew, ?_, ?_, ?_, by simp [hhas]⟩
    · intro q hq
      rcases List.mem_cons.mp hq with rfl | hq
      · exact hp
      · exact hsmall q hq
    · simpa [Nat.add_assoc] using hwithin
    · simpa [Nat.add_assoc] using hdecl

theorem upload_ok {u : Terms} {frames count : ℕ} {r : Reader} (hcount : count ≤ u.limit)
    (h : u.upload frames r count = .ok ()) :
    r.Sound ∧ ∃ payloads, r.rest = encode payloads ∧ Acceptable u frames count payloads := by
  induction frames generalizing r count with
  | zero => cases h
  | succ frames ih =>
    obtain ⟨step, hstep, h⟩ := bind_ok.mp h
    cases step with
    | none =>
      obtain ⟨hrest, hdecl, hsound⟩ := uploadFrame_end hstep
      exact ⟨hsound, [], hrest, by simp, by simp, by simpa using hcount, by simpa using hdecl,
        fun _ => rfl⟩
    | some step =>
      obtain ⟨payload, r', count'⟩ := step
      obtain ⟨hrest, hhas, hsmall, rfl, hlimit, _, hsound⟩ := uploadFrame_data hstep
      obtain ⟨hs, ps, hps, hacc⟩ := ih hlimit h
      refine ⟨hsound.mp hs, payload :: ps, ?_, acceptable_cons.mpr ⟨hhas, hsmall, hacc⟩⟩
      rw [hrest, hps, encode_cons]

/-- One iteration on an acceptable encoding that starts with a data frame. -/
theorem uploadFrame_of_encode {u : Terms} {frames count : ℕ} {r : Reader} {p : Bytes}
    {ps : List Bytes} (hword : count + (frames + 1) * maxDataBytes < 2 ^ 64) (hsound : r.Sound)
    (hr : r.rest = encode (p :: ps)) (hacc : Acceptable u (frames + 1) count (p :: ps)) :
    ∃ r', u.uploadFrame r count = .ok (some (p, r', count + p.length)) ∧ r'.rest = encode ps ∧
      r'.Sound ∧ count + p.length + frames * maxDataBytes < 2 ^ 64 ∧
      Acceptable u frames (count + p.length) ps := by
  obtain ⟨hhas, hp, htail⟩ := acceptable_cons.mp hacc
  have hlimit := htail.within
  rw [Nat.add_mul, Nat.one_mul] at hword
  have hlength : ∀ n ∈ u.bodyLength, count + p.length ≤ n := by
    intro n hn
    have := htail.declared n hn
    omega
  obtain ⟨r', hstep, hrest, hs⟩ := uploadFrame_of_data (hr.trans (encode_cons p ps)) hhas hp
    (by omega) (by omega) hlength
  exact ⟨r', hstep, hrest, hs.mpr hsound, by omega, htail⟩

theorem upload_of_encode {u : Terms} {frames count : ℕ} {r : Reader} {payloads : List Bytes}
    (hword : count + frames * maxDataBytes < 2 ^ 64) (hsound : r.Sound)
    (hr : r.rest = encode payloads) (hacc : Acceptable u frames count payloads) :
    u.upload frames r count = .ok () := by
  induction frames generalizing r count payloads with
  | zero => exact absurd hacc.few (Nat.not_lt_zero _)
  | succ frames ih =>
    cases payloads with
    | nil =>
      have hend := uploadFrame_of_end (u := u) hr (by simpa using hacc.declared) hsound
      exact bind_ok.mpr ⟨_, hend, rfl⟩
    | cons p ps =>
      obtain ⟨r', hstep, hrest, hs, hword', htail⟩ := uploadFrame_of_encode hword hsound hr hacc
      exact bind_ok.mpr ⟨_, hstep, ih hword' hs hrest htail⟩

/-- The reader holds the encoding of a body within the terms: no failed chunk, data frames,
one end frame and nothing behind it. -/
def Accepted (u : Terms) (r : Reader) : Prop :=
  r.Sound ∧ ∃ payloads, r.rest = encode payloads ∧ Acceptable u maxUploadFrames 0 payloads

theorem upload_ok_iff (u : Terms) (r : Reader) :
    u.upload maxUploadFrames r 0 = .ok () ↔ Accepted u r := by
  constructor
  · exact upload_ok (Nat.zero_le _)
  · rintro ⟨hsound, payloads, hr, hacc⟩
    exact upload_of_encode (by decide) hsound hr hacc

/-- The payloads of an accepted upload are forwarded as they came, less the empty ones. -/
theorem forwarded_eq_of_encode {u : Terms} {frames count : ℕ} {r : Reader}
    {payloads : List Bytes} (hword : count + frames * maxDataBytes < 2 ^ 64) (hsound : r.Sound)
    (hr : r.rest = encode payloads) (hacc : Acceptable u frames count payloads) :
    u.forwarded frames r count = payloads.filter (!·.isEmpty) := by
  induction frames generalizing r count payloads with
  | zero => exact absurd hacc.few (Nat.not_lt_zero _)
  | succ frames ih =>
    cases payloads with
    | nil =>
      have hend := uploadFrame_of_end (u := u) hr (by simpa using hacc.declared) hsound
      simp [Terms.forwarded, hend]
    | cons p ps =>
      obtain ⟨r', hstep, hrest, hs, hword', htail⟩ := uploadFrame_of_encode hword hsound hr hacc
      simp only [Terms.forwarded, hstep, ih hword' hs hrest htail]
      cases hp : p.isEmpty <;> simp [hp]

theorem forwarded_of_encode {u : Terms} {frames count : ℕ} {r : Reader} {payloads : List Bytes}
    (hword : count + frames * maxDataBytes < 2 ^ 64) (hsound : r.Sound)
    (hr : r.rest = encode payloads) (hacc : Acceptable u frames count payloads) :
    (u.forwarded frames r count).flatten = payloads.flatten := by
  rw [forwarded_eq_of_encode hword hsound hr hacc]
  exact List.flatten_filter_not_isEmpty

theorem metadata_of_rest {Metadata : Type} {decode : Bytes → Option Metadata} {r : Reader}
    {json tail : Bytes} {metadata : Metadata} (hr : r.rest = frame 1 json ++ tail)
    (hne : json ≠ []) (hle : json.length ≤ maxMetadataBytes) (hd : decode json = some metadata) :
    ∃ r', r.metadata decode = .ok (metadata, r') ∧ r'.rest = tail ∧ (r'.Sound ↔ r.Sound) := by
  have hlt : json.length < 2 ^ 32 := Nat.lt_of_le_of_lt hle (by decide)
  have hr' : r.rest = 1 :: toBeBytes json.length ++ (json ++ tail) := by
    rw [hr, frame]
    simp
  obtain ⟨r₁, hheader, hrest, hsound⟩ := frameHeader_of_rest hr' hlt
  obtain ⟨b, r₂, hexact⟩ := exact_total (show json.length ≤ r₁.rest.length by simp [hrest])
  obtain ⟨hlen, hsplit, hsound'⟩ := exact_ok hexact
  obtain ⟨rfl, htail⟩ := List.append_inj (hsplit.symm.trans hrest) hlen
  have hreject : ((1 : UInt8) ≠ 1 || b.length = 0 || maxMetadataBytes < b.length) = false := by
    simp [hne, hle]
  refine ⟨r₂, ?_, htail, hsound'.trans hsound⟩
  refine bind_ok.mpr ⟨_, hheader, ?_⟩
  refine bind_ok.mpr ⟨(), rejectIf_ok.mpr hreject, ?_⟩
  refine bind_ok.mpr ⟨_, hexact, ?_⟩
  simp [hd]

end FrameReader
