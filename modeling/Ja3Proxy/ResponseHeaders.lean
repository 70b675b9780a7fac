import Ja3Proxy.AsciiText
import Ja3Proxy.FrameReader
import Ja3Proxy.TransportErrors

/-! `response_headers` of `src/handlers.rs`: which header fields of the upstream response are
reported, and as which text. A header map yields valid names in lower case and field values
without control characters, as the HTTP library guarantees. -/
namespace ResponseHeaders

open AsciiText (latin1 tokenChar trim visible)
open FrameReader TransportErrors

def nameChar (c : Char) : Bool :=
  tokenChar c && !c.isUpper

def valueByte (b : UInt8) : Bool := (32 ≤ b && b != 127) || b == 9

structure HeaderField where
  name : String
  value : Bytes
  name_ne : name.toList ≠ []
  name_ok : name.toList.all nameChar = true
  value_ok : value.all valueByte = true

/-- The names that the `connection` fields list, as `split(',')`, `trim` and lower case. -/
def connectionNames (headers : List HeaderField) : List (List Char) :=
  (headers.filter fun field => field.name == "connection" && visible field.value).flatMap
    fun field => ((latin1 field.value).toList.splitOn ',').map
      fun name => (trim name).map Char.toLower

def hopByHop : List String :=
  ["transfer-encoding", "connection", "keep-alive", "proxy-authenticate", "proxy-authorization",
    "te", "trailer", "upgrade"]

def skipped (names : List (List Char)) (field : HeaderField) : Bool :=
  hopByHop.contains field.name || names.contains field.name.toList

def identityCoding (value : Bytes) : Bool :=
  (latin1 value).toList.map Char.toLower == "identity".toList

/-- The loop of `response_headers` with the size and the fields collected so far. -/
def collect (names : List (List Char)) (bodyless : Bool) :
    ℕ → List (String × String) → List HeaderField → Except TransportError (List (String × String))
  | _, result, [] => .ok result
  | size, result, field :: fields =>
    if skipped names field then collect names bodyless size result fields
    else if field.name == "content-encoding" && !bodyless then
      if identityCoding field.value then collect names bodyless size result fields
      else .error (.fromCode .unsupportedCapability)
    else if 32768 < size + field.name.utf8ByteSize + field.value.length ∨ 256 ≤ result.length then
      .error protocolError
    else
      collect names bodyless (size + field.name.utf8ByteSize + field.value.length)
        (result ++ [(field.name, latin1 field.value)]) fields

def responseHeaders (headers : List HeaderField) (bodyless : Bool) :
    Except TransportError (List (String × String)) :=
  collect (connectionNames headers) bodyless 0 [] headers

/-- Everything reported is the text of a field of the response. -/
theorem collect_mem {names : List (List Char)} {bodyless : Bool} {size : ℕ}
    {result out : List (String × String)} {fields : List HeaderField}
    (h : collect names bodyless size result fields = .ok out) :
    ∀ pair ∈ out, pair ∈ result ∨ ∃ field ∈ fields, pair = (field.name, latin1 field.value) := by
  induction fields generalizing size result with
  | nil =>
    cases h
    exact fun pair hp => .inl hp
  | cons field fields ih =>
    have later : ∀ {size result}, collect names bodyless size result fields = .ok out →
        ∀ pair ∈ out, pair ∈ result ∨
          ∃ other ∈ field :: fields, pair = (other.name, latin1 other.value) := by
      intro size result hc pair hp
      rcases ih hc pair hp with hold | ⟨other, ho, hpair⟩
      · exact .inl hold
      · exact .inr ⟨other, List.mem_cons_of_mem _ ho, hpair⟩
    simp only [collect] at h
    split at h
    · exact later h
    · split at h
      · split at h
        · exact later h
        · cases h
      · split at h
        · cases h
        · intro pair hp
          rcases later h pair hp with hold | hnew
          · rcases List.mem_append.mp hold with hold | hlast
            · exact .inl hold
            · exact .inr ⟨field, List.mem_cons_self, List.mem_singleton.mp hlast⟩
          · exact .inr hnew

theorem responseHeaders_mem {headers : List HeaderField} {bodyless : Bool}
    {out : List (String × String)} (h : responseHeaders headers bodyless = .ok out) :
    ∀ pair ∈ out, ∃ field ∈ headers, pair = (field.name, latin1 field.value) := by
  intro pair hp
  rcases collect_mem h pair hp with hnil | hfield
  · cases hnil
  · exact hfield

def coding (bodyless : Bool) (field : HeaderField) : Bool :=
  field.name == "content-encoding" && !bodyless

def kept (names : List (List Char)) (bodyless : Bool) (fields : List HeaderField) :
    List HeaderField :=
  fields.filter fun field => !skipped names field && !coding bodyless field

def totalBytes : List HeaderField → ℕ
  | [] => 0
  | field :: fields => field.name.utf8ByteSize + field.value.length + totalBytes fields

/-- A field that the loop rejects: a coding that is not skipped and not `identity`. -/
def Refused (names : List (List Char)) (bodyless : Bool) (field : HeaderField) : Prop :=
  skipped names field = false ∧ coding bodyless field = true ∧ identityCoding field.value = false

theorem collect_ok_iff {names : List (List Char)} {bodyless : Bool} {size : ℕ}
    {result out : List (String × String)} {fields : List HeaderField} (hsize : size ≤ 32768)
    (hcount : result.length ≤ 256) :
    collect names bodyless size result fields = .ok out ↔
      (∀ field ∈ fields, ¬Refused names bodyless field) ∧
        size + totalBytes (kept names bodyless fields) ≤ 32768 ∧
        result.length + (kept names bodyless fields).length ≤ 256 ∧
        out = result ++ (kept names bodyless fields).map fun f => (f.name, latin1 f.value) := by
  induction fields generalizing size result with
  | nil => simp [collect, kept, totalBytes, hsize, hcount, eq_comm]
  | cons field fields ih =>
    have hall : (∀ f ∈ field :: fields, ¬Refused names bodyless f) ↔
        ¬Refused names bodyless field ∧ ∀ f ∈ fields, ¬Refused names bodyless f :=
      List.forall_mem_cons
    rw [hall]
    simp only [collect]
    by_cases hskip : skipped names field = true
    · have hkept : kept names bodyless (field :: fields) = kept names bodyless fields := by
        simp [kept, hskip]
      have hfine : ¬Refused names bodyless field := by simp [Refused, hskip]
      rw [if_pos hskip, hkept, ih hsize hcount]
      simp [hfine]
    · rw [if_neg hskip]
      by_cases hcoding : coding bodyless field = true
      · have hkept : kept names bodyless (field :: fields) = kept names bodyless fields := by
          simp [kept, hcoding]
        rw [if_pos (show (field.name == "content-encoding" && !bodyless) = true from hcoding),
          hkept]
        by_cases hid : identityCoding field.value = true
        · have hfine : ¬Refused names bodyless field := by simp [Refused, hid]
          rw [if_pos hid, ih hsize hcount]
          simp [hfine]
        · have hbad : Refused names bodyless field := by simp [Refused, hskip, hcoding, hid]
          simp [hid, hbad]
      · have hkept : kept names bodyless (field :: fields) =
            field :: kept names bodyless fields := by simp [kept, hskip, hcoding]
        have hfine : ¬Refused names bodyless field := by simp [Refused, hcoding]
        rw [if_neg (show ¬(field.name == "content-encoding" && !bodyless) = true from hcoding),
          hkept]
        simp only [totalBytes, List.length_cons, List.map_cons, hfine, not_false_iff, true_and]
        by_cases hfits : 32768 < size + field.name.utf8ByteSize + field.value.length ∨
            256 ≤ result.length
        · rw [if_pos hfits]
          constructor
          · intro h
            cases h
          · rintro ⟨_, hbytes, hfew, _⟩
            omega
        · rw [if_neg hfits, ih (by omega) (by simp; omega)]
          simp [Nat.add_assoc, Nat.add_comm, Nat.add_left_comm]

def Fits (fields : List HeaderField) : Prop := totalBytes fields ≤ 32768 ∧ fields.length ≤ 256

theorem responseHeaders_ok_iff {headers : List HeaderField} {bodyless : Bool}
    {out : List (String × String)} :
    responseHeaders headers bodyless = .ok out ↔
      (∀ field ∈ headers, ¬Refused (connectionNames headers) bodyless field) ∧
        Fits (kept (connectionNames headers) bodyless headers) ∧
        out = (kept (connectionNames headers) bodyless headers).map
          fun f => (f.name, latin1 f.value) := by
  unfold responseHeaders
  rw [collect_ok_iff (Nat.zero_le _) (Nat.zero_le _)]
  simp [Fits, and_assoc]

/-- What should be reported: the fields in order, less the hop-by-hop ones, the ones that a
`connection` field nominates and, in front of a body, the `identity` coding. -/
def reported (headers : List HeaderField) (bodyless : Bool) : List HeaderField :=
  headers.filter fun field =>
    !hopByHop.contains field.name && !(connectionNames headers).contains field.name.toList &&
      !(coding bodyless field && identityCoding field.value)

structure Filtered (headers : List HeaderField) (bodyless : Bool) : Prop where
  reports : ∀ out, responseHeaders headers bodyless = .ok out →
    out = (reported headers bodyless).map (fun f => (f.name, latin1 f.value)) ∧
      Fits (reported headers bodyless)
  /-- Bytes that are still encoded are not passed on as decoded. -/
  decoded : bodyless = false → ∀ field ∈ headers, field.name = "content-encoding" →
    identityCoding field.value = false → ∀ out, responseHeaders headers bodyless ≠ .ok out

theorem kept_eq_reported {headers : List HeaderField} {bodyless : Bool}
    (h : ∀ field ∈ headers, ¬Refused (connectionNames headers) bodyless field) :
    kept (connectionNames headers) bodyless headers = reported headers bodyless := by
  apply List.filter_congr
  intro field hf
  have hfine := h field hf
  simp only [Refused, not_and, Bool.not_eq_false] at hfine
  simp only [skipped, Bool.not_or]
  cases hskip : skipped (connectionNames headers) field with
  | true =>
    simp only [skipped, Bool.or_eq_true] at hskip
    rcases hskip with hhop | hname
    · simp only [hhop, Bool.not_true, Bool.false_and]
    · simp only [hname, Bool.not_true, Bool.and_false, Bool.false_and]
  | false =>
    cases hcoding : coding bodyless field with
    | true => rw [hfine hskip hcoding, Bool.and_true]
    | false => rw [Bool.false_and]

/-- A nominated coding is skipped before it is looked at. -/
theorem not_refused_of_nominated {names : List (List Char)} {bodyless : Bool}
    (h : "content-encoding".toList ∈ names) (field : HeaderField) :
    ¬Refused names bodyless field := by
  rintro ⟨hskip, hcoding, _⟩
  simp only [coding, Bool.and_eq_true, beq_iff_eq] at hcoding
  simp only [skipped, hcoding.1, Bool.or_eq_false_iff] at hskip
  have hin : names.contains "content-encoding".toList = true := List.contains_iff_mem.mpr h
  exact Bool.false_ne_true (hskip.2.symm.trans hin)

/-- A coding in front of a body passes only where it is nominated. -/
theorem nominated_of_not_refused {names : List (List Char)} {field : HeaderField}
    (h : ¬Refused names false field) (hname : field.name = "content-encoding")
    (hid : identityCoding field.value = false) : "content-encoding".toList ∈ names := by
  by_contra hnot
  apply h
  refine ⟨?_, by simp [coding, hname], hid⟩
  have hhop : hopByHop.contains "content-encoding" = false := by decide
  have hout : names.contains "content-encoding".toList = false := by
    simpa using hnot
  simp only [skipped, hname, hhop, hout, Bool.or_false]

/-- The filter does what it should unless the upstream both sends a coding and nominates it. -/
theorem responseHeaders_filtered (headers : List HeaderField) (bodyless : Bool) :
    Filtered headers bodyless ↔
      bodyless = true ∨
        (∀ field ∈ headers, field.name = "content-encoding" →
          identityCoding field.value = true) ∨
        "content-encoding".toList ∉ connectionNames headers ∨
        ¬Fits (reported headers bodyless) := by
  constructor
  · intro h
    by_contra hcond
    push Not at hcond
    obtain ⟨hbody, ⟨field, hf, hname, hid⟩, hnominated, hfits⟩ := hcond
    have hfine : ∀ f ∈ headers, ¬Refused (connectionNames headers) bodyless f :=
      fun f _ => not_refused_of_nominated hnominated f
    rw [← kept_eq_reported hfine] at hfits
    refine h.decoded ?_ field hf hname ?_ _ (responseHeaders_ok_iff.mpr ⟨hfine, hfits, rfl⟩)
    · simpa using hbody
    · simpa using hid
  · intro hcond
    constructor
    · intro out hok
      obtain ⟨hfine, hfits, hout⟩ := responseHeaders_ok_iff.mp hok
      rw [kept_eq_reported hfine] at hfits hout
      exact ⟨hout, hfits⟩
    · rintro rfl field hf hname hid out hok
      obtain ⟨hfine, hfits, _⟩ := responseHeaders_ok_iff.mp hok
      have hnominated := nominated_of_not_refused (hfine field hf) hname hid
      rw [kept_eq_reported hfine] at hfits
      rcases hcond with hbody | hall | hnot | hbig
      · cases hbody
      · exact Bool.false_ne_true (hid.symm.trans (hall field hf hname))
      · exact hnot hnominated
      · exact hbig hfits

def nominatedCoding : List HeaderField :=
  [⟨"connection", AsciiText.bytes "content-encoding", by decide, by decide, by decide⟩,
    ⟨"content-encoding", AsciiText.bytes "compress", by decide, by decide, by decide⟩]

theorem nominated_coding_passed :
    responseHeaders nominatedCoding false = .ok [] ∧ ¬Filtered nominatedCoding false := by
  have hok : responseHeaders nominatedCoding false = .ok [] := by
    rfl
  refine ⟨hok, ?_⟩
  intro h
  exact h.decoded rfl _ (List.mem_cons_of_mem _ List.mem_cons_self) rfl (by decide) _ hok

end ResponseHeaders
