import Ja3Proxy.BatchLanes

/-! The invariant of a batch under every interleaving of its lanes. -/
namespace BatchLanes

open TransitionRuns TypedArrays ListTotals

variable {ρ ε : Type*}

def okBytes : Option (BatchResult ε) → ℕ
  | some (.ok body) => body.length
  | _ => 0

/-- The bytes that count for a lane: those it has buffered, or those of its result. -/
def laneBytes : Option (Execution ρ ε) → ℕ
  | none => 0
  | some e =>
    match e.stage with
    | .settling result => okBytes (some result)
    | _ => e.bytes

def content (chunks : List Chunk) : List UInt8 := (chunks.map Chunk.bytes).flatten

def Execution.Live (e : Execution ρ ε) : Prop := ∀ result, e.stage ≠ .settling result

def Failure.Lawful (cfg : Config ρ) : Failure ε → Prop
  | .bufferLimit payload chunk => payload + chunk > (cfg.maxTotalBytes : ℤ)
  | .stream _ => True
  | _ => False

def BatchResult.Lawful (cfg : Config ρ) (chunks : List Chunk) : BatchResult ε → Prop
  | .ok body => body = content chunks
  | .error failure => failure.Lawful cfg

structure Accounts (cfg : Config ρ) (b : Batch ρ ε) : Prop where
  payload : b.payloadBytes = (total okBytes b.output + total laneBytes b.lanes : ℕ)
  working : b.workingBytes = b.payloadBytes
  bounded : b.payloadBytes ≤ cfg.maxTotalBytes

structure Indexed (cfg : Config ρ) (b : Batch ρ ε) : Prop where
  length : b.output.length = cfg.requests.length
  executed : ∀ p ∈ b.executed, p.1 < b.next ∧ cfg.requests[p.1]? = some p.2
  nodup : (b.executed.map Prod.fst).Nodup
  running : ∀ (l : ℕ) (e : Execution ρ ε), b.lanes[l]? = some (some e) →
    (e.index, e.options) ∈ b.executed ∧ b.output[e.index]? = some none
  apart : ∀ (l k : ℕ) (e f : Execution ρ ε), l ≠ k → b.lanes[l]? = some (some e) →
    b.lanes[k]? = some (some f) → e.index ≠ f.index
  untaken : ∀ i : ℕ, b.next ≤ i → i < cfg.requests.length → b.output[i]? = some none
  taken : ∀ i : ℕ, i < b.next → b.output[i]? = some none →
    ∃ (l : ℕ) (e : Execution ρ ε), b.lanes[l]? = some (some e) ∧ e.index = i

structure Buffered (e : Execution ρ ε) (heard : List Chunk)
    (answered : Option (BatchResult ε)) : Prop where
  chunks : e.chunks = heard
  bytes : e.bytes = (content e.chunks).length
  reserved : e.reservedWorkingBytes = e.bytes
  unanswered : answered = none

structure Answers (cfg : Config ρ) (b : Batch ρ ε) : Prop where
  unheard : ∀ i : ℕ, (∀ p ∈ b.executed, p.1 ≠ i) → b.heard i = [] ∧ b.answered i = none
  live : ∀ (l : ℕ) (e : Execution ρ ε), b.lanes[l]? = some (some e) → e.Live →
    Buffered e (b.heard e.index) (b.answered e.index)
  settling : ∀ (l : ℕ) (e : Execution ρ ε) (result : BatchResult ε),
    b.lanes[l]? = some (some e) → e.stage = .settling result →
    b.answered e.index = some result
  stored : ∀ (i : ℕ) (result : BatchResult ε), b.output[i]? = some (some result) →
    b.answered i = some result ∨
      result = .error .timeout ∧ ∀ p ∈ b.executed, p.1 ≠ i
  lawful : ∀ (i : ℕ) (result : BatchResult ε), b.answered i = some result →
    result.Lawful cfg (b.heard i)

structure Invariant (cfg : Config ρ) (b : Batch ρ ε) : Prop where
  accounts : Accounts cfg b
  indexed : Indexed cfg b
  answers : Answers cfg b

variable {cfg : Config ρ} {b c : Batch ρ ε} {l : ℕ} {e f : Execution ρ ε}

theorem laneBytes_live (he : e.Live) : laneBytes (some e) = e.bytes := by
  cases hstage : e.stage with
  | settling result => exact absurd hstage (he result)
  | _ => simp [laneBytes, hstage]

theorem laneBytes_settling {result : BatchResult ε} (he : e.stage = .settling result) :
    laneBytes (some e) = okBytes (some result) := by
  simp [laneBytes, he]

theorem content_append (chunks : List Chunk) (c : Chunk) :
    content (chunks ++ [c]) = content chunks ++ c.bytes := by
  simp [content]

/-- The lane keeps its request and its index. -/
theorem Indexed.replace (h : Indexed cfg b) (he : b.lanes[l]? = some (some e))
    (hindex : f.index = e.index) (hoptions : f.options = e.options)
    (houtput : c.output = b.output) (hnext : c.next = b.next)
    (hexecuted : c.executed = b.executed) (hlanes : c.lanes = b.lanes.set l (some f)) :
    Indexed cfg c := by
  have hold : ∀ {k : ℕ} {d : Execution ρ ε}, c.lanes[k]? = some (some d) →
      ∃ d₀ : Execution ρ ε, b.lanes[k]? = some (some d₀) ∧ d.index = d₀.index ∧
        d.options = d₀.options := by
    intro k d hf
    rw [hlanes] at hf
    rcases getElem?_set_cases hf with ⟨rfl, hfe⟩ | ⟨-, hf⟩
    · cases hfe
      exact ⟨e, he, hindex, hoptions⟩
    · exact ⟨d, hf, rfl, rfl⟩
  constructor
  case length => rw [houtput, h.length]
  case executed =>
    rw [hexecuted, hnext]
    exact h.executed
  case nodup =>
    rw [hexecuted]
    exact h.nodup
  case running =>
    intro k d hf
    obtain ⟨d₀, hf₀, hi, ho⟩ := hold hf
    rw [hi, ho, hexecuted, houtput]
    exact h.running k d₀ hf₀
  case apart =>
    intro k m d a hne hf hg
    obtain ⟨d₀, hf₀, hi, -⟩ := hold hf
    obtain ⟨a₀, hg₀, hj, -⟩ := hold hg
    rw [hi, hj]
    exact h.apart k m d₀ a₀ hne hf₀ hg₀
  case untaken =>
    rw [hnext, houtput]
    exact h.untaken
  case taken =>
    intro i hi hnone
    rw [hnext] at hi
    rw [houtput] at hnone
    obtain ⟨k, d, hf, hfi⟩ := h.taken i hi hnone
    by_cases hk : l = k
    · subst hk
      cases he.symm.trans hf
      refine ⟨l, f, ?_, hindex.trans hfi⟩
      obtain ⟨hlt, -⟩ := List.getElem?_eq_some_iff.mp he
      rw [hlanes]
      exact List.getElem?_set_self hlt
    · refine ⟨k, d, ?_, hfi⟩
      rw [hlanes, List.getElem?_set_ne hk]
      exact hf

/-- What the stream of a request gave and what its call returned change for one lane alone. -/
theorem Answers.replace (h : Answers cfg b) (hx : Indexed cfg b)
    (he : b.lanes[l]? = some (some e)) (hindex : f.index = e.index)
    {heard : List Chunk} {answered : Option (BatchResult ε)}
    (hlive : f.Live → Buffered f heard answered)
    (hsettling : ∀ result, f.stage = .settling result → answered = some result)
    (hlawful : ∀ result, answered = some result → result.Lawful cfg heard)
    (houtput : c.output = b.output) (hexecuted : c.executed = b.executed)
    (hlanes : c.lanes = b.lanes.set l (some f))
    (hheard : c.heard = Function.update b.heard e.index heard)
    (hanswered : c.answered = Function.update b.answered e.index answered) :
    Answers cfg c := by
  obtain ⟨hin, hempty⟩ := hx.running l e he
  have hother : ∀ {k : ℕ} {d : Execution ρ ε}, l ≠ k → b.lanes[k]? = some (some d) →
      d.index ≠ e.index := fun hne hf => hx.apart _ _ _ _ (Ne.symm hne) hf he
  have hlane : ∀ {k : ℕ} {d : Execution ρ ε}, c.lanes[k]? = some (some d) →
      d = f ∨ d.index ≠ e.index ∧ b.lanes[k]? = some (some d) := by
    intro k d hf
    rw [hlanes] at hf
    rcases getElem?_set_cases hf with ⟨-, hfe⟩ | ⟨hne, hf⟩
    · exact .inl (Option.some.inj hfe)
    · exact .inr ⟨hother hne hf, hf⟩
  constructor
  case unheard =>
    intro i hi
    rw [hexecuted] at hi
    have hne : i ≠ e.index := fun heq => hi _ hin heq.symm
    rw [hheard, hanswered, Function.update_of_ne hne, Function.update_of_ne hne]
    exact h.unheard i hi
  case live =>
    intro k d hf hflive
    rcases hlane hf with rfl | ⟨hne, hf⟩
    · rw [hindex, hheard, hanswered, Function.update_self, Function.update_self]
      exact hlive hflive
    · rw [hheard, hanswered, Function.update_of_ne hne, Function.update_of_ne hne]
      exact h.live k d hf hflive
  case settling =>
    intro k d result hf hstage
    rcases hlane hf with rfl | ⟨hne, hf⟩
    · rw [hindex, hanswered, Function.update_self]
      exact hsettling result hstage
    · rw [hanswered, Function.update_of_ne hne]
      exact h.settling k d result hf hstage
  case stored =>
    intro i result hi
    rw [houtput] at hi
    have hne : i ≠ e.index := by
      rintro rfl
      rw [hempty] at hi
      cases hi
    rw [hanswered, hexecuted, Function.update_of_ne hne]
    exact h.stored i result hi
  case lawful =>
    intro i result hi
    by_cases heq : i = e.index
    · subst heq
      rw [hanswered, Function.update_self] at hi
      rw [hheard, Function.update_self]
      exact hlawful result hi
    · rw [hanswered, Function.update_of_ne heq] at hi
      rw [hheard, Function.update_of_ne heq]
      exact h.lawful i result hi

theorem Accounts.replace (h : Accounts cfg b) (he : b.lanes[l]? = some (some e))
    (houtput : c.output = b.output) (hlanes : c.lanes = b.lanes.set l (some f))
    (hpayload : c.payloadBytes = b.payloadBytes - laneBytes (some e) + laneBytes (some f))
    (hworking : c.workingBytes = c.payloadBytes)
    (hbounded : c.payloadBytes ≤ cfg.maxTotalBytes) : Accounts cfg c where
  payload := by
    have hset : total laneBytes c.lanes + laneBytes (some e) =
        total laneBytes b.lanes + laneBytes (some f) := by
      rw [hlanes]
      exact total_set laneBytes he
    have hbefore := h.payload
    rw [houtput]
    omega
  working := hworking
  bounded := hbounded

theorem Accounts.covers (h : Accounts cfg b) (he : b.lanes[l]? = some (some e)) :
    laneBytes (some e) ≤ b.payloadBytes := by
  have hset : total laneBytes (b.lanes.set l none) + laneBytes (some e) =
      total laneBytes b.lanes + 0 := total_set laneBytes he
  have hpayload := h.payload
  omega

/-- A running execution goes on, after the chunks `heard`. -/
theorem Invariant.keep (h : Invariant cfg b) (heard : List Chunk) (f : Execution ρ ε)
    (he : b.lanes[l]? = some (some e)) (hlive : e.Live) (hlive' : f.Live)
    (hbuffered : Buffered f heard none) (hindex : f.index = e.index)
    (hoptions : f.options = e.options) (houtput : c.output = b.output) (hnext : c.next = b.next)
    (hexecuted : c.executed = b.executed) (hlanes : c.lanes = b.lanes.set l (some f))
    (hheard : c.heard = Function.update b.heard e.index heard)
    (hanswered : c.answered = b.answered)
    (hpayload : c.payloadBytes = b.payloadBytes - e.bytes + f.bytes)
    (hworking : c.workingBytes = c.payloadBytes)
    (hbounded : c.payloadBytes ≤ cfg.maxTotalBytes) : Invariant cfg c := by
  have hnone := (h.answers.live l e he hlive).unanswered
  have hupdate : c.answered = Function.update b.answered e.index none := by
    rw [hanswered, ← hnone, Function.update_eq_self]
  constructor
  case accounts =>
    apply h.accounts.replace he houtput hlanes _ hworking hbounded
    rw [laneBytes_live hlive, laneBytes_live hlive']
    exact hpayload
  case indexed => exact h.indexed.replace he hindex hoptions houtput hnext hexecuted hlanes
  case answers =>
    apply h.answers.replace h.indexed he hindex _ _ _ houtput hexecuted hlanes hheard hupdate
    · exact fun _ => hbuffered
    · exact fun r hr => absurd hr (hlive' r)
    · exact fun r hr => absurd hr.symm (Option.some_ne_none r)

/-- A running execution gets its result after the chunks `heard`. -/
theorem Invariant.answer {result : BatchResult ε} (h : Invariant cfg b) (heard : List Chunk)
    (f : Execution ρ ε) (he : b.lanes[l]? = some (some e)) (hlive : e.Live)
    (hlawful : result.Lawful cfg heard)
    (hindex : f.index = e.index) (hoptions : f.options = e.options)
    (hstage : f.stage = .settling result) (houtput : c.output = b.output)
    (hnext : c.next = b.next) (hexecuted : c.executed = b.executed)
    (hlanes : c.lanes = b.lanes.set l (some f))
    (hheard : c.heard = Function.update b.heard e.index heard)
    (hanswered : c.answered = Function.update b.answered e.index (some result))
    (hpayload : c.payloadBytes = b.payloadBytes - e.bytes + okBytes (some result))
    (hworking : c.workingBytes = c.payloadBytes) (hbytes : okBytes (some result) ≤ e.bytes) :
    Invariant cfg c := by
  have hbounded := h.accounts.bounded
  constructor
  case accounts =>
    apply h.accounts.replace he houtput hlanes _ hworking
    · omega
    · rw [laneBytes_live hlive, laneBytes_settling hstage]
      exact hpayload
  case indexed => exact h.indexed.replace he hindex hoptions houtput hnext hexecuted hlanes
  case answers =>
    apply h.answers.replace h.indexed he hindex _ _ _ houtput hexecuted hlanes hheard hanswered
    · exact fun hlivf => absurd hstage (hlivf result)
    · intro r hr
      rw [hstage] at hr
      cases hr
      rfl
    · intro r hr
      cases hr
      exact hlawful

theorem Invariant.wait {stage : Stage ε} (h : Invariant cfg b)
    (he : b.lanes[l]? = some (some e)) (hlive : e.Live) (hstage : ∀ r, stage ≠ .settling r) :
    Invariant cfg (b.wait l { e with stage := stage }) := by
  have hbuffered := h.answers.live l e he hlive
  apply h.keep (b.heard e.index) { e with stage := stage } he hlive hstage
  · exact ⟨hbuffered.chunks, hbuffered.bytes, hbuffered.reserved, rfl⟩
  all_goals try rfl
  · simp [Batch.wait]
  · simp [Batch.wait]
  · exact h.accounts.working
  · exact h.accounts.bounded

theorem Invariant.fail {failure : Failure ε} (h : Invariant cfg b) (heard : List Chunk)
    (he : b.lanes[l]? = some (some e)) (hlive : e.Live) (hlawful : failure.Lawful cfg) :
    Invariant cfg
      ({ b with heard := Function.update b.heard e.index heard }.fail l e failure) := by
  have hbuffered := h.answers.live l e he hlive
  have hresult : (BatchResult.error failure).Lawful cfg heard := hlawful
  apply h.answer heard { e with stage := .settling (.error failure) } he hlive hresult
  all_goals try rfl
  · simp [Batch.fail, Batch.answer, okBytes]
  · have hworking := h.accounts.working
    have hreserved := hbuffered.reserved
    simp only [Batch.fail, Batch.answer]
    omega
  · exact Nat.zero_le _

theorem receive_refused {value : Chunk}
    (hlimit : b.payloadBytes + value.byteLength > (cfg.maxTotalBytes : ℤ)) :
    b.receive cfg l e value =
      { b with heard := Function.update b.heard e.index (b.heard e.index ++ [value]) }.fail l e
        (.bufferLimit b.payloadBytes value.byteLength) := by
  simp only [Batch.receive]
  rw [if_pos (.inl hlimit)]

/-- The second half of the test is never what refuses a chunk. -/
theorem Accounts.receive_taken {value : Chunk} (h : Accounts cfg b)
    (hlimit : ¬ b.payloadBytes + value.byteLength > (cfg.maxTotalBytes : ℤ)) :
    b.receive cfg l e value =
      Batch.wait
        { b with
          heard := Function.update b.heard e.index (b.heard e.index ++ [value])
          payloadBytes := b.payloadBytes + value.byteLength
          workingBytes := b.workingBytes + value.byteLength }
        l
        { e with
          reservedWorkingBytes := e.reservedWorkingBytes + value.byteLength
          bytes := e.bytes + value.byteLength
          chunks := e.chunks ++ [value] } := by
  have hboth : ¬ (b.payloadBytes + value.byteLength > (cfg.maxTotalBytes : ℤ) ∨
      b.workingBytes + value.byteLength > (cfg.maxWorkingBytes : ℤ)) := by
    have hmax : cfg.maxWorkingBytes = 2 * cfg.maxTotalBytes := rfl
    have hworking := h.working
    omega
  simp only [Batch.receive]
  rw [if_neg hboth]

theorem Invariant.receive {value : Chunk} (h : Invariant cfg b)
    (he : b.lanes[l]? = some (some e)) (hlive : e.Live) :
    Invariant cfg (b.receive cfg l e value) := by
  have hbuffered := h.answers.live l e he hlive
  have hworking := h.accounts.working
  by_cases hlimit : b.payloadBytes + value.byteLength > (cfg.maxTotalBytes : ℤ)
  · rw [receive_refused hlimit]
    exact h.fail _ he hlive hlimit
  · rw [h.accounts.receive_taken hlimit]
    apply h.keep (b.heard e.index ++ [value])
      { e with
        reservedWorkingBytes := e.reservedWorkingBytes + value.byteLength
        bytes := e.bytes + value.byteLength
        chunks := e.chunks ++ [value] }
      he hlive
    all_goals try rfl
    · exact hlive
    · refine ⟨?_, ?_, ?_, rfl⟩
      · simp only [hbuffered.chunks]
      · simp only [content_append, List.length_append, hbuffered.bytes, Chunk.byteLength]
      · simp only [hbuffered.reserved]
    · simp only [Batch.wait]
      omega
    · simp only [Batch.wait]
      omega
    · simp only [Batch.wait]
      omega

theorem join_eq {chunks : List Chunk} {offset : ℕ} {body : List UInt8}
    (h : offset + (content chunks).length ≤ body.length) :
    join chunks offset body = some (splice offset (content chunks) body) := by
  induction chunks generalizing offset body with
  | nil => simp [join, content, splice]
  | cons c chunks ih =>
    have hcontent : content (c :: chunks) = c.bytes ++ content chunks := rfl
    rw [hcontent, List.length_append] at h
    have hfits : offset + c.byteLength ≤ body.length := by
      simp only [Chunk.byteLength]
      omega
    have hrest : offset + c.byteLength + (content chunks).length ≤
        (splice offset c.bytes body).length := by
      rw [length_splice hfits, Chunk.byteLength]
      omega
    rw [join, if_pos hfits, ih hrest, Chunk.byteLength, splice_splice (by omega), hcontent]

theorem join_whole (chunks : List Chunk) :
    join chunks 0 (List.replicate (content chunks).length 0) = some (content chunks) := by
  rw [join_eq (by simp)]
  simp [splice]

theorem reusable_content {chunks : List Chunk} {body : List UInt8}
    (h : reusable chunks = some body) : body = content chunks := by
  match chunks, h with
  | [c], h =>
    simp only [reusable] at h
    split at h
    · cases h
    · cases h
      simp [content]

/-- The limit for the assembly is never reached, and the body is what the stream gave. -/
theorem Invariant.assemble_eq (h : Invariant cfg b) (he : b.lanes[l]? = some (some e))
    (hlive : e.Live) :
    ∃ f : Execution ρ ε, f.index = e.index ∧ f.options = e.options ∧
      b.assemble cfg l e = b.answer l f (.ok (content e.chunks)) := by
  have hbuffered := h.answers.live l e he hlive
  have hworking := h.accounts.working
  have hbounded := h.accounts.bounded
  have hcovers := h.accounts.covers he
  rw [laneBytes_live hlive] at hcovers
  unfold Batch.assemble
  cases hreuse : reusable e.chunks with
  | some body =>
    have hbody := reusable_content hreuse
    subst hbody
    exact ⟨e, rfl, rfl, rfl⟩
  | none =>
    have hroom : ¬ b.workingBytes + e.bytes > (cfg.maxWorkingBytes : ℤ) := by
      have hmax : cfg.maxWorkingBytes = 2 * cfg.maxTotalBytes := rfl
      omega
    have hjoin := join_whole e.chunks
    rw [← hbuffered.bytes] at hjoin
    refine ⟨{ e with
      chunks := []
      reservedWorkingBytes := e.reservedWorkingBytes + e.bytes - e.bytes }, rfl, rfl, ?_⟩
    simp only [if_neg hroom, hjoin, Int.add_sub_cancel]

theorem Invariant.assemble (h : Invariant cfg b) (he : b.lanes[l]? = some (some e))
    (hlive : e.Live) : Invariant cfg (b.assemble cfg l e) := by
  have hbuffered := h.answers.live l e he hlive
  have hlawful : (BatchResult.ok (content e.chunks) : BatchResult ε).Lawful cfg
      (b.heard e.index) := by
    rw [← hbuffered.chunks]
    rfl
  have hbytes : okBytes (some (.ok (content e.chunks) : BatchResult ε)) = e.bytes :=
    hbuffered.bytes.symm
  obtain ⟨f, hindex, hoptions, heq⟩ := h.assemble_eq he hlive
  rw [heq]
  apply h.answer (b.heard e.index) { f with stage := .settling (.ok (content e.chunks)) } he
    hlive hlawful hindex hoptions
  all_goals try rfl
  · simp [Batch.answer]
  · simp [Batch.answer, hindex]
  · simp only [Batch.answer, hbytes]
    omega
  · exact h.accounts.working
  · exact Nat.le_of_eq hbytes

end BatchLanes
