import Ja3Proxy.TransitionRuns
import Ja3Proxy.ListTotals

/-! `Service.capabilities` (`packages/typescript/src/service.ts`): callers share one load, its
value is cached for a while, and a load changes the size limit of later control replies. The
service answers every `GET /capabilities` with the same bytes. -/
namespace CapabilityRefresh

open TransitionRuns ListTotals

variable {κ δ : Type*}

def CONTROL_LIMIT : ℕ := 1024 * 1024

/-- `maxConcurrent` and `maxQueued` of the control admission together. -/
def controlSlots : ℕ := 8 + 128

/-- What the code does with the bytes of a reply, the age at which a value expires, and the
bytes that the service sends. -/
structure Config (κ δ : Type*) where
  parseJson : List UInt8 → Option κ
  capabilities : κ → Bool
  maxControlBytes : κ → ℕ
  copyCapabilities : κ → δ
  ttlMs : ℕ
  document : List UInt8

inductive Failure where
  | busy
  | timeout
  | protocol
  | unsupported
  deriving DecidableEq, Repr

/-- `control('capabilities', 'GET', undefined)` and the callback after it. -/
inductive Load (κ δ : Type*) where
  | queued
  | requested
  | reading (size : ℕ) (chunks : List (List UInt8))
  | received (raw : κ)
  | accepted (value : δ)
  | rejected (failure : Failure)
  deriving DecidableEq

inductive Caller (δ : Type*) where
  | waiting (load : ℕ)
  | returned (value : δ)
  | failed (failure : Failure)
  | aborted
  | timedOut
  deriving DecidableEq

/-- `others` counts the control operations in flight that are not loads. -/
structure Service (κ δ : Type*) where
  now : ℕ
  controlLimit : ℕ
  cached : Option (ℕ × δ)
  loading : Option ℕ
  others : ℕ
  loads : List (Load κ δ)
  callers : List (Caller δ)

inductive Act where
  | enroll
  | answer
  | chunk (bytes : List UInt8)
  | done
  | accept
  | expire
  deriving DecidableEq, Repr

inductive Event where
  | tick (now : ℕ)
  | enter
  | leave
  | call (aborted : Bool)
  | abort (k : ℕ)
  | timeout (k : ℕ)
  | deliver (k : ℕ)
  | clear (l : ℕ)
  | load (l : ℕ) (a : Act)
  deriving DecidableEq, Repr

namespace Load

def inFlight : Load κ δ → Bool
  | .queued => true
  | .requested => true
  | .reading _ _ => true
  | _ => false

def settled : Load κ δ → Bool
  | .accepted _ => true
  | .rejected _ => true
  | _ => false

/-- `readJson` on one more chunk of the document, with the limit of that moment. -/
def receive (c : Config κ δ) (limit size : ℕ) (chunks : List (List UInt8))
    (bytes : List UInt8) : Option (Load κ δ) :=
  if (chunks.flatten ++ bytes).isPrefixOf c.document then
    some
      (if size + bytes.length > limit then .rejected .protocol
      else .reading (size + bytes.length) (chunks ++ [bytes]))
  else none

def finish (c : Config κ δ) (chunks : List (List UInt8)) : Option (Load κ δ) :=
  if chunks.flatten == c.document then
    some
      (match c.parseJson chunks.flatten with
      | none => .rejected .protocol
      | some raw => .received raw)
  else none

end Load

namespace Service

variable (c : Config κ δ) (s : Service κ δ)

def setLoad (l : ℕ) (load : Load κ δ) : Service κ δ := { s with loads := s.loads.set l load }

def setCaller (k : ℕ) (caller : Caller δ) : Service κ δ :=
  { s with callers := s.callers.set k caller }

def join (caller : Caller δ) : Service κ δ := { s with callers := s.callers ++ [caller] }

def occupied : ℕ := s.others + s.loads.countP Load.inFlight

def fresh : Option δ :=
  match s.cached with
  | some (expires, value) => if expires > s.now then some value else none
  | none => none

/-- `capabilities(signal)` up to its first `await`. -/
def call (aborted : Bool) : Service κ δ :=
  if aborted then s.join .aborted
  else
    match s.fresh with
    | some value => s.join (.returned value)
    | none =>
      match s.loading with
      | some l => s.join (.waiting l)
      | none =>
        let load := if s.occupied < controlSlots then .queued else .rejected .busy
        join { s with loads := s.loads ++ [load], loading := some s.loads.length }
          (.waiting s.loads.length)

def accept (l : ℕ) (raw : κ) : Service κ δ :=
  if c.capabilities raw then
    setLoad
      { s with
        controlLimit := min CONTROL_LIMIT (c.maxControlBytes raw)
        cached := some (s.now + c.ttlMs, c.copyCapabilities raw) }
      l (.accepted (c.copyCapabilities raw))
  else s.setLoad l (.rejected .unsupported)

def act (l : ℕ) (load : Load κ δ) : Act → Option (Service κ δ)
  | .enroll =>
    match load with
    | .queued => some (s.setLoad l .requested)
    | _ => none
  | .answer =>
    match load with
    | .requested => some (s.setLoad l (.reading 0 []))
    | _ => none
  | .chunk bytes =>
    match load with
    | .reading size chunks => (Load.receive c s.controlLimit size chunks bytes).map (s.setLoad l)
    | _ => none
  | .done =>
    match load with
    | .reading _ chunks => (Load.finish c chunks).map (s.setLoad l)
    | _ => none
  | .accept =>
    match load with
    | .received raw => some (s.accept c l raw)
    | _ => none
  | .expire => if load.inFlight then some (s.setLoad l (.rejected .timeout)) else none

def settle (k : ℕ) : Load κ δ → Option (Service κ δ)
  | .accepted value => some (s.setCaller k (.returned value))
  | .rejected failure => some (s.setCaller k (.failed failure))
  | _ => none

def pending (k : ℕ) : Bool :=
  match s.callers[k]? with
  | some (.waiting _) => true
  | _ => false

def next : Event → Option (Service κ δ)
  | .tick now => some { s with now := now }
  | .enter =>
    if s.occupied < controlSlots then some { s with others := s.others + 1 } else none
  | .leave => if s.others = 0 then none else some { s with others := s.others - 1 }
  | .call aborted => some (s.call aborted)
  | .abort k => if s.pending k then some (s.setCaller k .aborted) else none
  | .timeout k => if s.pending k then some (s.setCaller k .timedOut) else none
  | .deliver k =>
    match s.callers[k]? with
    | some (.waiting l) => s.loads[l]?.bind (s.settle k)
    | _ => none
  | .clear l =>
    if s.loads[l]?.any Load.settled then
      some (if s.loading = some l then { s with loading := none } else s)
    else none
  | .load l a => s.loads[l]?.bind fun load => s.act c l load a

end Service

def machine (c : Config κ δ) : Machine (Service κ δ) Event where
  initial := ⟨0, CONTROL_LIMIT, none, none, 0, [], []⟩
  next := Service.next c

structure Accepts (c : Config κ δ) (raw : κ) : Prop where
  parsed : c.parseJson c.document = some raw
  valid : c.capabilities raw = true
  small : c.document.length ≤ CONTROL_LIMIT

def Roomy (s : Service κ δ) (e : Event) (_ : Service κ δ) : Prop :=
  e = .call false → s.fresh.isNone → s.loading = none → s.occupied < controlSlots

/-- Every load accepts the document with the value `value` unless it times out, and so does every
caller that is neither aborted nor timed out. -/
structure Stable (c : Config κ δ) (value : δ) (s : Service κ δ) : Prop where
  rejected : ∀ (l : ℕ) (failure : Failure), s.loads[l]? = some (.rejected failure) →
    failure = .timeout
  accepted : ∀ (l : ℕ) (found : δ), s.loads[l]? = some (.accepted found) → found = value
  returned : ∀ (k : ℕ) (found : δ), s.callers[k]? = some (.returned found) → found = value
  failed : ∀ (k : ℕ) (failure : Failure), s.callers[k]? = some (.failed failure) →
    failure = .timeout
  chunk : ∀ (l size : ℕ) (chunks : List (List UInt8)) (bytes : List UInt8),
    s.loads[l]? = some (.reading size chunks) →
    (chunks.flatten ++ bytes).isPrefixOf c.document →
    ∃ t, s.next c (.load l (.chunk bytes)) = some t ∧
      t.loads[l]? = some (.reading (size + bytes.length) (chunks ++ [bytes]))
  done : ∀ (l size : ℕ) (chunks : List (List UInt8)),
    s.loads[l]? = some (.reading size chunks) → chunks.flatten = c.document →
    ∃ t u, s.next c (.load l .done) = some t ∧ t.next c (.load l .accept) = some u ∧
      u.loads[l]? = some (.accepted value)
  deliver : ∀ (k l : ℕ) (found : δ), s.callers[k]? = some (.waiting l) →
    s.loads[l]? = some (.accepted found) →
    ∃ t, s.next c (.deliver k) = some t ∧ t.callers[k]? = some (.returned value)

variable {c : Config κ δ} {raw : κ} {s t : Service κ δ} {l : ℕ}

inductive LoadStep (c : Config κ δ) (limit : ℕ) : Load κ δ → Load κ δ → Prop
  | enroll : LoadStep c limit .queued .requested
  | answer : LoadStep c limit .requested (.reading 0 [])
  | taken {size : ℕ} {chunks : List (List UInt8)} {bytes : List UInt8}
      (hbytes : chunks.flatten ++ bytes <+: c.document) (hsize : size + bytes.length ≤ limit) :
      LoadStep c limit (.reading size chunks)
        (.reading (size + bytes.length) (chunks ++ [bytes]))
  | refused {size : ℕ} {chunks : List (List UInt8)} {bytes : List UInt8}
      (hbytes : chunks.flatten ++ bytes <+: c.document) (hsize : limit < size + bytes.length) :
      LoadStep c limit (.reading size chunks) (.rejected .protocol)
  | parsed {size : ℕ} {chunks : List (List UInt8)} {raw : κ}
      (hchunks : chunks.flatten = c.document) (hraw : c.parseJson c.document = some raw) :
      LoadStep c limit (.reading size chunks) (.received raw)
  | unparsed {size : ℕ} {chunks : List (List UInt8)} (hraw : c.parseJson c.document = none) :
      LoadStep c limit (.reading size chunks) (.rejected .protocol)
  | accepted {raw : κ} (hvalid : c.capabilities raw = true) :
      LoadStep c limit (.received raw) (.accepted (c.copyCapabilities raw))
  | unsupported {raw : κ} (hvalid : c.capabilities raw = false) :
      LoadStep c limit (.received raw) (.rejected .unsupported)
  | expired {load : Load κ δ} : LoadStep c limit load (.rejected .timeout)

structure Acted (c : Config κ δ) (l : ℕ) (load next : Load κ δ) (s t : Service κ δ) :
    Prop where
  step : LoadStep c s.controlLimit load next
  loads : t.loads = s.loads.set l next
  callers : t.callers = s.callers
  others : t.others = s.others
  memo : t.controlLimit = s.controlLimit ∧ t.cached = s.cached ∨
    ∃ raw, load = .received raw ∧ c.capabilities raw = true ∧
      t.controlLimit = min CONTROL_LIMIT (c.maxControlBytes raw) ∧
      t.cached = some (s.now + c.ttlMs, c.copyCapabilities raw)

theorem acted_setLoad {load next : Load κ δ} (h : LoadStep c s.controlLimit load next) :
    Acted c l load next s (s.setLoad l next) :=
  ⟨h, rfl, rfl, rfl, .inl ⟨rfl, rfl⟩⟩

theorem receive_step {limit size : ℕ} {chunks : List (List UInt8)} {bytes : List UInt8}
    {next : Load κ δ} (h : Load.receive c limit size chunks bytes = some next) :
    LoadStep c limit (.reading size chunks) next := by
  unfold Load.receive at h
  split at h
  · next hbytes =>
    have hfix := List.isPrefixOf_iff_prefix.mp hbytes
    cases h
    split
    · next hsize => exact .refused hfix hsize
    · next hsize => exact .taken hfix (Nat.not_lt.mp hsize)
  · cases h

theorem finish_step {limit size : ℕ} {chunks : List (List UInt8)} {next : Load κ δ}
    (h : Load.finish c chunks = some next) : LoadStep c limit (.reading size chunks) next := by
  unfold Load.finish at h
  split at h
  · next heq =>
    have hchunks : chunks.flatten = c.document := by simpa using heq
    cases h
    rw [hchunks]
    cases hraw : c.parseJson c.document with
    | none => exact .unparsed hraw
    | some raw => exact .parsed hchunks hraw
  · cases h

theorem act_acted {load : Load κ δ} {a : Act} (h : s.act c l load a = some t) :
    ∃ next, Acted c l load next s t := by
  cases a with
  | enroll =>
    cases load <;> simp only [Service.act, reduceCtorEq] at h
    cases h
    exact ⟨_, acted_setLoad .enroll⟩
  | answer =>
    cases load <;> simp only [Service.act, reduceCtorEq] at h
    cases h
    exact ⟨_, acted_setLoad .answer⟩
  | chunk bytes =>
    cases load <;> simp only [Service.act, reduceCtorEq] at h
    obtain ⟨next, hnext, rfl⟩ := Option.map_eq_some_iff.mp h
    exact ⟨next, acted_setLoad (receive_step hnext)⟩
  | done =>
    cases load <;> simp only [Service.act, reduceCtorEq] at h
    obtain ⟨next, hnext, rfl⟩ := Option.map_eq_some_iff.mp h
    exact ⟨next, acted_setLoad (finish_step hnext)⟩
  | accept =>
    cases load <;> simp only [Service.act, reduceCtorEq] at h
    next raw =>
      cases h
      cases hvalid : c.capabilities raw with
      | true =>
        refine ⟨.accepted (c.copyCapabilities raw), ?_⟩
        rw [Service.accept, if_pos hvalid]
        exact ⟨.accepted hvalid, rfl, rfl, rfl, .inr ⟨raw, rfl, hvalid, rfl, rfl⟩⟩
      | false =>
        refine ⟨.rejected .unsupported, ?_⟩
        rw [Service.accept, if_neg (by simp [hvalid])]
        exact acted_setLoad (.unsupported hvalid)
  | expire =>
    simp only [Service.act] at h
    split at h
    · cases h
      exact ⟨_, acted_setLoad .expired⟩
    · cases h

structure Quiet (e : Event) (s t : Service κ δ) : Prop where
  loads : t.loads = s.loads
  limit : t.controlLimit = s.controlLimit
  cached : t.cached = s.cached
  others : e ≠ .enter → t.others ≤ s.others
  callers : ∀ (k : ℕ) (caller : Caller δ), t.callers[k]? = some caller →
    s.callers[k]? = some caller ∨ caller = .aborted ∨ caller = .timedOut ∨
      (∃ (l : ℕ) (value : δ), s.loads[l]? = some (.accepted value) ∧ caller = .returned value) ∨
      ∃ (l : ℕ) (failure : Failure), s.loads[l]? = some (.rejected failure) ∧
        caller = .failed failure

theorem quiet_of_callers {e : Event} (hloads : t.loads = s.loads)
    (hlimit : t.controlLimit = s.controlLimit) (hcached : t.cached = s.cached)
    (hothers : e ≠ .enter → t.others ≤ s.others) (hcallers : t.callers = s.callers) :
    Quiet e s t :=
  ⟨hloads, hlimit, hcached, hothers, fun _ _ hk => .inl (hcallers ▸ hk)⟩

theorem quiet_setCaller {e : Event} {k : ℕ} {caller : Caller δ}
    (hcaller : caller = .aborted ∨ caller = .timedOut ∨
      (∃ (l : ℕ) (value : δ), s.loads[l]? = some (.accepted value) ∧ caller = .returned value) ∨
      ∃ (l : ℕ) (failure : Failure), s.loads[l]? = some (.rejected failure) ∧
        caller = .failed failure) :
    Quiet e s (s.setCaller k caller) where
  loads := rfl
  limit := rfl
  cached := rfl
  others _ := Nat.le_refl _
  callers := by
    intro m other hm
    rcases getElem?_set_cases hm with ⟨-, rfl⟩ | ⟨-, hm⟩
    · exact .inr hcaller
    · exact .inl hm

/-- A step is a call, a step of a load, or quiet. -/
theorem next_cases {e : Event} (h : s.next c e = some t) :
    (∃ aborted, e = .call aborted ∧ t = s.call aborted) ∨
    (∃ (l : ℕ) (a : Act) (load : Load κ δ), e = .load l a ∧ s.loads[l]? = some load ∧
      s.act c l load a = some t) ∨
    Quiet e s t := by
  cases e with
  | call aborted =>
    cases h
    exact .inl ⟨aborted, rfl, rfl⟩
  | load l a =>
    obtain ⟨load, hload, hact⟩ := Option.bind_eq_some_iff.mp h
    exact .inr (.inl ⟨l, a, load, rfl, hload, hact⟩)
  | tick now =>
    cases h
    exact .inr (.inr (quiet_of_callers rfl rfl rfl (fun _ => Nat.le_refl _) rfl))
  | enter =>
    simp only [Service.next] at h
    split at h
    · cases h
      exact .inr (.inr (quiet_of_callers rfl rfl rfl (fun hne => absurd rfl hne) rfl))
    · cases h
  | leave =>
    simp only [Service.next] at h
    split at h
    · cases h
    · cases h
      exact .inr (.inr (quiet_of_callers rfl rfl rfl (fun _ => Nat.sub_le _ _) rfl))
  | abort k =>
    simp only [Service.next] at h
    split at h
    · cases h
      exact .inr (.inr (quiet_setCaller (.inl rfl)))
    · cases h
  | timeout k =>
    simp only [Service.next] at h
    split at h
    · cases h
      exact .inr (.inr (quiet_setCaller (.inr (.inl rfl))))
    · cases h
  | deliver k =>
    simp only [Service.next] at h
    split at h
    · next l hcaller =>
      obtain ⟨load, hload, hsettle⟩ := Option.bind_eq_some_iff.mp h
      cases load <;> simp only [Service.settle, reduceCtorEq] at hsettle
      case accepted value =>
        cases hsettle
        exact .inr (.inr (quiet_setCaller (.inr (.inr (.inl ⟨l, value, hload, rfl⟩)))))
      case rejected failure =>
        cases hsettle
        exact .inr (.inr (quiet_setCaller (.inr (.inr (.inr ⟨l, failure, hload, rfl⟩)))))
    · cases h
  | clear l =>
    simp only [Service.next] at h
    split at h
    · cases h
      right
      right
      split
      · exact quiet_of_callers rfl rfl rfl (fun _ => Nat.le_refl _) rfl
      · exact quiet_of_callers rfl rfl rfl (fun _ => Nat.le_refl _) rfl
    · cases h

inductive Called (s : Service κ δ) (aborted : Bool) : Service κ δ → Prop
  | joined {caller : Caller δ}
      (hcaller : caller = .aborted ∨ (∃ l, caller = .waiting l) ∨
        ∃ (expires : ℕ) (value : δ), s.cached = some (expires, value) ∧
          caller = .returned value) :
      Called s aborted (s.join caller)
  | started {load : Load κ δ}
      (hload : load = .queued ∨
        load = .rejected .busy ∧ aborted = false ∧ s.fresh.isNone ∧ s.loading = none ∧
          controlSlots ≤ s.occupied) :
      Called s aborted
        (Service.join { s with loads := s.loads ++ [load], loading := some s.loads.length }
          (.waiting s.loads.length))

theorem cached_of_fresh {value : δ} (h : s.fresh = some value) :
    ∃ expires, s.cached = some (expires, value) := by
  unfold Service.fresh at h
  split at h
  · next expires found hcached =>
    split at h
    · cases h
      exact ⟨expires, hcached⟩
    · cases h
  · cases h

theorem call_called (aborted : Bool) : Called s aborted (s.call aborted) := by
  unfold Service.call
  cases aborted with
  | true => exact .joined (.inl rfl)
  | false =>
    simp only [Bool.false_eq_true, if_false]
    cases hfresh : s.fresh with
    | some value =>
      obtain ⟨expires, hcached⟩ := cached_of_fresh hfresh
      exact .joined (.inr (.inr ⟨expires, value, hcached, rfl⟩))
    | none =>
      cases hloading : s.loading with
      | some l => exact .joined (.inr (.inl ⟨l, rfl⟩))
      | none =>
        apply Called.started
        by_cases hroom : s.occupied < controlSlots
        · left
          exact if_pos hroom
        · right
          exact ⟨if_neg hroom, rfl, by rw [hfresh]; rfl, hloading, Nat.not_lt.mp hroom⟩

variable {aborted : Bool}

theorem Called.loads {load : Load κ δ} (h : Called s aborted t)
    (hl : t.loads[l]? = some load) :
    s.loads[l]? = some load ∨ load = .queued ∨ load = .rejected .busy := by
  cases h with
  | joined => exact .inl hl
  | started hload =>
    rcases getElem?_append_cases hl with hl | ⟨-, rfl⟩
    · exact .inl hl
    · right
      rcases hload with rfl | ⟨rfl, -⟩
      · exact .inl rfl
      · exact .inr rfl

theorem Called.length (h : Called s aborted t) : t.loads.length ≤ s.loads.length + 1 := by
  cases h with
  | joined => exact Nat.le_succ _
  | started => simp [Service.join]

theorem Called.others (h : Called s aborted t) : t.others = s.others := by
  cases h <;> rfl

theorem Called.limit (h : Called s aborted t) : t.controlLimit = s.controlLimit := by
  cases h <;> rfl

end CapabilityRefresh
