import Ja3Proxy.SdkExchange

/-! A managed session of the SDK (`sessions.ts`): exchanges and cookie commands that take turns on
the serial admission, `rebindIdentity` with its four remote steps, and the handlers that mark the
session lost. Whoever waits may get the permit next. Replies, failures and aborts are events. -/
namespace SessionRebind

open SdkErrors SdkExchange TransitionRuns TransportErrors

/-- Why a command rejects: the service has answered with a code, or something local. -/
inductive Failure where
  | answered (code : ErrorCode)
  | malformed | connect | aborted | timedOut | tooLarge | busy | invalid
  deriving DecidableEq, Repr

def Failure.code : Failure → ErrorCode
  | .answered code => code
  | .malformed => .protocolError
  | .connect => .connectError
  | .aborted => .cancelled
  | .timedOut => .timeout
  | .tooLarge => .bodyTooLarge
  | .busy => .busy
  | .invalid => .invalidRequest

def Failure.notFound (failure : Failure) : Bool := failure.code == .contextNotFound

variable {ι : Type}

/-- What is called: `stream` with its variants, a cookie command that reads or that expects the
next revision, `rebindIdentity` with a connection that `validateConnection` takes or not. -/
inductive Request (ι : Type) where
  | stream
  | command (mutating : Bool)
  | rebind (connection : ι) (valid : Bool)
  deriving DecidableEq

structure Rebind (ι : Type) where
  connection : ι
  id : String
  old : ι
  deriving DecidableEq

inductive Outcome where
  | committed (next : Info)
  | cleanupPending (next : Info) (code : ErrorCode)
  | thrown (code : ErrorCode)
  deriving DecidableEq

/-- A call and the reply it waits for. An exchange that is `handed` out has given its permit
back; its body is still read. -/
inductive Task (ι : Type) where
  | idle
  | queued (request : Request ι)
  | streaming (current : Info)
  | handed (current : Info)
  | commanding (id : String) (expected : Option ℕ)
  | exporting (r : Rebind ι)
  | creating (r : Rebind ι)
  | importing (r : Rebind ι) (next : Info)
  | discarding (r : Rebind ι) (next : Info) (code : ErrorCode)
  | deleting (r : Rebind ι) (previous : String) (next : Info)
  | rebound (r : Rebind ι) (outcome : Outcome)
  | ended
  deriving DecidableEq

/-- The variables of `createSession` with its calls. The last three are a record of the service:
the contexts it has created, those that a rebind has replaced, and those it has not found. -/
structure Session (ι : Type) where
  info : Info
  connection : ι
  cleanup : List String
  lost : Bool
  closed : Bool
  holder : Option ℕ
  tasks : ℕ → Task ι
  used : List String
  retired : List String
  missing : List String

def Session.initial (info : Info) (connection : ι) : Session ι :=
  ⟨info, connection, [info.contextId], false, false, none, fun _ => .idle, [info.contextId], [], []⟩

/-- A reply that is not an error. `shape` says whether a cookie reply has the fields of its
operation and no others. -/
inductive Value where
  | exchange (metadata : ResponseMetadata)
  | cookies (revision : ℕ) (shape : Bool)
  | created (contextId : String) (revision : ℕ)
  | removed

inductive Event (ι : Type) where
  | call (t : ℕ) (request : Request ι)
  | reject (t : ℕ) (failure : Failure)
  | grant (t : ℕ)
  | answer (t : ℕ) (value : Value) (aborted : Bool)
  | fail (t : ℕ) (failure : Failure)
  | complete (t : ℕ) (failure : Option Failure)
  | stopAccepting

namespace Session

variable (s : Session ι)

def set (t : ℕ) (task : Task ι) : Session ι :=
  { s with tasks := fun u => if u = t then task else s.tasks u }

/-- `release?.()` -/
def finish (t : ℕ) (task : Task ι) : Session ι :=
  { s.set t task with holder := if s.holder = some t then none else s.holder }

def markLost (code : ErrorCode) (contextId : String) : Session ι :=
  if s.info.contextId = contextId ∧ code = .contextNotFound then { s with lost := true } else s

/-- The service has answered a command for this context. An exchange asks for the capabilities
first where they have expired; an answer to that is taken for one about its context here. -/
def note (failure : Failure) (contextId : String) : Session ι :=
  if failure = .answered .contextNotFound then { s with missing := contextId :: s.missing } else s

def forget (contextId : String) : Session ι :=
  { s with cleanup := s.cleanup.filter (· != contextId) }

def remember (contextId : String) : Session ι :=
  if contextId ∈ s.cleanup then s else { s with cleanup := s.cleanup ++ [contextId] }

def removeContext (contextId : String) : Option Failure → Session ι
  | none => s.forget contextId
  | some failure =>
    if failure.notFound then (s.note failure contextId).forget contextId
    else (s.note failure contextId).remember contextId

/-- The handler of `mutate` for a rebind. -/
def throwRebind (t : ℕ) (r : Rebind ι) (code : ErrorCode) : Session ι :=
  (s.markLost code r.id).finish t (.rebound r (.thrown code))

/-- What a call that never starts its operation returns with. -/
def refuse (t : ℕ) (request : Request ι) (code : ErrorCode) : Session ι :=
  s.finish t (match request with
    | .rebind connection _ => .rebound ⟨connection, s.info.contextId, s.connection⟩ (.thrown code)
    | _ => .ended)

def call (t : ℕ) (request : Request ι) : Session ι :=
  if s.closed then s.refuse t request .cancelled
  else if s.lost then s.refuse t request .contextNotFound
  else s.set t (.queued request)

def grant (t : ℕ) (request : Request ι) : Session ι :=
  if s.lost then s.refuse t request .contextNotFound
  else
    match request with
    | .stream => { s.set t (.streaming s.info) with holder := some t }
    | .command mutating =>
      { s.set t (.commanding s.info.contextId (if mutating then some s.info.revision else none))
        with
        holder := some t }
    | .rebind connection true =>
      { s.set t (.exporting ⟨connection, s.info.contextId, s.connection⟩) with holder := some t }
    | .rebind _ false => s.refuse t request .invalidRequest

def absorb (revision : ℕ) (shape : Bool) (expected : Option ℕ) : Except ErrorCode Info :=
  if shape && expected.all (revision == · + 1) then
    (applyRevision s.info revision s.info.contextId).mapError SdkError.code
  else .error .protocolError

/-- The cutover. -/
def commit (t : ℕ) (r : Rebind ι) (next : Info) : Session ι :=
  ({ s with
    info := next
    connection := r.connection
    retired := s.info.contextId :: s.retired }.remember s.info.contextId).set t
      (.deleting r s.info.contextId next)

def answer (t : ℕ) (value : Value) (aborted : Bool) : Option (Session ι) :=
  match s.tasks t, value with
  | .streaming current, .exchange metadata =>
    match sessionCheck s.info metadata (.session true current.contextId current.revision) with
    | .ok info => some ({ s with info := info }.finish t (.handed current))
    | .error _ => some (s.finish t .ended)
  | .commanding _ expected, .cookies revision shape =>
    match s.absorb revision shape expected with
    | .ok info => some ({ s with info := info }.finish t .ended)
    | .error _ => some (s.finish t .ended)
  | .exporting r, .cookies revision shape =>
    match s.absorb revision shape none with
    | .ok info => some ({ s with info := info }.set t (.creating r))
    | .error code => some (s.throwRebind t r code)
  | .creating r, .created contextId revision =>
    -- the service returns an identifier that it has not used before
    if contextId ∈ s.used then none
    else some (({ s with used := contextId :: s.used }.remember contextId).set t
      (.importing r ⟨contextId, revision⟩))
  | .importing r next, .cookies revision shape =>
    if !shape || revision != next.revision + 1 then
      some ((s.remember next.contextId).set t (.discarding r next .protocolError))
    else if aborted then some ((s.remember next.contextId).set t (.discarding r next .cancelled))
    else some (s.commit t r ⟨next.contextId, revision⟩)
  | .discarding r next code, .removed =>
    some ((s.removeContext next.contextId none).throwRebind t r code)
  | .deleting r previous next, .removed =>
    some ((s.removeContext previous none).finish t (.rebound r (.committed next)))
  | _, _ => none

def fail (t : ℕ) (failure : Failure) : Option (Session ι) :=
  match s.tasks t with
  | .streaming current =>
    some
      (((s.note failure current.contextId).markLost failure.code current.contextId).finish t .ended)
  | .commanding id _ => some (((s.note failure id).markLost failure.code id).finish t .ended)
  | .exporting r => some ((s.note failure r.id).throwRebind t r failure.code)
  | .creating r => some (s.throwRebind t r failure.code)
  | .importing r next =>
    some (((s.note failure next.contextId).remember next.contextId).set t
      (.discarding r next failure.code))
  | .discarding r next code =>
    some ((s.removeContext next.contextId (some failure)).throwRebind t r code)
  | .deleting r previous next =>
    some ((s.removeContext previous (some failure)).finish t (.rebound r
      (if failure.notFound then .committed next else .cleanupPending next failure.code)))
  | _ => none

def complete (t : ℕ) (failure : Option Failure) : Option (Session ι) :=
  match s.tasks t, failure with
  | .handed _, none => some (s.set t .ended)
  | .handed current, some failure =>
    some (((s.note failure current.contextId).markLost failure.code current.contextId).set t .ended)
  | _, _ => none

end Session

def Event.caller : Event ι → Option ℕ
  | .call t _ | .reject t _ | .grant t | .answer t _ _ | .fail t _ | .complete t _ => some t
  | .stopAccepting => none

def next (s : Session ι) : Event ι → Option (Session ι)
  | .call t request =>
    match s.tasks t with
    | .idle => some (s.call t request)
    | _ => none
  | .reject t failure =>
    match s.tasks t, failure with
    | .queued _, .answered _ => none
    | .queued request, failure => some (s.refuse t request failure.code)
    | _, _ => none
  | .grant t =>
    match s.tasks t, s.holder with
    | .queued request, none => some (s.grant t request)
    | _, _ => none
  | .answer t value aborted => s.answer t value aborted
  | .fail t failure => s.fail t failure
  | .complete t failure => s.complete t failure
  | .stopAccepting => some { s with closed := true }

def machine (info : Info) (connection : ι) : Machine (Session ι) (Event ι) :=
  ⟨.initial info connection, next⟩

def Task.staging : Task ι → Bool
  | .creating _ | .importing _ _ => true
  | _ => false

def Task.commits (revision : ℕ) (shape aborted : Bool) : Task ι → Bool
  | .importing _ next => shape && revision == next.revision + 1 && !aborted
  | _ => false

/-- The service finds the context that is being set up, and the old one has not been lost when
the new one takes over. -/
def guarded (s : Session ι) : Event ι → Bool
  | .fail t failure => !(failure == .answered .contextNotFound && (s.tasks t).staging)
  | .answer t (.cookies revision shape) aborted =>
    !(s.lost && (s.tasks t).commits revision shape aborted)
  | _ => true

def Task.working : Task ι → Bool
  | .idle | .queued _ | .handed _ | .rebound _ _ | .ended => false
  | _ => true

def Task.Fits (info : Info) (connection : ι) (used retired : List String) : Task ι → Prop
  | .streaming current => current = info
  | .commanding id _ => id = info.contextId
  | .exporting r | .creating r => info.contextId = r.id ∧ connection = r.old
  | .importing r next =>
    info.contextId = r.id ∧ connection = r.old ∧ next.contextId ≠ info.contextId ∧
      next.contextId ∈ used ∧ next.contextId ∉ retired
  | .discarding r _ code => info.contextId = r.id ∧ connection = r.old ∧ code ≠ .contextNotFound
  | .deleting r _ next => info = next ∧ connection = r.connection ∧ next.contextId ≠ r.id
  | _ => True

def LostOk (s : Session ι) : Prop := s.lost = true → s.info.contextId ∈ s.missing

structure Invariant (s : Session ι) : Prop where
  turn : ∀ t, (s.tasks t).working = true → s.holder = some t
  held : ∀ t, s.holder = some t → (s.tasks t).working = true
  fits : ∀ t, (s.tasks t).Fits s.info s.connection s.used s.retired
  current : s.info.contextId ∈ s.used ∧ s.info.contextId ∉ s.retired
  retired : ∀ id ∈ s.retired, id ∈ s.used
  lost : LostOk s

variable {s u v : Session ι} {t : ℕ} {task : Task ι}

theorem Task.fits_of_resting {info : Info} {connection : ι} {used retired : List String}
    (h : task.working = false) : task.Fits info connection used retired := by
  cases task <;> trivial

/-- While one task holds the permit, the others rest. -/
theorem Invariant.others (h : Invariant s) (hheld : s.holder = some t) :
    ∀ u, u ≠ t → (s.tasks u).working = false := by
  intro u hu
  by_contra hworking
  have hsame := (h.turn u (by simpa using hworking)).symm.trans hheld
  exact hu (Option.some.inj hsame)

theorem Invariant.resting (h : Invariant s) (hfree : s.holder = none) :
    ∀ u, u ≠ t → (s.tasks u).working = false := by
  intro u _
  by_contra hworking
  exact nomatch (h.turn u (by simpa using hworking)).symm.trans hfree

/-- A step of the only task that works. -/
theorem invariant_exclusive (task : Task ι)
    (hothers : ∀ u, u ≠ t → (s.tasks u).working = false)
    (htasks : v.tasks = fun u => if u = t then task else s.tasks u)
    (hholder : v.holder = if task.working then some t else none)
    (hfits : task.Fits v.info v.connection v.used v.retired)
    (hcurrent : v.info.contextId ∈ v.used ∧ v.info.contextId ∉ v.retired)
    (hretired : ∀ id ∈ v.retired, id ∈ v.used) (hlost : LostOk v) : Invariant v := by
  have hother : ∀ u, u ≠ t → (v.tasks u).working = false := by
    intro u hu
    rw [htasks]
    simpa [hu] using hothers u hu
  have hself : v.tasks t = task := by simp [htasks]
  refine ⟨?_, ?_, ?_, hcurrent, hretired, hlost⟩
  · intro u hworking
    by_cases hu : u = t
    · subst hu
      rw [hself] at hworking
      simp [hholder, hworking]
    · exact nomatch (hother u hu).symm.trans hworking
  · intro u hu
    rw [hholder] at hu
    split at hu
    next hworking =>
      cases hu
      rwa [hself]
    next => cases hu
  · intro u
    by_cases hu : u = t
    · subst hu
      rwa [hself]
    · exact Task.fits_of_resting (hother u hu)

structure Untouched (s u : Session ι) : Prop where
  info : u.info = s.info
  connection : u.connection = s.connection
  holder : u.holder = s.holder
  tasks : u.tasks = s.tasks
  used : u.used = s.used
  retired : u.retired = s.retired

theorem Untouched.refl (s : Session ι) : Untouched s s := ⟨rfl, rfl, rfl, rfl, rfl, rfl⟩

theorem Untouched.trans (h : Untouched s u) (k : Untouched u v) : Untouched s v :=
  ⟨k.info.trans h.info, k.connection.trans h.connection, k.holder.trans h.holder,
    k.tasks.trans h.tasks, k.used.trans h.used, k.retired.trans h.retired⟩

theorem markLost_untouched (s : Session ι) (code : ErrorCode) (id : String) :
    Untouched s (s.markLost code id) := by
  unfold Session.markLost
  split <;> exact ⟨rfl, rfl, rfl, rfl, rfl, rfl⟩

theorem note_untouched (s : Session ι) (failure : Failure) (id : String) :
    Untouched s (s.note failure id) := by
  unfold Session.note
  split <;> exact ⟨rfl, rfl, rfl, rfl, rfl, rfl⟩

theorem remember_untouched (s : Session ι) (id : String) : Untouched s (s.remember id) := by
  unfold Session.remember
  split <;> exact ⟨rfl, rfl, rfl, rfl, rfl, rfl⟩

theorem removeContext_untouched (s : Session ι) (id : String) (failure : Option Failure) :
    Untouched s (s.removeContext id failure) := by
  have hforget : ∀ u : Session ι, Untouched u (u.forget id) :=
    fun _ => ⟨rfl, rfl, rfl, rfl, rfl, rfl⟩
  cases failure with
  | none => exact hforget s
  | some failure =>
    simp only [Session.removeContext]
    split
    · exact (note_untouched s failure id).trans (hforget _)
    · exact (note_untouched s failure id).trans (remember_untouched _ id)

theorem LostOk.note (h : LostOk s) (failure : Failure) (id : String) :
    LostOk (s.note failure id) := by
  unfold Session.note
  split
  · exact fun hlost => List.mem_cons_of_mem _ (h hlost)
  · exact h

theorem LostOk.remember (h : LostOk s) (id : String) : LostOk (s.remember id) := by
  unfold Session.remember
  split <;> exact h

theorem LostOk.removeContext (h : LostOk s) (id : String) (failure : Option Failure) :
    LostOk (s.removeContext id failure) := by
  cases failure with
  | none => exact h
  | some failure =>
    simp only [Session.removeContext]
    split
    · exact h.note failure id
    · exact (h.note failure id).remember id

theorem LostOk.markLost (h : LostOk s) {code : ErrorCode} {id : String}
    (hcode : code = .contextNotFound → id ∈ s.missing) : LostOk (s.markLost code id) := by
  unfold Session.markLost
  split
  · next hlost =>
    intro _
    show s.info.contextId ∈ s.missing
    rw [hlost.1]
    exact hcode hlost.2
  · exact h

theorem notFound_answered {failure : Failure} (h : failure.code = .contextNotFound) :
    failure = .answered .contextNotFound := by
  cases failure with
  | answered code => rw [show code = .contextNotFound from h]
  | _ => cases h

/-- A command of a context rejects: what its handler marks is noted. -/
theorem LostOk.failed (h : LostOk s) (failure : Failure) (id : String) :
    LostOk ((s.note failure id).markLost failure.code id) := by
  apply (h.note failure id).markLost
  intro hcode
  have hanswered := notFound_answered hcode
  simp [Session.note, hanswered]

@[simp] theorem set_self (s : Session ι) (t : ℕ) (task : Task ι) :
    (s.set t task).tasks t = task := by
  simp [Session.set]

@[simp] theorem finish_self (s : Session ι) (t : ℕ) (task : Task ι) :
    (s.finish t task).tasks t = task := by
  simp [Session.finish, Session.set]

theorem Invariant.advance (h : Invariant s) (hheld : s.holder = some t) (hsame : Untouched s u)
    (hworking : task.working = true) (hfits : task.Fits s.info s.connection s.used s.retired)
    (hlost : LostOk u) : Invariant (u.set t task) := by
  apply invariant_exclusive task (h.others hheld)
  · simp [Session.set, hsame.tasks]
  · simp [Session.set, hsame.holder, hheld, hworking]
  · simpa [Session.set, hsame.info, hsame.connection, hsame.used, hsame.retired] using hfits
  · simpa [Session.set, hsame.info, hsame.used, hsame.retired] using h.current
  · simpa [Session.set, hsame.used, hsame.retired] using h.retired
  · exact hlost

theorem Invariant.release (h : Invariant s) (hheld : s.holder = some t) (hsame : Untouched s u)
    (hresting : task.working = false) (hlost : LostOk u) : Invariant (u.finish t task) := by
  apply invariant_exclusive task (h.others hheld)
  · simp [Session.finish, Session.set, hsame.tasks]
  · simp [Session.finish, Session.set, hsame.holder, hheld, hresting]
  · exact Task.fits_of_resting hresting
  · simpa [Session.finish, Session.set, hsame.info, hsame.used, hsame.retired] using h.current
  · simpa [Session.finish, Session.set, hsame.used, hsame.retired] using h.retired
  · exact hlost

/-- The handler of `mutate` for a rebind. -/
theorem Invariant.throwRebind (h : Invariant s) (hheld : s.holder = some t) (hsame : Untouched s u)
    (r : Rebind ι) {code : ErrorCode} (hlost : LostOk u)
    (hcode : code = .contextNotFound → r.id ∈ u.missing) : Invariant (u.throwRebind t r code) :=
  h.release hheld (hsame.trans (markLost_untouched u code r.id)) rfl (hlost.markLost hcode)

/-- Replies with a revision change nothing else. -/
theorem Invariant.revise (h : Invariant s) {info : Info}
    (hinfo : info.contextId = s.info.contextId) (hheld : s.holder = some t)
    (hresting : task.working = false) : Invariant ({ s with info := info }.finish t task) := by
  apply invariant_exclusive task (h.others hheld)
  · rfl
  · simp [Session.finish, Session.set, hheld, hresting]
  · exact Task.fits_of_resting hresting
  · simpa [Session.finish, Session.set, hinfo] using h.current
  · exact h.retired
  · intro hlost
    show info.contextId ∈ s.missing
    rw [hinfo]
    exact h.lost hlost

theorem applyRevision_contextId {info info' : Info} {value : ℕ} {id : String}
    (h : applyRevision info value id = .ok info') : info'.contextId = info.contextId := by
  unfold applyRevision at h
  split at h
  · cases h
    rfl
  · split at h
    · cases h
    · cases h
      rfl

theorem sessionCheck_contextId {info info' : Info} {metadata : ResponseMetadata} {target : Target}
    (h : sessionCheck info metadata target = .ok info') : info'.contextId = info.contextId := by
  unfold sessionCheck at h
  split at h
  · split at h
    · cases h
    · split at h
      · exact applyRevision_contextId h
      · cases h
        rfl
  · cases h
    rfl

theorem absorb_ok {revision : ℕ} {shape : Bool} {expected : Option ℕ} {info : Info}
    (h : s.absorb revision shape expected = .ok info) : info.contextId = s.info.contextId := by
  unfold Session.absorb at h
  split at h
  · cases happly : applyRevision s.info revision s.info.contextId with
    | error e =>
      rw [happly] at h
      cases h
    | ok info' =>
      rw [happly] at h
      cases h
      exact applyRevision_contextId happly
  · cases h

theorem absorb_error {revision : ℕ} {shape : Bool} {expected : Option ℕ} {code : ErrorCode}
    (h : s.absorb revision shape expected = .error code) : code ≠ .contextNotFound := by
  unfold Session.absorb applyRevision at h
  split at h
  · split at h
    · cases h
    · split at h
      · cases h
        decide
      · cases h
  · cases h
    decide

/-- The cutover of a session that is not lost. -/
theorem Invariant.commit (h : Invariant s) (hheld : s.holder = some t) (hlost : s.lost = false)
    {r : Rebind ι} (hid : s.info.contextId = r.id) {next : Info}
    (hnext : next.contextId ≠ s.info.contextId ∧ next.contextId ∈ s.used ∧
      next.contextId ∉ s.retired) : Invariant (s.commit t r next) := by
  obtain ⟨hne, hused, hnew⟩ := hnext
  have hsame := remember_untouched { s with
    info := next
    connection := r.connection
    retired := s.info.contextId :: s.retired } s.info.contextId
  apply invariant_exclusive (.deleting r s.info.contextId next) (h.others hheld)
  · simp [Session.commit, Session.set, hsame.tasks]
  · exact hsame.holder.trans hheld
  · exact ⟨hsame.info, hsame.connection, hid ▸ hne⟩
  · simp only [Session.commit, Session.set, hsame.info, hsame.used, hsame.retired, List.mem_cons,
      not_or]
    exact ⟨hused, hne, hnew⟩
  · simp only [Session.commit, Session.set, hsame.used, hsame.retired, List.mem_cons]
    rintro id (rfl | hmem)
    · exact h.current.1
    · exact h.retired id hmem
  · have hkept : (s.commit t r next).lost = s.lost := by
      simp only [Session.commit, Session.set, Session.remember]
      split <;> rfl
    intro hv
    exact nomatch (hkept.trans hlost).symm.trans hv

/-- The reply to the export is absorbed and the rebind goes on. -/
theorem Invariant.exported (h : Invariant s) (hheld : s.holder = some t) {r : Rebind ι}
    {info : Info} (hinfo : info.contextId = s.info.contextId) (hid : s.info.contextId = r.id)
    (hold : s.connection = r.old) : Invariant ({ s with info := info }.set t (.creating r)) := by
  apply invariant_exclusive (.creating r) (h.others hheld)
  · rfl
  · simp [Session.set, hheld, Task.working]
  · exact ⟨hinfo.trans hid, hold⟩
  · simpa [Session.set, hinfo] using h.current
  · exact h.retired
  · intro hlost
    show info.contextId ∈ s.missing
    rw [hinfo]
    exact h.lost hlost

/-- The service has created a context that it has not used before. -/
theorem Invariant.created (h : Invariant s) (hheld : s.holder = some t) {r : Rebind ι}
    {contextId : String} {revision : ℕ} (hfresh : contextId ∉ s.used)
    (hid : s.info.contextId = r.id) (hold : s.connection = r.old) :
    Invariant (({ s with used := contextId :: s.used }.remember contextId).set t
      (.importing r ⟨contextId, revision⟩)) := by
  have hsame := remember_untouched { s with used := contextId :: s.used } contextId
  apply invariant_exclusive (.importing r ⟨contextId, revision⟩) (h.others hheld)
  · simp [Session.set, hsame.tasks]
  · exact hsame.holder.trans hheld
  · refine ⟨?_, ?_, ?_, ?_, ?_⟩
    · exact (congrArg Info.contextId hsame.info).trans hid
    · exact hsame.connection.trans hold
    · intro heq
      apply hfresh
      rw [show contextId = _ from heq]
      exact (congrArg Info.contextId hsame.info) ▸ h.current.1
    · simp [Session.set, hsame.used]
    · simp only [Session.set, hsame.retired]
      exact fun hmem => hfresh (h.retired _ hmem)
  · simp only [Session.set, hsame.info, hsame.used, hsame.retired]
    exact ⟨List.mem_cons_of_mem _ h.current.1, h.current.2⟩
  · simp only [Session.set, hsame.used, hsame.retired]
    exact fun id hmem => List.mem_cons_of_mem _ (h.retired id hmem)
  · exact LostOk.remember (s := { s with used := contextId :: s.used }) h.lost contextId

theorem answer_step (h : Invariant s) {value : Value} {aborted : Bool}
    (hguard : guarded s (.answer t value aborted) = true) (hv : s.answer t value aborted = some v) :
    Invariant v := by
  have hfits := h.fits t
  unfold Session.answer at hv
  split at hv
  next current metadata htask =>
    have hheld : s.holder = some t := h.turn t (by rw [htask]; rfl)
    split at hv
    next info hok =>
      cases hv
      exact h.revise (sessionCheck_contextId hok) hheld rfl
    next =>
      cases hv
      exact h.release hheld (.refl s) rfl h.lost
  next id expected revision shape htask =>
    have hheld : s.holder = some t := h.turn t (by rw [htask]; rfl)
    split at hv
    next info hok =>
      cases hv
      exact h.revise (absorb_ok hok) hheld rfl
    next =>
      cases hv
      exact h.release hheld (.refl s) rfl h.lost
  next r revision shape htask =>
    have hheld : s.holder = some t := h.turn t (by rw [htask]; rfl)
    rw [htask] at hfits
    obtain ⟨hid, hold⟩ := hfits
    split at hv
    next info hok =>
      cases hv
      exact h.exported hheld (absorb_ok hok) hid hold
    next code herror =>
      cases hv
      exact h.throwRebind hheld (.refl s) r h.lost fun hcode => absurd hcode (absorb_error herror)
  next r contextId revision htask =>
    have hheld : s.holder = some t := h.turn t (by rw [htask]; rfl)
    rw [htask] at hfits
    obtain ⟨hid, hold⟩ := hfits
    split at hv
    next => cases hv
    next hfresh =>
      cases hv
      exact h.created hheld hfresh hid hold
  next r staged revision shape htask =>
    have hheld : s.holder = some t := h.turn t (by rw [htask]; rfl)
    rw [htask] at hfits
    obtain ⟨hid, hold, hne, hused, hnew⟩ := hfits
    split at hv
    next =>
      cases hv
      exact h.advance hheld (remember_untouched s _) rfl ⟨hid, hold, by decide⟩ (h.lost.remember _)
    next hshape =>
      split at hv
      next =>
        cases hv
        exact h.advance hheld (remember_untouched s _) rfl ⟨hid, hold, by decide⟩
          (h.lost.remember _)
      next haborted =>
        cases hv
        have hcommits : (s.tasks t).commits revision shape aborted = true := by
          rw [htask]
          simpa [Task.commits, haborted] using hshape
        have hlost : s.lost = false := by simpa [guarded, hcommits] using hguard
        exact h.commit hheld hlost hid ⟨hne, hused, hnew⟩
  next r staged code htask =>
    have hheld : s.holder = some t := h.turn t (by rw [htask]; rfl)
    rw [htask] at hfits
    cases hv
    exact h.throwRebind hheld (removeContext_untouched s _ _) r (h.lost.removeContext _ _)
      fun hcode => absurd hcode hfits.2.2
  next r previous staged htask =>
    have hheld : s.holder = some t := h.turn t (by rw [htask]; rfl)
    cases hv
    exact h.release hheld (removeContext_untouched s _ _) rfl (h.lost.removeContext _ _)
  next => cases hv

theorem fail_step (h : Invariant s) {failure : Failure}
    (hguard : guarded s (.fail t failure) = true) (hv : s.fail t failure = some v) :
    Invariant v := by
  have hfits := h.fits t
  have hstaging : (s.tasks t).staging = true → failure.code ≠ .contextNotFound := by
    intro hs hcode
    rw [notFound_answered hcode] at hguard
    simp [guarded, hs] at hguard
  unfold Session.fail at hv
  split at hv
  next current htask =>
    have hheld : s.holder = some t := h.turn t (by rw [htask]; rfl)
    cases hv
    exact h.release hheld ((note_untouched s failure _).trans (markLost_untouched _ _ _)) rfl
      (h.lost.failed failure _)
  next id expected htask =>
    have hheld : s.holder = some t := h.turn t (by rw [htask]; rfl)
    cases hv
    exact h.release hheld ((note_untouched s failure _).trans (markLost_untouched _ _ _)) rfl
      (h.lost.failed failure _)
  next r htask =>
    have hheld : s.holder = some t := h.turn t (by rw [htask]; rfl)
    cases hv
    refine h.throwRebind hheld (note_untouched s failure r.id) r (h.lost.note failure r.id) ?_
    intro hcode
    simp [Session.note, notFound_answered hcode]
  next r htask =>
    have hheld : s.holder = some t := h.turn t (by rw [htask]; rfl)
    cases hv
    exact h.throwRebind hheld (.refl s) r h.lost
      fun hcode => absurd hcode (hstaging (by rw [htask]; rfl))
  next r staged htask =>
    have hheld : s.holder = some t := h.turn t (by rw [htask]; rfl)
    rw [htask] at hfits
    cases hv
    exact h.advance hheld ((note_untouched s failure _).trans (remember_untouched _ _)) rfl
      ⟨hfits.1, hfits.2.1, hstaging (by rw [htask]; rfl)⟩ ((h.lost.note failure _).remember _)
  next r staged code htask =>
    have hheld : s.holder = some t := h.turn t (by rw [htask]; rfl)
    rw [htask] at hfits
    cases hv
    exact h.throwRebind hheld (removeContext_untouched s _ _) r (h.lost.removeContext _ _)
      fun hcode => absurd hcode hfits.2.2
  next r previous staged htask =>
    have hheld : s.holder = some t := h.turn t (by rw [htask]; rfl)
    cases hv
    exact h.release hheld (removeContext_untouched s _ _) rfl (h.lost.removeContext _ _)
  next => cases hv

/-- A step of a task that has no permit. -/
theorem Invariant.bystander (h : Invariant s) (hbefore : (s.tasks t).working = false)
    (hafter : task.working = false) (hsame : Untouched s u) (hlost : LostOk u) :
    Invariant (u.set t task) := by
  have hself : (u.set t task).tasks t = task := by simp [Session.set]
  have hother : ∀ i, i ≠ t → (u.set t task).tasks i = s.tasks i := by
    intro i hi
    simp [Session.set, hi, hsame.tasks]
  refine ⟨?_, ?_, ?_, ?_, ?_, hlost⟩
  · intro i hworking
    by_cases hi : i = t
    · subst hi
      rw [hself, hafter] at hworking
      cases hworking
    · rw [hother i hi] at hworking
      exact hsame.holder.trans (h.turn i hworking)
  · intro i hi
    have hworking := h.held i (hsame.holder.symm.trans hi)
    by_cases hne : i = t
    · subst hne
      exact nomatch hbefore.symm.trans hworking
    · rwa [hother i hne]
  · intro i
    by_cases hi : i = t
    · subst hi
      rw [hself]
      exact Task.fits_of_resting hafter
    · rw [hother i hi]
      simpa [Session.set, hsame.info, hsame.connection, hsame.used, hsame.retired] using h.fits i
  · simpa [Session.set, hsame.info, hsame.used, hsame.retired] using h.current
  · simpa [Session.set, hsame.used, hsame.retired] using h.retired

theorem Invariant.refuse (h : Invariant s) (hbefore : (s.tasks t).working = false)
    (request : Request ι) (code : ErrorCode) : Invariant (s.refuse t request code) := by
  have hfree : s.holder ≠ some t := fun hheld => nomatch hbefore.symm.trans (h.held t hheld)
  have hfinish : ∀ task : Task ι, s.finish t task = s.set t task := by
    intro task
    simp [Session.finish, hfree, Session.set]
  unfold Session.refuse
  rw [hfinish]
  refine h.bystander hbefore ?_ (.refl s) h.lost
  cases request <;> rfl

theorem call_step (h : Invariant s) (hidle : s.tasks t = .idle) (request : Request ι) :
    Invariant (s.call t request) := by
  have hbefore : (s.tasks t).working = false := by rw [hidle]; rfl
  unfold Session.call
  split
  · exact h.refuse hbefore request .cancelled
  · split
    · exact h.refuse hbefore request .contextNotFound
    · exact h.bystander hbefore rfl (.refl s) h.lost

theorem complete_step (h : Invariant s) {failure : Option Failure}
    (hv : s.complete t failure = some v) : Invariant v := by
  unfold Session.complete at hv
  split at hv
  next current htask =>
    cases hv
    exact h.bystander (by rw [htask]; rfl) rfl (.refl s) h.lost
  next current failure htask =>
    cases hv
    exact h.bystander (by rw [htask]; rfl) rfl
      ((note_untouched s failure _).trans (markLost_untouched _ _ _)) (h.lost.failed failure _)
  next => cases hv

/-- The permit is given to a task that starts with what the session is now. -/
theorem Invariant.start (h : Invariant s) (hfree : s.holder = none) (hworking : task.working = true)
    (hfits : task.Fits s.info s.connection s.used s.retired) :
    Invariant { s.set t task with holder := some t } := by
  apply invariant_exclusive task (h.resting hfree)
  · rfl
  · simp [hworking]
  · exact hfits
  · exact h.current
  · exact h.retired
  · exact h.lost

theorem grant_step (h : Invariant s) (hfree : s.holder = none) {request : Request ι}
    (hqueued : s.tasks t = .queued request) : Invariant (s.grant t request) := by
  have hbefore : (s.tasks t).working = false := by rw [hqueued]; rfl
  unfold Session.grant
  split
  · exact h.refuse hbefore request .contextNotFound
  · cases request with
    | stream => exact h.start hfree rfl rfl
    | command mutating => exact h.start hfree rfl rfl
    | rebind connection valid =>
      cases valid with
      | true => exact h.start hfree rfl ⟨rfl, rfl⟩
      | false => exact h.refuse hbefore _ .invalidRequest

theorem invariant_step {e : Event ι} (h : Invariant s) (hguard : guarded s e = true)
    (hv : next s e = some v) : Invariant v := by
  cases e with
  | call t request =>
    simp only [next] at hv
    split at hv
    next hidle =>
      cases hv
      exact call_step h hidle request
    next => cases hv
  | reject t failure =>
    simp only [next] at hv
    split at hv
    next => cases hv
    next request hqueued _ =>
      cases hv
      exact h.refuse (by rw [hqueued]; rfl) request _
    next => cases hv
  | grant t =>
    simp only [next] at hv
    split at hv
    next request hqueued hfree =>
      cases hv
      exact grant_step h hfree hqueued
    next => cases hv
  | answer t value aborted => exact answer_step h hguard hv
  | fail t failure => exact fail_step h hguard hv
  | complete t failure => exact complete_step h hv
  | stopAccepting =>
    cases hv
    exact ⟨h.turn, h.held, h.fits, h.current, h.retired, h.lost⟩

theorem invariant_initial (info : Info) (connection : ι) :
    Invariant (Session.initial info connection) := by
  refine ⟨?_, ?_, ?_, ?_, ?_, ?_⟩
  · exact fun _ hworking => nomatch hworking
  · exact fun _ hheld => nomatch hheld
  · exact fun _ => trivial
  · simp [Session.initial]
  · simp [Session.initial]
  · exact fun hlost => nomatch hlost

theorem invariant_run {info : Info} {connection : ι} {es : List (Event ι)}
    (hguard : (machine info connection).Along (fun s e _ => guarded s e = true)
      (.initial info connection) es)
    (hrun : (machine info connection).run (.initial info connection) es = some s) :
    Invariant s := by
  apply Machine.run_preserves_along _ (invariant_initial info connection) hguard hrun
  intro u e w h hc hw
  exact invariant_step h hc hw

end SessionRebind
