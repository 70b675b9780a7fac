import Ja3Proxy.CountTables
import Ja3Proxy.SafeIntegers
import Ja3Proxy.SdkErrors
import Ja3Proxy.TransitionRuns

/-! Admission of exchanges in the SDK (`Admission` of `concurrency.ts`).
Every method and every closure it hands out runs to its end, and one of them is one step.
A promise is the entry that its settlement leaves in the log; a permit or a reservation is the
closure that releases it, with its own `released`. -/
namespace SdkAdmission

open CountTables SafeIntegers SdkErrors TransitionRuns

structure Limits where
  maxConcurrent : ℤ
  maxConcurrentPerPartition : ℤ
  maxQueued : ℤ
  maxQueuedPerPartition : ℤ
  deriving DecidableEq, Repr

structure Deadline where
  elapsedMs : ℕ := 0
  timedOut : Bool := false
  aborted : Bool := false
  reason : Option FailureKind := none
  deriving DecidableEq, Repr

/-- Who aborts the controller of a deadline: its timer, its parent signal or `Lifetime.close`. -/
inductive Cause where
  | timer
  | parent (timedOut : Bool) (kind : Option FailureKind)
  | closing
  deriving DecidableEq, Repr

/-- `controller.abort(reason)`: only the first one counts. -/
def Deadline.signal (d : Deadline) (kind : Option FailureKind) : Deadline :=
  if d.aborted then d else { d with aborted := true, reason := kind }

def Deadline.abort (d : Deadline) : Cause → Deadline
  | .timer => { d with timedOut := true }.signal none
  | .parent timedOut kind =>
    { d with timedOut := timedOut }.signal (if timedOut then none else kind)
  | .closing => d.signal (some .clientClosed)

def Deadline.error (d : Deadline) (diag : Diagnostics) (usedProxy : Bool) : SdkError :=
  deadlineError d.timedOut d.reason diag d.elapsedMs usedProxy

/-- The arguments of a call of `acquire`. The ticket is the identity of the object in the set. -/
structure Waiting where
  ticket : ℕ
  partition : String
  deadline : ℕ
  diag : Diagnostics
  usedProxy : Bool
  deriving DecidableEq, Repr

structure Admission where
  limits : Limits
  active : ℤ := 0
  byPartition : Table String := .empty
  queuedByPartition : Table String := .empty
  waiting : List Waiting := []
  reserved : ℤ := 0
  reservedByPartition : Table String := .empty

def queueFull (diag : Diagnostics) (usedProxy : Bool) : SdkError :=
  .new .busy { diag with phase := .queued } usedProxy (some .queueFull)

namespace Admission

def new (limits : Limits) : Except SdkError Admission :=
  if !positive limits.maxConcurrent || !positive limits.maxConcurrentPerPartition ||
      !nonnegativeInteger limits.maxQueued || !nonnegativeInteger limits.maxQueuedPerPartition then
    .error (localError .invalidRequest (some .invalidInput))
  else .ok { limits := limits }

variable (a : Admission)

def constrain (limits : Limits) : Admission :=
  { a with limits :=
    { maxConcurrent := min a.limits.maxConcurrent limits.maxConcurrent
      maxConcurrentPerPartition :=
        min a.limits.maxConcurrentPerPartition limits.maxConcurrentPerPartition
      maxQueued := min a.limits.maxQueued limits.maxQueued
      maxQueuedPerPartition := min a.limits.maxQueuedPerPartition limits.maxQueuedPerPartition } }

def reserve (partition : String) (diag : Diagnostics) (usedProxy : Bool) :
    Except SdkError Admission :=
  if a.limits.maxConcurrent + a.limits.maxQueued ≤ a.reserved ∨
      a.limits.maxConcurrentPerPartition + a.limits.maxQueuedPerPartition ≤
        (a.reservedByPartition partition).getD 0 then
    .error (queueFull diag usedProxy)
  else .ok { a with
    reserved := a.reserved + 1
    reservedByPartition := increment a.reservedByPartition partition }

/-- The release function of a reservation, the first time. -/
def unreserve (partition : String) : Admission :=
  { a with
    reserved := a.reserved - 1
    reservedByPartition := decrement a.reservedByPartition partition }

def available (partition : String) : Bool :=
  a.active < a.limits.maxConcurrent &&
    (a.byPartition partition).getD 0 < a.limits.maxConcurrentPerPartition

def occupy (partition : String) : Admission :=
  { a with
    active := a.active + 1
    byPartition := increment a.byPartition partition }

/-- The release function of a permit, the first time, up to its `dispatch`. -/
def vacate (partition : String) : Admission :=
  { a with
    active := a.active - 1
    byPartition := decrement a.byPartition partition }

def full (partition : String) : Bool :=
  a.limits.maxQueued ≤ (a.waiting.length : ℤ) ||
    a.limits.maxQueuedPerPartition ≤ (a.queuedByPartition partition).getD 0

def enqueue (item : Waiting) : Admission :=
  { a with
    waiting := a.waiting ++ [item]
    queuedByPartition := increment a.queuedByPartition item.partition }

def remove (item : Waiting) : Option Admission :=
  if item ∈ a.waiting then
    some { a with
      waiting := a.waiting.erase item
      queuedByPartition := decrement a.queuedByPartition item.partition }
  else none

end Admission

structure Permit where
  partition : String
  released : Bool := false
  deriving DecidableEq, Repr

inductive Result where
  | granted
  | rejected (e : SdkError)
  deriving DecidableEq, Repr

/-- A settled promise, with the counters, the permits and the signal of its deadline just
before. -/
structure Settlement where
  item : Waiting
  result : Result
  before : Admission
  held : List Permit
  aborted : Bool

structure World where
  admission : Admission
  deadline : ℕ → Deadline
  requests : List Waiting
  permits : List Permit
  reservations : List Permit
  log : List Settlement

def World.initial (a : Admission) : World where
  admission := a
  deadline := fun _ => {}
  requests := []
  permits := []
  reservations := []
  log := []

namespace World

variable (w : World)

def aborted (item : Waiting) : Bool := (w.deadline item.deadline).aborted

def settle (item : Waiting) (result : Result) (a : Admission) : World :=
  { w with
    admission := a
    log := w.log ++ [⟨item, result, w.admission, w.permits, w.aborted item⟩] }

/-- `resolve(this.occupy(partition))` over the counters `a`. -/
def grant (item : Waiting) (a : Admission) : World :=
  { w.settle item .granted (a.occupy item.partition) with
    permits := w.permits ++ [⟨item.partition, false⟩] }

def deadlineError (item : Waiting) (diag : Diagnostics) : SdkError :=
  (w.deadline item.deadline).error diag item.usedProxy

def serve (item : Waiting) : World :=
  if w.admission.available item.partition then
    let removed := (w.admission.remove item).getD w.admission
    if w.aborted item then w.settle item (.rejected (w.deadlineError item item.diag)) removed
    else w.grant item removed
  else w

/-- The loop over the set: it only deletes the item it stands at, so it visits every item in the
order in which they were added. -/
def dispatch : World := w.admission.waiting.foldl serve w

def acquire (item : Waiting) : World :=
  if w.aborted item then
    w.settle item (.rejected (w.deadlineError item item.diag)) w.admission
  else if w.admission.available item.partition &&
      !(w.admission.queuedByPartition item.partition).isSome then
    w.grant item w.admission
  else if w.admission.full item.partition then
    w.settle item (.rejected (queueFull item.diag item.usedProxy)) w.admission
  else { w with admission := w.admission.enqueue item }

/-- `item.abort` -/
def abandon (item : Waiting) : World :=
  match w.admission.remove item with
  | none => w
  | some a =>
    (w.settle item
      (.rejected (w.deadlineError item { item.diag with phase := .queued })) a).dispatch

/-- The release function of the permit `n`. -/
def release (n : ℕ) (p : Permit) : World :=
  if p.released then w
  else
    { w with
      admission := w.admission.vacate p.partition
      permits := w.permits.set n { p with released := true } }.dispatch

def releaseReservation (n : ℕ) (p : Permit) : World :=
  if p.released then w
  else
    { w with
      admission := w.admission.unreserve p.partition
      reservations := w.reservations.set n { p with released := true } }

def reserve (partition : String) (diag : Diagnostics) (usedProxy : Bool) : World :=
  match w.admission.reserve partition diag usedProxy with
  | .error _ => w
  | .ok a => { w with admission := a, reservations := w.reservations ++ [⟨partition, false⟩] }

end World

/-- An abort first raises the flag of the signal (`abort`); its listeners run after that, one by
one and with whatever other listeners do in between (`listener`). -/
inductive Event where
  | tick (d : ℕ) (ms : ℕ)
  | reserve (partition : String) (diag : Diagnostics) (usedProxy : Bool)
  | releaseReservation (n : ℕ)
  | acquire (partition : String) (d : ℕ) (diag : Diagnostics) (usedProxy : Bool)
  | release (n : ℕ)
  | abort (d : ℕ) (cause : Cause)
  | listener (item : Waiting)
  | constrain (limits : Limits)

def World.put (w : World) (d : ℕ) (x : Deadline) : World :=
  { w with deadline := Function.update w.deadline d x }

def next (w : World) : Event → Option World
  | .tick d ms =>
    some (w.put d { w.deadline d with elapsedMs := (w.deadline d).elapsedMs + ms })
  | .reserve partition diag usedProxy => some (w.reserve partition diag usedProxy)
  | .releaseReservation n => (w.reservations[n]?).map (w.releaseReservation n)
  | .acquire partition d diag usedProxy =>
    let item := ⟨w.requests.length, partition, d, diag, usedProxy⟩
    some ({ w with requests := w.requests ++ [item] }.acquire item)
  | .release n => (w.permits[n]?).map (w.release n)
  | .abort d cause => some (w.put d ((w.deadline d).abort cause))
  | .listener item => if item ∈ w.requests ∧ w.aborted item then some (w.abandon item) else none
  | .constrain limits => some { w with admission := w.admission.constrain limits }

def machine (a : Admission) : Machine World Event := ⟨.initial a, next⟩

end SdkAdmission
