import Mathlib.Algebra.Group.Nat.Defs
import Ja3Proxy.TransportErrors

/-! `RequestRecord` of `src/registry.rs`: diagnostics that freeze when the request finishes.
Every method runs under the progress lock. Instants are nanoseconds of one clock. -/
namespace RequestRecord

open TransportErrors

inductive RequestState where
  | queued | active | complete | failed
  deriving DecidableEq, Repr

structure RequestStatus where
  state : RequestState
  diagnostics : Diagnostics
  error : Option TransportError
  deriving DecidableEq, Repr

structure Record where
  started : ℕ
  queuedAt : ℕ
  diagnostics : Diagnostics
  finished : Option ℕ
  error : Option TransportError
  deriving DecidableEq, Repr

/-- `instant.elapsed().as_millis() as u64` -/
def elapsedMs (start now : ℕ) : ℕ := (now - start) / 1000000 % 2 ^ 64

def markDispatched (d : Diagnostics) : Diagnostics :=
  { d with phase := .upstream, delivery := .possiblySent }

def markResponse (started now : ℕ) (d : Diagnostics) : Diagnostics :=
  { d with headersMs := some (elapsedMs started now), delivery := .responseStarted }

def markBody (started now : ℕ) (d : Diagnostics) : Diagnostics :=
  match d.headersMs with
  | some headersMs => { d with bodyMs := some (elapsedMs started now - headersMs) }
  | none => d

/-- The time fields of an unfinished request, as every reader fills them in. -/
def Record.timed (r : Record) (now : ℕ) (d : Diagnostics) : Diagnostics :=
  let d := { d with totalMs := elapsedMs r.started now }
  if d.phase = .queued then { d with queueMs := elapsedMs r.queuedAt now } else d

def Record.update (r : Record) (f : Diagnostics → Diagnostics) : Record :=
  if r.finished.isNone then { r with diagnostics := f r.diagnostics } else r

def Record.diagnosticsAt (r : Record) (now : ℕ) : Diagnostics :=
  if r.finished.isNone then r.timed now r.diagnostics else r.diagnostics

def Record.statusLocked (r : Record) : RequestStatus where
  state :=
    if r.error.isSome then .failed
    else if r.finished.isSome then .complete
    else if r.diagnostics.phase = .queued then .queued
    else .active
  diagnostics := r.diagnostics
  error := r.error

def Record.statusAt (r : Record) (now : ℕ) : RequestStatus :=
  if r.finished.isNone then
    { r.statusLocked with diagnostics := r.timed now r.diagnostics }
  else r.statusLocked

def Record.close (r : Record) (now : ℕ) (error : Option TransportError) : Record :=
  let d := r.timed now r.diagnostics
  let d := if error.isNone then { d with phase := .complete } else d
  { r with
    diagnostics := d
    error := error.map fun e => e.withDiagnostics d
    finished := some now }

def Record.finish (r : Record) (now : ℕ) (error : Option TransportError) :
    Record × RequestStatus :=
  let r := if r.finished.isNone then r.close now error else r
  (r, r.statusLocked)

theorem update_finished {r : Record} (h : r.finished ≠ none) (f : Diagnostics → Diagnostics) :
    r.update f = r := by
  simp [Record.update, h]

theorem finish_finished {r : Record} (h : r.finished ≠ none) (now : ℕ)
    (e : Option TransportError) : r.finish now e = (r, r.statusLocked) := by
  simp [Record.finish, h]

theorem diagnosticsAt_finished {r : Record} (h : r.finished ≠ none) (now : ℕ) :
    r.diagnosticsAt now = r.diagnostics := by
  simp [Record.diagnosticsAt, h]

theorem statusAt_finished {r : Record} (h : r.finished ≠ none) (now : ℕ) :
    r.statusAt now = r.statusLocked := by
  simp [Record.statusAt, h]

@[simp] theorem timed_delivery (r : Record) (now : ℕ) (d : Diagnostics) :
    (r.timed now d).delivery = d.delivery := by
  simp only [Record.timed]
  split <;> rfl

@[simp] theorem finish_delivery (r : Record) (now : ℕ) (e : Option TransportError) :
    (r.finish now e).1.diagnostics.delivery = r.diagnostics.delivery := by
  simp only [Record.finish, Record.close]
  split
  · cases e <;> simp
  · rfl

@[simp] theorem finish_isFinished (r : Record) (now : ℕ) (e : Option TransportError) :
    (r.finish now e).1.finished ≠ none := by
  simp only [Record.finish]
  split
  · simp [Record.close]
  · rename_i h
    simpa using h

theorem update_open {r : Record} (h : r.finished = none) (f : Diagnostics → Diagnostics) :
    (r.update f).diagnostics = f r.diagnostics ∧ (r.update f).finished = none := by
  simp [Record.update, h]

end RequestRecord
