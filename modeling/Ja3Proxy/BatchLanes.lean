import Ja3Proxy.TransitionRuns
import Ja3Proxy.TypedArrays
import Ja3Proxy.ListTotals
import Mathlib.Data.Int.Notation
import Mathlib.Logic.Function.Basic

/-! The lanes of a synchronous batch (`packages/typescript/src/sync/worker.ts`): they share an
index and two byte counters, and each runs one request at a time. A step runs one lane from one
`await` to the next. -/
namespace BatchLanes

open TransitionRuns TypedArrays

variable {ρ ε : Type*}

structure Config (ρ : Type*) where
  requests : List ρ
  concurrency : ℕ
  maxTotalBytes : ℕ
  positive : 0 < concurrency

def Config.maxWorkingBytes (cfg : Config ρ) : ℕ := 2 * cfg.maxTotalBytes

structure Chunk where
  bytes : List UInt8
  byteOffset : ℕ
  bufferLength : ℕ
  shared : Bool
  deriving DecidableEq, Repr

def Chunk.byteLength (c : Chunk) : ℕ := c.bytes.length

/-- The errors of an execution. `bufferLimit` records, for proofs only, the payload total and the
size of the chunk that was refused. -/
inductive Failure (ε : Type*) where
  | bufferLimit (payload : ℤ) (chunk : ℕ)
  | assemblyLimit
  | range
  | stream (error : ε)
  | timeout
  deriving DecidableEq, Repr

inductive BatchResult (ε : Type*) where
  | ok (body : List UInt8)
  | error (failure : Failure ε)
  deriving DecidableEq, Repr

/-- Where an execution waits; in `settling` for `stream.close()` and for the lane to go on. -/
inductive Stage (ε : Type*) where
  | opening
  | reading
  | completing
  | settling (result : BatchResult ε)
  deriving DecidableEq, Repr

structure Execution (ρ ε : Type*) where
  index : ℕ
  options : ρ
  chunks : List Chunk
  bytes : ℕ
  reservedWorkingBytes : ℕ
  stage : Stage ε

/-- A lane is `none` after it has returned. The last three fields are for proofs only: the calls
of `execute`, the chunks that the stream of each request gave, and what each call returned. -/
structure Batch (ρ ε : Type*) where
  begun : Bool
  aborted : Bool
  next : ℕ
  payloadBytes : ℤ
  workingBytes : ℤ
  output : List (Option (BatchResult ε))
  lanes : List (Option (Execution ρ ε))
  executed : List (ℕ × ρ)
  heard : ℕ → List Chunk
  answered : ℕ → Option (BatchResult ε)

inductive Act (ε : Type*) where
  | opened
  | chunk (value : Chunk)
  | done
  | completed
  | rejected (error : ε)
  | settled

inductive Event (ε : Type*) where
  | start
  | abort
  | act (lane : ℕ) (a : Act ε)

/-- `for (const chunk of chunks) { body.set(chunk, offset); offset += chunk.byteLength; }` -/
def join : List Chunk → ℕ → List UInt8 → Option (List UInt8)
  | [], _, body => some body
  | c :: chunks, offset, body =>
    if offset + c.byteLength ≤ body.length then
      join chunks (offset + c.byteLength) (splice offset c.bytes body)
    else none

def reusable : List Chunk → Option (List UInt8)
  | [c] =>
    if c.shared || c.byteOffset != 0 || c.byteLength != c.bufferLength then none
    else some c.bytes
  | _ => none

namespace Batch

variable (cfg : Config ρ) (b : Batch ρ ε) (l : ℕ) (e : Execution ρ ε)

def answer (result : BatchResult ε) : Batch ρ ε :=
  { b with
    lanes := b.lanes.set l (some { e with stage := .settling result })
    answered := Function.update b.answered e.index (some result) }

def fail (failure : Failure ε) : Batch ρ ε :=
  answer
    { b with
      payloadBytes := b.payloadBytes - e.bytes
      workingBytes := b.workingBytes - e.reservedWorkingBytes }
    l e (.error failure)

def wait (e : Execution ρ ε) : Batch ρ ε := { b with lanes := b.lanes.set l (some e) }

def receive (value : Chunk) : Batch ρ ε :=
  let b := { b with heard := Function.update b.heard e.index (b.heard e.index ++ [value]) }
  if b.payloadBytes + value.byteLength > (cfg.maxTotalBytes : ℤ) ∨
      b.workingBytes + value.byteLength > (cfg.maxWorkingBytes : ℤ) then
    b.fail l e (.bufferLimit b.payloadBytes value.byteLength)
  else
    wait
      { b with
        payloadBytes := b.payloadBytes + value.byteLength
        workingBytes := b.workingBytes + value.byteLength }
      l
      { e with
        reservedWorkingBytes := e.reservedWorkingBytes + value.byteLength
        bytes := e.bytes + value.byteLength
        chunks := e.chunks ++ [value] }

def assemble : Batch ρ ε :=
  match reusable e.chunks with
  | some body => b.answer l e (.ok body)
  | none =>
    if b.workingBytes + e.bytes > (cfg.maxWorkingBytes : ℤ) then b.fail l e .assemblyLimit
    else
      let b := { b with workingBytes := b.workingBytes + e.bytes }
      let e := { e with reservedWorkingBytes := e.reservedWorkingBytes + e.bytes }
      match join e.chunks 0 (List.replicate e.bytes 0) with
      | none => b.fail l e .range
      | some body =>
        answer { b with workingBytes := b.workingBytes - e.bytes } l
          { e with chunks := [], reservedWorkingBytes := e.reservedWorkingBytes - e.bytes }
          (.ok body)

/-- `const index = next++` and the start of `execute`; the first argument bounds the passes, and
`none` says that it was too small. -/
def lane : ℕ → Batch ρ ε → Option (Batch ρ ε)
  | fuel, b =>
    match cfg.requests[b.next]? with
    | none => some { b with next := b.next + 1, lanes := b.lanes.set l none }
    | some options =>
      if b.aborted then
        match fuel with
        | 0 => none
        | fuel + 1 =>
          lane fuel
            { b with
              next := b.next + 1
              output := b.output.set b.next (some (.error .timeout)) }
      else
        some
          { b with
            next := b.next + 1
            lanes := b.lanes.set l (some ⟨b.next, options, [], 0, 0, .opening⟩)
            executed := b.executed ++ [(b.next, options)] }

/-- `output[index] = await execute(options)` and the next passes of the lane. -/
def settle (result : BatchResult ε) : Option (Batch ρ ε) :=
  lane cfg l cfg.requests.length
    { b with
      output := b.output.set e.index (some result)
      lanes := b.lanes.set l none }

def step : Act ε → Option (Batch ρ ε)
  | .opened =>
    match e.stage with
    | .opening => some (b.wait l { e with stage := .reading })
    | _ => none
  | .chunk value =>
    match e.stage with
    | .reading => some (b.receive cfg l e value)
    | _ => none
  | .done =>
    match e.stage with
    | .reading => some (b.wait l { e with stage := .completing })
    | _ => none
  | .completed =>
    match e.stage with
    | .completing => some (b.assemble cfg l e)
    | _ => none
  | .rejected error =>
    match e.stage with
    | .settling _ => none
    | _ => some (b.fail l e (.stream error))
  | .settled =>
    match e.stage with
    | .settling result => b.settle cfg l e result
    | _ => none

def begin : ℕ → Batch ρ ε → Option (Batch ρ ε)
  | 0, b => some b
  | k + 1, b =>
    (lane cfg b.lanes.length cfg.requests.length { b with lanes := b.lanes ++ [none] }).bind
      (begin k)

def advance : Event ε → Option (Batch ρ ε)
  | .start =>
    if b.begun then none
    else begin cfg (min cfg.concurrency cfg.requests.length) { b with begun := true }
  | .abort => some { b with aborted := true }
  | .act l a =>
    match b.lanes[l]? with
    | some (some e) => b.step cfg l e a
    | _ => none

end Batch

def machine (cfg : Config ρ) : Machine (Batch ρ ε) (Event ε) where
  initial :=
    { begun := false
      aborted := false
      next := 0
      payloadBytes := 0
      workingBytes := 0
      output := List.replicate cfg.requests.length none
      lanes := []
      executed := []
      heard := fun _ => []
      answered := fun _ => none }
  next := Batch.advance cfg

end BatchLanes
