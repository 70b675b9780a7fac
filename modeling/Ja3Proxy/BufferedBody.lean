import Ja3Proxy.TransitionRuns
import Ja3Proxy.TypedArrays
import Mathlib.Data.Int.Notation
import Mathlib.Logic.Function.Basic

/-! `Ja3ProxyClient.buffer` (`packages/typescript/src/client.ts`) and `BufferBudget`
(`concurrency.ts`): any number of calls collect their bodies under one budget. A step runs one
call from one `await` to the next. -/
namespace BufferedBody

open TransitionRuns TypedArrays

/-- `granted` and `returned` are for proofs only: what each call has reserved and released. -/
structure BufferBudget where
  limit : ℕ
  retained : ℤ
  granted : ℕ → ℕ
  returned : ℕ → ℕ

namespace BufferBudget

variable (budget : BufferBudget) (i bytes : ℕ)

def reserve : Option BufferBudget :=
  if budget.retained + bytes > budget.limit then none
  else
    some { budget with
      retained := budget.retained + bytes
      granted := Function.update budget.granted i (budget.granted i + bytes) }

def release : BufferBudget :=
  { budget with
    retained := budget.retained - bytes
    returned := Function.update budget.returned i (budget.returned i + bytes) }

end BufferBudget

structure Buffering where
  blocks : List View
  current : View
  filled : ℕ
  retained : ℕ
  size : ℕ

structure Store where
  budget : BufferBudget
  heap : Heap

inductive Failure where
  | bufferLimit
  | range
  | stream
  | completion
  deriving DecidableEq, Repr

/-- How one pass of the inner loop ends; a thrown error leaves what was done before it. -/
inductive Pass where
  | again (offset : ℕ) (b : Buffering) (s : Store)
  | leave (b : Buffering) (s : Store)
  | threw (failure : Failure) (b : Buffering) (s : Store)

/-- `blocks.push(current); current = new Uint8Array(0); filled = 0` -/
def push (b : Buffering) (s : Store) : Buffering × Store :=
  ({ b with blocks := b.blocks ++ [b.current], current := (s.heap.alloc 0).1, filled := 0 },
    { s with heap := (s.heap.alloc 0).2 })

def borrow (i : ℕ) (chunk : View) (offset : ℕ) (b : Buffering) (s : Store) : Pass :=
  let remaining := chunk.subarray offset chunk.length
  match s.budget.reserve i (remaining.length * 2) with
  | none => .threw .bufferLimit b s
  | some budget =>
    .leave
      { b with
        retained := b.retained + remaining.length * 2
        current := remaining
        filled := remaining.length
        size := b.size + remaining.length }
      { s with budget := budget }

/-- `Math.min(65_536, Math.max(current.length * 2, filled + next.value.length - offset))` -/
def capacity (chunk : View) (offset : ℕ) (b : Buffering) : ℕ :=
  min 65536 (max (b.current.length * 2) (b.filled + chunk.length - offset))

def grow (i : ℕ) (chunk : View) (offset : ℕ) (b : Buffering) (s : Store) :
    Except (Failure × Buffering × Store) (Buffering × Store) :=
  let capacity := capacity chunk offset b
  let reservation := (capacity - b.current.length) * 2
  match s.budget.reserve i reservation with
  | none => .error (.bufferLimit, b, s)
  | some budget =>
    let b := { b with retained := b.retained + reservation }
    let grown := s.heap.alloc capacity
    match grown.2.set grown.1 b.current 0 with
    | none => .error (.range, b, ⟨budget, grown.2⟩)
    | some heap => .ok ({ b with current := grown.1 }, ⟨budget, heap⟩)

def copy (chunk : View) (offset : ℕ) (b : Buffering) (s : Store) : Pass :=
  let count := min (b.current.length - b.filled) (chunk.length - offset)
  match s.heap.set b.current (chunk.subarray offset (offset + count)) b.filled with
  | none => .threw .range b s
  | some heap =>
    .again (offset + count) { b with filled := b.filled + count, size := b.size + count }
      { s with heap := heap }

def fill (i : ℕ) (chunk : View) (offset : ℕ) (b : Buffering) (s : Store) : Pass :=
  if b.current.length = 0 then borrow i chunk offset b s
  else if b.filled = b.current.length then
    match grow i chunk offset b s with
    | .error (failure, b, s) => .threw failure b s
    | .ok (b, s) => copy chunk offset b s
  else copy chunk offset b s

def pass (i : ℕ) (chunk : View) (offset : ℕ) (b : Buffering) (s : Store) : Pass :=
  if b.filled = 65536 then fill i chunk offset (push b s).1 (push b s).2
  else fill i chunk offset b s

/-- `while (offset < next.value.length)`; the first argument bounds the passes, and `none` says
that it was too small. -/
def absorb (i : ℕ) (chunk : View) :
    ℕ → ℕ → Buffering → Store → Option (Option Failure × Buffering × Store)
  | fuel, offset, b, s =>
    if offset < chunk.length then
      match fuel with
      | 0 => none
      | fuel + 1 =>
        match pass i chunk offset b s with
        | .again offset b s => absorb i chunk fuel offset b s
        | .leave b s => some (none, b, s)
        | .threw failure b s => some (some failure, b, s)
    else some (none, b, s)

/-- `for (const block of blocks) { body.set(block, offset); offset += block.length; }` -/
def place (body : View) : List View → ℕ → Heap → Option (ℕ × Heap)
  | [], offset, heap => some (offset, heap)
  | block :: blocks, offset, heap =>
    (heap.set body block offset).bind (place body blocks (offset + block.length))

def assemble (b : Buffering) (heap : Heap) : Option (List UInt8 × Heap) := do
  let (body, heap) := heap.alloc b.size
  let (offset, heap) ← place body b.blocks 0 heap
  let heap ← heap.set body (b.current.subarray 0 b.filled) offset
  pure (heap.read body, heap)

/-- Where the call waits; `closing` and `settling` are the two awaits of the `catch` block. -/
inductive Stage where
  | pending
  | reading
  | completing
  | closing (failure : Failure)
  | settling (failure : Failure)
  | returned (body : List UInt8)
  | failed (failure : Failure)
  deriving DecidableEq, Repr

def Stage.ended : Stage → Bool
  | .returned _ => true
  | .failed _ => true
  | _ => false

/-- `chunks` is for proofs only: the chunks that `reader.read()` has given. -/
structure Call where
  stage : Stage
  vars : Buffering
  chunks : List (List UInt8)

inductive Act where
  | opened
  | chunk (value : View)
  | done
  | completed (ok : Bool)
  | closed
  | rejected
  deriving DecidableEq, Repr

namespace Call

def initial : Call := ⟨.pending, ⟨[], ⟨0, 0, 0⟩, 0, 0, 0⟩, []⟩

variable (c : Call) (i : ℕ)

def finish (stage : Stage) (s : Store) : Call × Store :=
  ({ c with stage := stage }, { s with budget := s.budget.release i c.vars.retained })

def fail (failure : Failure) : Call := { c with stage := .closing failure }

def take (value : View) (s : Store) : Option (Call × Store) :=
  let chunks := c.chunks ++ [s.heap.read value]
  match absorb i value value.length 0 c.vars s with
  | none => none
  | some (none, b, s) => some ({ c with vars := b, chunks := chunks }, s)
  | some (some failure, b, s) =>
    some (fail { c with vars := b, chunks := chunks } failure, s)

def complete (s : Store) : Call × Store :=
  match assemble c.vars s.heap with
  | none => (c.fail .range, s)
  | some (body, heap) => c.finish i (.returned body) { s with heap := heap }

def next (s : Store) : Act → Option (Call × Store)
  | .opened =>
    match c.stage with
    | .pending =>
      some ({ c with stage := .reading, vars := { c.vars with current := (s.heap.alloc 0).1 } },
        { s with heap := (s.heap.alloc 0).2 })
    | _ => none
  | .chunk value =>
    match c.stage with
    | .reading => c.take i value s
    | _ => none
  | .done =>
    match c.stage with
    | .reading => some ({ c with stage := .completing }, s)
    | _ => none
  | .completed ok =>
    match c.stage with
    | .completing => some (if ok then c.complete i s else (c.fail .completion, s))
    | .settling failure => some (c.finish i (.failed failure) s)
    | _ => none
  | .closed =>
    match c.stage with
    | .closing failure => some ({ c with stage := .settling failure }, s)
    | _ => none
  | .rejected =>
    match c.stage with
    | .pending => some ({ c with stage := .failed .stream }, s)
    | .reading => some (c.fail .stream, s)
    | .completing => some (c.fail .completion, s)
    | .closing failure => some (c.finish i (.failed failure) s)
    | .settling failure => some (c.finish i (.failed failure) s)
    | _ => none

end Call

/-- `supplied` is for proofs only: the buffers of the streams with their bytes. -/
structure World where
  store : Store
  supplied : List (ℕ × List UInt8)
  calls : List Call

inductive Event where
  | supply (bytes : List UInt8)
  | start
  | act (i : ℕ) (a : Act)
  deriving DecidableEq, Repr

namespace World

variable (w : World)

def Streamed (a : ℕ) : Prop := a ∈ w.supplied.map Prod.fst

instance (a : ℕ) : Decidable (w.Streamed a) := inferInstanceAs (Decidable (a ∈ _))

structure Lawful (value : View) : Prop where
  streamed : w.Streamed value.buffer
  fits : value.offset + value.length ≤ (w.store.heap.bytes value.buffer).length
  positive : 0 < value.length
  bounded : value.length ≤ 65536

instance (value : View) : Decidable (w.Lawful value) :=
  decidable_of_iff (w.Streamed value.buffer ∧
      value.offset + value.length ≤ (w.store.heap.bytes value.buffer).length ∧
      0 < value.length ∧ value.length ≤ 65536)
    ⟨fun ⟨a, b, c, d⟩ => ⟨a, b, c, d⟩, fun ⟨a, b, c, d⟩ => ⟨a, b, c, d⟩⟩

def Allowed : Act → Prop
  | .chunk value => w.Lawful value
  | _ => True

instance : (a : Act) → Decidable (w.Allowed a)
  | .chunk value => inferInstanceAs (Decidable (w.Lawful value))
  | .opened => isTrue trivial
  | .done => isTrue trivial
  | .completed _ => isTrue trivial
  | .closed => isTrue trivial
  | .rejected => isTrue trivial

def step (i : ℕ) (a : Act) : Option World :=
  if w.Allowed a then
    w.calls[i]?.bind fun c =>
      (c.next i w.store a).map fun r => { w with store := r.2, calls := w.calls.set i r.1 }
  else none

def next : Event → Option World
  | .supply bytes =>
    some { w with
      store := { w.store with heap := w.store.heap.insert bytes }
      supplied := w.supplied ++ [(w.store.heap.fresh, bytes)] }
  | .start => some { w with calls := w.calls ++ [Call.initial] }
  | .act i a => w.step i a

end World

def machine (limit : ℕ) : Machine World Event where
  initial := ⟨⟨⟨limit, 0, fun _ => 0, fun _ => 0⟩, ⟨[], []⟩⟩, [], []⟩
  next := World.next

end BufferedBody
