import Mathlib.Data.Nat.Notation

/-! The lifetime of a transport context (`src/contexts.rs`). Instants and durations are
nanoseconds of one monotone clock; `saturating_duration_since` is the subtraction of `ℕ`. -/
namespace ContextLifetime

structure Lifetime where
  created : ℕ
  touched : ℕ
  closed : Bool
  deriving DecidableEq, Repr

structure Ages where
  idleTtl : ℕ
  maxAge : ℕ
  deriving DecidableEq, Repr

def deadline (a : Ages) (l : Lifetime) : ℕ := min (l.touched - l.created + a.idleTtl) a.maxAge

def Lifetime.dead (a : Ages) (l : Lifetime) (now : ℕ) : Bool :=
  l.closed || deadline a l ≤ now - l.created

/-- `Context::touch` once the lock is taken, with the clock value read before. -/
def Lifetime.touch (a : Ages) (l : Lifetime) (now : ℕ) : Option Lifetime :=
  if l.dead a now then none else some { l with touched := now }

theorem dead_of_closed {a : Ages} {l : Lifetime} {now : ℕ} (h : l.closed = true) :
    l.dead a now = true := by
  simp [Lifetime.dead, h]

end ContextLifetime
