import Mathlib.Data.List.Basic

/-! Byte buffers under numbers and views of them, after ECMAScript's `Uint8Array`.
Nothing here depends on the modelled program. -/
namespace TypedArrays

/-- A typed array: a part of one buffer. -/
structure View where
  buffer : ℕ
  offset : ℕ
  length : ℕ
  deriving DecidableEq, Repr

/-- `subarray` with bounds that are not negative. -/
def View.subarray (v : View) (start stop : ℕ) : View :=
  ⟨v.buffer, v.offset + min start v.length, min stop v.length - min start v.length⟩

/-- `written` records, for proofs only, the buffers that a `set` had as its target. -/
structure Heap where
  buffers : List (List UInt8)
  written : List ℕ
  deriving DecidableEq, Repr

def splice (pos : ℕ) (new old : List UInt8) : List UInt8 :=
  old.take pos ++ new ++ old.drop (pos + new.length)

namespace Heap

variable (h : Heap)

def fresh : ℕ := h.buffers.length

def bytes (a : ℕ) : List UInt8 := h.buffers.getD a []

def read (v : View) : List UInt8 := ((h.bytes v.buffer).drop v.offset).take v.length

def insert (content : List UInt8) : Heap := { h with buffers := h.buffers ++ [content] }

/-- `new Uint8Array(n)` -/
def alloc (n : ℕ) : View × Heap := (⟨h.fresh, 0, n⟩, h.insert (List.replicate n 0))

/-- `target.set(source, pos)`; `none` stands for its `RangeError`. -/
def set (target source : View) (pos : ℕ) : Option Heap :=
  if pos + source.length ≤ target.length then
    some
      { buffers := h.buffers.modify target.buffer (splice (target.offset + pos) (h.read source))
        written := target.buffer :: h.written }
  else none

structure Valid (v : View) : Prop where
  live : v.buffer < h.fresh
  fits : v.offset + v.length ≤ (h.bytes v.buffer).length

end Heap

theorem length_splice {pos : ℕ} {new old : List UInt8} (h : pos + new.length ≤ old.length) :
    (splice pos new old).length = old.length := by
  simp only [splice, List.length_append, List.length_take, List.length_drop]
  omega

/-- What was filled up to `pos` stays and the new bytes follow it. -/
theorem take_splice {pos : ℕ} {new old : List UInt8} (h : pos ≤ old.length) :
    (splice pos new old).take (pos + new.length) = old.take pos ++ new := by
  have hlen : (old.take pos ++ new).length = pos + new.length := by
    simp only [List.length_append, List.length_take]
    omega
  rw [splice, ← hlen, List.take_left]

/-- Two splices one after the other. -/
theorem splice_splice {pos : ℕ} {new more old : List UInt8} (h : pos ≤ old.length) :
    splice (pos + new.length) more (splice pos new old) = splice pos (new ++ more) old := by
  have hlen : (old.take pos ++ new).length = pos + new.length := by
    simp only [List.length_append, List.length_take]
    omega
  have hdrop : (splice pos new old).drop (pos + new.length + more.length) =
      old.drop (pos + (new ++ more).length) := by
    rw [splice, List.drop_append, List.drop_eq_nil_of_le (by omega), List.nil_append,
      List.drop_drop, hlen, List.length_append]
    congr 1
    omega
  rw [splice, take_splice h, hdrop, splice, List.append_assoc (old.take pos)]

/-- A window of a buffer that is spliced inside the window. -/
theorem window_splice {start len pos : ℕ} {new old : List UInt8}
    (hpos : pos + new.length ≤ len) (hlen : start + len ≤ old.length) :
    ((splice (start + pos) new old).drop start).take len =
      splice pos new ((old.drop start).take len) := by
  apply List.ext_getElem?
  intro i
  simp only [splice, List.getElem?_take, List.getElem?_drop, List.getElem?_append,
    List.length_append, List.length_take, List.length_drop]
  grind

namespace Heap

variable {h : Heap}

theorem length_read {v : View} (hv : h.Valid v) : (h.read v).length = v.length := by
  have := hv.fits
  simp only [read, List.length_take, List.length_drop]
  omega

theorem read_subarray (v : View) (start stop : ℕ) :
    h.read (v.subarray start stop) = ((h.read v).take stop).drop start := by
  apply List.ext_getElem?
  intro i
  simp only [read, View.subarray, List.getElem?_take, List.getElem?_drop]
  grind

theorem Valid.subarray {v : View} (hv : h.Valid v) (start stop : ℕ) :
    h.Valid (v.subarray start stop) := by
  constructor
  · exact hv.live
  · have := hv.fits
    simp only [View.subarray]
    omega

@[simp] theorem fresh_insert (content : List UInt8) : (h.insert content).fresh = h.fresh + 1 := by
  simp [fresh, insert]

theorem bytes_insert_of_lt {content : List UInt8} {a : ℕ} (ha : a < h.fresh) :
    (h.insert content).bytes a = h.bytes a := by
  simp only [bytes, insert, List.getD_eq_getElem?_getD]
  rw [List.getElem?_append_left ha]

@[simp] theorem bytes_insert_fresh (content : List UInt8) :
    (h.insert content).bytes h.fresh = content := by
  simp [bytes, insert, fresh]

theorem read_insert {content : List UInt8} {v : View} (hv : h.Valid v) :
    (h.insert content).read v = h.read v := by
  rw [read, read, bytes_insert_of_lt hv.live]

theorem Valid.insert {v : View} (hv : h.Valid v) (content : List UInt8) :
    (h.insert content).Valid v := by
  constructor
  · have := hv.live
    rw [fresh_insert]
    omega
  · rw [bytes_insert_of_lt hv.live]
    exact hv.fits

theorem valid_alloc (n : ℕ) : (h.alloc n).2.Valid (h.alloc n).1 := by
  constructor
  · simp [alloc]
  · simp [alloc]

structure Written (h h' : Heap) (target : View) (pos : ℕ) (new : List UInt8) : Prop where
  live : target.buffer < h.fresh
  same : h'.fresh = h.fresh
  sizes : ∀ a, (h'.bytes a).length = (h.bytes a).length
  others : ∀ a, a ≠ target.buffer → h'.bytes a = h.bytes a
  content : h'.read target = splice pos new (h.read target)
  log : h'.written = target.buffer :: h.written

theorem set_written {target source : View} {pos : ℕ} (ht : h.Valid target) (hs : h.Valid source)
    (hpos : pos + source.length ≤ target.length) :
    ∃ h', h.set target source pos = some h' ∧ Written h h' target pos (h.read source) := by
  have hlen := length_read hs
  have hlive : target.buffer < h.buffers.length := ht.live
  have hfits := ht.fits
  refine ⟨_, if_pos hpos, ht.live, ?_, ?_, ?_, ?_, rfl⟩
  · simp [fresh]
  · intro a
    by_cases ha : a = target.buffer
    · subst ha
      have hsplice : target.offset + pos + (h.read source).length ≤
          (h.bytes target.buffer).length := by omega
      simpa [bytes, List.getElem?_eq_getElem hlive] using length_splice hsplice
    · simp [bytes, Ne.symm ha]
  · intro a ha
    simp [bytes, Ne.symm ha]
  · have hinside : pos + (h.read source).length ≤ target.length := by omega
    simpa [read, bytes, List.getElem?_eq_getElem hlive] using window_splice hinside hfits

namespace Written

variable {h' : Heap} {target : View} {pos : ℕ} {new : List UInt8}

theorem valid (w : Written h h' target pos new) {v : View} (hv : h.Valid v) : h'.Valid v := by
  constructor
  · rw [w.same]
    exact hv.live
  · rw [w.sizes]
    exact hv.fits

theorem read (w : Written h h' target pos new) {v : View} (hv : v.buffer ≠ target.buffer) :
    h'.read v = h.read v := by
  rw [Heap.read, Heap.read, w.others _ hv]

end Written

/-- Between the two heaps only the buffers in `own` and new ones were written. -/
structure Frame (own : ℕ → Prop) (h h' : Heap) : Prop where
  grown : h.fresh ≤ h'.fresh
  sizes : ∀ a < h.fresh, (h'.bytes a).length = (h.bytes a).length
  kept : ∀ a < h.fresh, ¬ own a → h'.bytes a = h.bytes a
  log : ∀ a ∈ h'.written, a ∈ h.written ∨ (own a ∨ h.fresh ≤ a) ∧ a < h'.fresh

namespace Frame

variable {own own' : ℕ → Prop} {h' h'' : Heap}

theorem refl (own : ℕ → Prop) (h : Heap) : Frame own h h where
  grown := Nat.le_refl _
  sizes _ _ := rfl
  kept _ _ _ := rfl
  log _ ha := .inl ha

theorem trans (f : Frame own h h') (f' : Frame own' h' h'')
    (hown : ∀ a, own' a → own a ∨ h.fresh ≤ a) : Frame own h h'' where
  grown := Nat.le_trans f.grown f'.grown
  sizes a ha := (f'.sizes a (Nat.lt_of_lt_of_le ha f.grown)).trans (f.sizes a ha)
  kept a ha hna := by
    have hna' : ¬ own' a := by
      intro h'
      rcases hown a h' with h' | h'
      · exact hna h'
      · exact absurd h' (Nat.not_le.mpr ha)
    rw [f'.kept a (Nat.lt_of_lt_of_le ha f.grown) hna', f.kept a ha hna]
  log a ha := by
    rcases f'.log a ha with h' | ⟨h' | h', hlt⟩
    · rcases f.log a h' with h' | ⟨h', hlt⟩
      · exact .inl h'
      · exact .inr ⟨h', Nat.lt_of_lt_of_le hlt f'.grown⟩
    · exact .inr ⟨hown a h', hlt⟩
    · exact .inr ⟨.inr (Nat.le_trans f.grown h'), hlt⟩

theorem insert (own : ℕ → Prop) (h : Heap) (content : List UInt8) :
    Frame own h (h.insert content) where
  grown := by simp
  sizes a ha := by rw [bytes_insert_of_lt ha]
  kept a ha _ := bytes_insert_of_lt ha
  log a ha := .inl ha

theorem valid (f : Frame own h h') {v : View} (hv : h.Valid v) : h'.Valid v := by
  constructor
  · exact Nat.lt_of_lt_of_le hv.live f.grown
  · rw [f.sizes _ hv.live]
    exact hv.fits

theorem read (f : Frame own h h') {v : View} (hv : h.Valid v) (hown : ¬ own v.buffer) :
    h'.read v = h.read v := by
  rw [Heap.read, Heap.read, f.kept _ hv.live hown]

end Frame

theorem Written.frame {h' : Heap} {target : View} {pos : ℕ} {new : List UInt8}
    (w : Written h h' target pos new) {own : ℕ → Prop} (hown : own target.buffer) :
    Frame own h h' where
  grown := Nat.le_of_eq w.same.symm
  sizes a _ := w.sizes a
  kept a _ hna := w.others a fun ha => hna (ha ▸ hown)
  log a ha := by
    rw [w.log] at ha
    rcases List.mem_cons.mp ha with rfl | ha
    · exact .inr ⟨.inl hown, by rw [w.same]; exact w.live⟩
    · exact .inl ha

end Heap

end TypedArrays
