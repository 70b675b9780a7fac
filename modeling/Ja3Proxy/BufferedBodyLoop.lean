import Ja3Proxy.BufferedBody

/-! What the inner loop and the assembly of `buffer` do. `S` stands for the buffers that belong
to streams throughout. -/
namespace BufferedBody

open TransitionRuns TypedArrays

variable {S : ℕ → Prop} {i : ℕ}

structure Granted (i n : ℕ) (budget budget' : BufferBudget) : Prop where
  limit : budget'.limit = budget.limit
  retained : budget'.retained = budget.retained + n
  granted : budget'.granted = Function.update budget.granted i (budget.granted i + n)
  returned : budget'.returned = budget.returned
  within : budget.retained ≤ budget.limit → budget'.retained ≤ budget'.limit

namespace Granted

theorem zero (i : ℕ) (budget : BufferBudget) : Granted i 0 budget budget where
  limit := rfl
  retained := by simp
  granted := by simp
  returned := rfl
  within h := h

theorem trans {n m : ℕ} {budget budget' budget'' : BufferBudget}
    (g : Granted i n budget budget') (g' : Granted i m budget' budget'') :
    Granted i (n + m) budget budget'' where
  limit := g'.limit.trans g.limit
  retained := by
    rw [g'.retained, g.retained]
    omega
  granted := by
    rw [g'.granted, g.granted, Function.update_idem, Function.update_self, Nat.add_assoc]
  returned := g'.returned.trans g.returned
  within h := g'.within (g.within h)

end Granted

theorem granted_of_reserve {n : ℕ} {budget budget' : BufferBudget}
    (h : budget.reserve i n = some budget') : Granted i n budget budget' := by
  unfold BufferBudget.reserve at h
  split at h
  · cases h
  · next hle =>
    cases h
    exact ⟨rfl, rfl, rfl, rfl, fun _ => Int.not_lt.mp hle⟩

def Buffering.views (b : Buffering) : List View := b.current :: b.blocks

/-- The blocks and the filled part of the current one hold `got`. Only a block of the call's own
has room left, and no other view of the call shares its buffer. -/
structure Sound (S : ℕ → Prop) (h : Heap) (b : Buffering) (got : List UInt8) : Prop where
  valid : ∀ v ∈ b.views, h.Valid v
  full : ∀ v ∈ b.blocks, v.length = 65536
  capacity : b.current.length ≤ 65536
  filled : b.filled ≤ b.current.length
  borrowed : S b.current.buffer → b.filled = b.current.length
  apart : ¬ S b.current.buffer → ∀ v ∈ b.blocks, v.buffer ≠ b.current.buffer
  content : (b.blocks.map h.read).flatten ++ (h.read b.current).take b.filled = got
  size : b.size = got.length
  retained : b.retained = 2 * (65536 * b.blocks.length + b.current.length)

def Own (S : ℕ → Prop) (b : Buffering) (a : ℕ) : Prop := a = b.current.buffer ∧ ¬ S a

structure Advance (S : ℕ → Prop) (i : ℕ) (b : Buffering) (s : Store) (b' : Buffering)
    (s' : Store) : Prop where
  frame : Heap.Frame (Own S b) s.heap s'.heap
  current : b'.current.buffer = b.current.buffer ∨ S b'.current.buffer ∨
    s.heap.fresh ≤ b'.current.buffer
  views : ∀ v ∈ b'.views, (∃ u ∈ b.views, v.buffer = u.buffer) ∨ S v.buffer ∨
    s.heap.fresh ≤ v.buffer
  granted : ∃ n, b'.retained = b.retained + n ∧ Granted i n s.budget s'.budget

namespace Advance

variable {b b' b'' : Buffering} {s s' s'' : Store}

theorem refl (S : ℕ → Prop) (i : ℕ) (b : Buffering) (s : Store) : Advance S i b s b s where
  frame := .refl _ _
  current := .inl rfl
  views v hv := .inl ⟨v, hv, rfl⟩
  granted := ⟨0, rfl, .zero _ _⟩

theorem trans (p : Advance S i b s b' s') (q : Advance S i b' s' b'' s'') :
    Advance S i b s b'' s'' where
  frame := by
    apply p.frame.trans q.frame
    rintro a ⟨rfl, hS⟩
    rcases p.current with h | h | h
    · exact .inl ⟨h, hS⟩
    · exact absurd h hS
    · exact .inr h
  current := by
    rcases q.current with h | h | h
    · rw [h]
      exact p.current
    · exact .inr (.inl h)
    · exact .inr (.inr (Nat.le_trans p.frame.grown h))
  views v hv := by
    rcases q.views v hv with ⟨u, hu, h⟩ | h | h
    · rw [h]
      exact p.views u hu
    · exact .inr (.inl h)
    · exact .inr (.inr (Nat.le_trans p.frame.grown h))
  granted := by
    obtain ⟨n, hn, gn⟩ := p.granted
    obtain ⟨m, hm, gm⟩ := q.granted
    exact ⟨n + m, by omega, gn.trans gm⟩

end Advance

section Parts

variable {b : Buffering} {s : Store} {got : List UInt8} {chunk : View} {offset : ℕ}

theorem Sound.current_valid {h : Heap} (hb : Sound S h b got) : h.Valid b.current :=
  hb.valid _ (by simp [Buffering.views])

theorem Sound.block_valid {h : Heap} (hb : Sound S h b got) {v : View} (hv : v ∈ b.blocks) :
    h.Valid v :=
  hb.valid _ (by simp [Buffering.views, hv])

theorem Sound.size_eq {h : Heap} (hb : Sound S h b got) :
    b.size = 65536 * b.blocks.length + b.filled := by
  have hblocks : ∀ blocks : List View, (∀ v ∈ blocks, h.Valid v ∧ v.length = 65536) →
      (blocks.map h.read).flatten.length = 65536 * blocks.length := by
    intro blocks hblocks
    induction blocks with
    | nil => rfl
    | cons v blocks ih =>
      obtain ⟨hvalid, hlength⟩ := hblocks v (by simp)
      have hrest := ih fun u hu => hblocks u (by simp [hu])
      rw [List.map_cons, List.flatten_cons, List.length_append, hrest, Heap.length_read hvalid,
        hlength, List.length_cons]
      omega
  have hall : (b.blocks.map h.read).flatten.length = 65536 * b.blocks.length := by
    apply hblocks
    intro v hv
    exact ⟨hb.block_valid hv, hb.full v hv⟩
  rw [hb.size, ← hb.content, List.length_append, hall, List.length_take,
    Heap.length_read hb.current_valid, Nat.min_eq_left hb.filled]

/-- The reservation covers the bytes twice. -/
theorem Sound.covered {h : Heap} (hb : Sound S h b got) : 2 * got.length ≤ b.retained := by
  have hsize := hb.size
  have hexact := hb.size_eq
  have hfilled := hb.filled
  have hretained := hb.retained
  omega

/-- Other buffers may change under a call. -/
theorem Sound.frame {own : ℕ → Prop} {h h' : Heap} (hb : Sound S h b got)
    (f : Heap.Frame own h h') (hown : ∀ v ∈ b.views, ¬ own v.buffer) : Sound S h' b got where
  valid v hv := f.valid (hb.valid v hv)
  full := hb.full
  capacity := hb.capacity
  filled := hb.filled
  borrowed := hb.borrowed
  apart := hb.apart
  content := by
    have hblocks : b.blocks.map h'.read = b.blocks.map h.read := by
      apply List.map_congr_left
      intro v hv
      exact f.read (hb.block_valid hv) (hown v (by simp [Buffering.views, hv]))
    rw [hblocks, f.read hb.current_valid (hown _ (by simp [Buffering.views]))]
    exact hb.content
  size := hb.size
  retained := hb.retained

theorem push_advance (b : Buffering) (s : Store) :
    Advance S i b s (push b s).1 (push b s).2 where
  frame := .insert _ _ _
  current := .inr (.inr (Nat.le_refl _))
  views v hv := by
    simp only [Buffering.views, push, List.mem_cons, List.mem_append, List.not_mem_nil,
      or_false] at hv
    rcases hv with rfl | hv | rfl
    · exact .inr (.inr (Nat.le_refl _))
    · exact .inl ⟨v, by simp [Buffering.views, hv], rfl⟩
    · exact .inl ⟨_, by simp [Buffering.views], rfl⟩
  granted := ⟨0, rfl, .zero _ _⟩

/-- A full view is read as a whole. -/
theorem Sound.take_filled (hb : Sound S s.heap b got) (hfull : b.filled = b.current.length) :
    (s.heap.read b.current).take b.filled = s.heap.read b.current := by
  apply List.take_of_length_le
  have hread := Heap.length_read hb.current_valid
  omega

theorem push_sound (hb : Sound S s.heap b got) (hfull : b.filled = 65536) :
    Sound S (push b s).2.heap (push b s).1 got := by
  have hlength : b.current.length = 65536 := by
    have h₁ := hb.filled
    have h₂ := hb.capacity
    omega
  have hlive : ∀ v ∈ b.blocks ++ [b.current], s.heap.Valid v := by
    intro v hv
    rcases List.mem_append.mp hv with hv | hv
    · exact hb.block_valid hv
    · rw [List.mem_singleton.mp hv]
      exact hb.current_valid
  have hread : (b.blocks ++ [b.current]).map (push b s).2.heap.read =
      (b.blocks ++ [b.current]).map s.heap.read := by
    apply List.map_congr_left
    intro v hv
    exact Heap.read_insert (hlive v hv)
  have htake : (s.heap.read b.current).take b.filled = s.heap.read b.current :=
    hb.take_filled (hfull.trans hlength.symm)
  constructor
  case valid =>
    intro v hv
    rcases List.mem_cons.mp hv with rfl | hv
    · exact Heap.valid_alloc 0
    · exact (hlive v hv).insert _
  case full =>
    intro v hv
    rcases List.mem_append.mp hv with hv | hv
    · exact hb.full v hv
    · rw [List.mem_singleton.mp hv, hlength]
  case capacity => exact Nat.zero_le _
  case filled => exact Nat.zero_le _
  case borrowed => exact fun _ => rfl
  case apart =>
    intro _ v hv
    exact Nat.ne_of_lt (hlive v hv).live
  case content =>
    have hcontent := hb.content
    rw [htake] at hcontent
    change ((b.blocks ++ [b.current]).map (push b s).2.heap.read).flatten ++ _ = got
    rw [hread]
    simpa [push] using hcontent
  case size => exact hb.size
  case retained =>
    have := hb.retained
    simp only [push, Heap.alloc, List.length_append, List.length_singleton]
    omega

theorem drop_read (hchunk : s.heap.Valid chunk) (offset : ℕ) :
    s.heap.read (chunk.subarray offset chunk.length) = (s.heap.read chunk).drop offset := by
  rw [Heap.read_subarray, List.take_of_length_le]
  exact Nat.le_of_eq (Heap.length_read hchunk)

def Taken (S : ℕ → Prop) (i : ℕ) (chunk : View) (offset : ℕ) (b : Buffering) (s : Store)
    (got : List UInt8) : Pass → Prop
  | .again offset' b' s' =>
    offset < offset' ∧ offset' ≤ chunk.length ∧ Advance S i b s b' s' ∧
      Sound S s'.heap b' (got ++ ((s.heap.read chunk).drop offset).take (offset' - offset))
  | .leave b' s' =>
    Advance S i b s b' s' ∧ Sound S s'.heap b' (got ++ (s.heap.read chunk).drop offset)
  | .threw failure b' s' => failure = .bufferLimit ∧ Advance S i b s b' s'

theorem Taken.prepend {b' : Buffering} {s' : Store} {p : Pass} (q : Advance S i b s b' s')
    (hread : s'.heap.read chunk = s.heap.read chunk) (h : Taken S i chunk offset b' s' got p) :
    Taken S i chunk offset b s got p := by
  cases p with
  | again offset' b'' s'' =>
    obtain ⟨h₁, h₂, h₃, h₄⟩ := h
    rw [hread] at h₄
    exact ⟨h₁, h₂, q.trans h₃, h₄⟩
  | leave b'' s'' =>
    obtain ⟨h₁, h₂⟩ := h
    rw [hread] at h₂
    exact ⟨q.trans h₁, h₂⟩
  | threw failure b'' s'' => exact ⟨h.1, q.trans h.2⟩

theorem borrow_taken (hb : Sound S s.heap b got) (hempty : b.current.length = 0)
    (hchunk : s.heap.Valid chunk) (hS : S chunk.buffer) (hlength : chunk.length ≤ 65536)
    (hoffset : offset < chunk.length) :
    Taken S i chunk offset b s got (borrow i chunk offset b s) := by
  have hremaining : (chunk.subarray offset chunk.length).length = chunk.length - offset := by
    simp only [View.subarray]
    omega
  unfold borrow
  dsimp only
  cases hreserve : s.budget.reserve i ((chunk.subarray offset chunk.length).length * 2) with
  | none => exact ⟨rfl, .refl _ _ _ _⟩
  | some budget =>
    have hvalid := hchunk.subarray offset chunk.length
    have hread := drop_read hchunk offset
    have hcontent : (b.blocks.map s.heap.read).flatten = got := by
      have hfilled : b.filled = 0 := by
        have := hb.filled
        omega
      simpa [hfilled] using hb.content
    refine ⟨⟨.refl _ _, .inr (.inl hS), ?_, ?_⟩, ?_⟩
    · intro v hv
      rcases List.mem_cons.mp hv with rfl | hv
      · exact .inr (.inl hS)
      · exact .inl ⟨v, by simp [Buffering.views, hv], rfl⟩
    · exact ⟨_, rfl, granted_of_reserve hreserve⟩
    · constructor
      case valid =>
        intro v hv
        rcases List.mem_cons.mp hv with rfl | hv
        · exact hvalid
        · exact hb.block_valid hv
      case full => exact hb.full
      case capacity =>
        rw [hremaining]
        omega
      case filled => exact Nat.le_refl _
      case borrowed => exact fun _ => rfl
      case apart => exact fun h => absurd hS h
      case content =>
        have htake : (s.heap.read (chunk.subarray offset chunk.length)).take
            (chunk.subarray offset chunk.length).length = (s.heap.read chunk).drop offset := by
          rw [List.take_of_length_le (Nat.le_of_eq (Heap.length_read hvalid)), hread]
        simp only [hcontent, htake]
      case size =>
        have hlen := Heap.length_read hvalid
        rw [hread] at hlen
        simp only [List.length_append, hlen, hb.size]
      case retained =>
        have := hb.retained
        simp only
        omega

def Grown (S : ℕ → Prop) (i : ℕ) (b : Buffering) (s : Store) (got : List UInt8) :
    Except (Failure × Buffering × Store) (Buffering × Store) → Prop
  | .error (failure, b', s') => failure = .bufferLimit ∧ Advance S i b s b' s'
  | .ok (b', s') =>
    Advance S i b s b' s' ∧ Sound S s'.heap b' got ∧ b'.filled < b'.current.length

theorem grow_grown (hb : Sound S s.heap b got) (hS : ∀ a, S a → a < s.heap.fresh)
    (hfilled : b.filled = b.current.length) (hpositive : 0 < b.current.length)
    (hroom : b.current.length < 65536) :
    Grown S i b s got (grow i chunk offset b s) := by
  have hcapacity : b.current.length < capacity chunk offset b ∧
      capacity chunk offset b ≤ 65536 := by
    simp only [capacity]
    omega
  unfold grow
  dsimp only
  generalize capacity chunk offset b = n at hcapacity ⊢
  cases hreserve : s.budget.reserve i ((n - b.current.length) * 2) with
  | none => exact ⟨rfl, .refl _ _ _ _⟩
  | some budget =>
    have hcurrent : (s.heap.alloc n).2.Valid b.current := hb.current_valid.insert _
    have hnew : (s.heap.alloc n).1.buffer = s.heap.fresh := rfl
    have hread : (s.heap.alloc n).2.read b.current = s.heap.read b.current :=
      Heap.read_insert hb.current_valid
    have hfits : 0 + b.current.length ≤ (s.heap.alloc n).1.length := by
      simp only [Heap.alloc]
      omega
    obtain ⟨heap, hset, hw⟩ := Heap.set_written (Heap.valid_alloc n) hcurrent hfits
    rw [hread] at hw
    simp only [hset]
    have hwrite : Heap.Frame (fun a => s.heap.fresh ≤ a) (s.heap.alloc n).2 heap :=
      hw.frame (Nat.le_refl _)
    have hframe : Heap.Frame (fun a => s.heap.fresh ≤ a) s.heap heap := by
      apply (Heap.Frame.insert (fun a => s.heap.fresh ≤ a) s.heap _).trans hwrite
      exact fun a ha => .inl ha
    have hold : ∀ v ∈ b.views, ¬ s.heap.fresh ≤ v.buffer := by
      intro v hv
      exact Nat.not_le.mpr (hb.valid v hv).live
    refine ⟨⟨?_, ?_, ?_, ?_⟩, ?_, ?_⟩
    · apply (Heap.Frame.refl (Own S b) s.heap).trans hframe
      exact fun a ha => .inr ha
    · exact .inr (.inr (Nat.le_refl _))
    · intro v hv
      rcases List.mem_cons.mp hv with rfl | hv
      · exact .inr (.inr (Nat.le_refl _))
      · exact .inl ⟨v, by simp [Buffering.views, hv], rfl⟩
    · exact ⟨_, rfl, granted_of_reserve hreserve⟩
    · have hframed := hb.frame hframe hold
      constructor
      case valid =>
        intro v hv
        rcases List.mem_cons.mp hv with rfl | hv
        · exact hw.valid (Heap.valid_alloc n)
        · exact hframed.block_valid hv
      case full => exact hb.full
      case capacity => exact hcapacity.2
      case filled =>
        rw [hfilled]
        exact Nat.le_of_lt hcapacity.1
      case borrowed =>
        intro h
        exact absurd (hS _ h) (Nat.lt_irrefl _)
      case apart =>
        intro _ v hv
        exact Nat.ne_of_lt (hb.block_valid hv).live
      case content =>
        have htake : (heap.read (s.heap.alloc n).1).take b.filled = s.heap.read b.current := by
          have hlen : b.filled = 0 + (s.heap.read b.current).length := by
            rw [Heap.length_read hb.current_valid, hfilled, Nat.zero_add]
          rw [hw.content, hlen, take_splice (Nat.zero_le _), List.take_zero, List.nil_append]
        have hfull : (heap.read b.current).take b.filled = s.heap.read b.current := by
          rw [hframe.read hb.current_valid (hold _ (by simp [Buffering.views]))]
          exact hb.take_filled hfilled
        have hcontent := hframed.content
        rw [hfull] at hcontent
        rw [htake]
        exact hcontent
      case size => exact hb.size
      case retained =>
        have := hb.retained
        simp only [Heap.alloc]
        omega
    · rw [hfilled]
      exact hcapacity.1

theorem copy_taken (hb : Sound S s.heap b got) (hroom : b.filled < b.current.length)
    (hchunk : s.heap.Valid chunk) (hoffset : offset < chunk.length) :
    Taken S i chunk offset b s got (copy chunk offset b s) := by
  have hown : ¬ S b.current.buffer := by
    intro h
    have := hb.borrowed h
    omega
  unfold copy
  dsimp only
  generalize hcount : min (b.current.length - b.filled) (chunk.length - offset) = count
  have hlength : (chunk.subarray offset (offset + count)).length = count := by
    simp only [View.subarray]
    omega
  have hvalid := hchunk.subarray offset (offset + count)
  have hfits : b.filled + (chunk.subarray offset (offset + count)).length ≤
      b.current.length := by omega
  obtain ⟨heap, hset, hw⟩ := Heap.set_written hb.current_valid hvalid hfits
  have hread : s.heap.read (chunk.subarray offset (offset + count)) =
      ((s.heap.read chunk).drop offset).take count := by
    rw [Heap.read_subarray, List.drop_take, Nat.add_sub_cancel_left]
  have hnew : (((s.heap.read chunk).drop offset).take count).length = count := by
    rw [← hread, Heap.length_read hvalid, hlength]
  rw [hread] at hw
  simp only [hset]
  refine ⟨by omega, by omega, ⟨hw.frame ⟨rfl, hown⟩, .inl rfl, ?_, ⟨0, rfl, .zero _ _⟩⟩, ?_⟩
  · intro v hv
    exact .inl ⟨v, hv, rfl⟩
  · rw [Nat.add_sub_cancel_left]
    constructor
    case valid => exact fun v hv => hw.valid (hb.valid v hv)
    case full => exact hb.full
    case capacity => exact hb.capacity
    case filled =>
      simp only
      omega
    case borrowed => exact fun h => absurd h hown
    case apart => exact hb.apart
    case content =>
      have hblocks : b.blocks.map heap.read = b.blocks.map s.heap.read := by
        apply List.map_congr_left
        intro v hv
        exact hw.read (hb.apart hown v hv)
      have hpos : b.filled ≤ (s.heap.read b.current).length := by
        rw [Heap.length_read hb.current_valid]
        exact hb.filled
      have htake : (heap.read b.current).take (b.filled + count) =
          (s.heap.read b.current).take b.filled ++
            ((s.heap.read chunk).drop offset).take count := by
        rw [hw.content, ← take_splice hpos, hnew]
      rw [hblocks, htake, ← List.append_assoc, hb.content]
    case size => simp only [List.length_append, hnew, hb.size]
    case retained => exact hb.retained

theorem fill_taken (hb : Sound S s.heap b got) (hS : ∀ a, S a → a < s.heap.fresh)
    (hchunk : s.heap.Valid chunk) (hstream : S chunk.buffer) (hlength : chunk.length ≤ 65536)
    (hoffset : offset < chunk.length) (hroom : b.filled < 65536) :
    Taken S i chunk offset b s got (fill i chunk offset b s) := by
  unfold fill
  by_cases hempty : b.current.length = 0
  · rw [if_pos hempty]
    exact borrow_taken hb hempty hchunk hstream hlength hoffset
  rw [if_neg hempty]
  by_cases hfilled : b.filled = b.current.length
  · rw [if_pos hfilled]
    have hgrow : Grown S i b s got (grow i chunk offset b s) :=
      grow_grown hb hS hfilled (by omega) (by omega)
    revert hgrow
    cases grow i chunk offset b s with
    | error e => exact fun h => h
    | ok r =>
      rintro ⟨hadvance, hsound, hmore⟩
      have hread : r.2.heap.read chunk = s.heap.read chunk :=
        hadvance.frame.read hchunk fun h => h.2 hstream
      apply Taken.prepend hadvance hread
      exact copy_taken hsound hmore (hadvance.frame.valid hchunk) hoffset
  · rw [if_neg hfilled]
    have := hb.filled
    exact copy_taken hb (by omega) hchunk hoffset

theorem pass_taken (hb : Sound S s.heap b got) (hS : ∀ a, S a → a < s.heap.fresh)
    (hchunk : s.heap.Valid chunk) (hstream : S chunk.buffer) (hlength : chunk.length ≤ 65536)
    (hoffset : offset < chunk.length) :
    Taken S i chunk offset b s got (pass i chunk offset b s) := by
  unfold pass
  by_cases hfull : b.filled = 65536
  · have hadvance : Advance S i b s (push b s).1 (push b s).2 := push_advance b s
    have hread : (push b s).2.heap.read chunk = s.heap.read chunk :=
      hadvance.frame.read hchunk fun h => h.2 hstream
    have hgrown : ∀ a, S a → a < (push b s).2.heap.fresh := by
      intro a ha
      exact Nat.lt_of_lt_of_le (hS a ha) hadvance.frame.grown
    rw [if_pos hfull]
    apply Taken.prepend hadvance hread
    exact fill_taken (push_sound hb hfull) hgrown (hadvance.frame.valid hchunk) hstream hlength
      hoffset (Nat.zero_lt_succ _)
  · have h₁ := hb.filled
    have h₂ := hb.capacity
    rw [if_neg hfull]
    exact fill_taken hb hS hchunk hstream hlength hoffset (by omega)

end Parts

structure Absorbed (S : ℕ → Prop) (i : ℕ) (b : Buffering) (s : Store) (got : List UInt8)
    (failure : Option Failure) (b' : Buffering) (s' : Store) : Prop where
  advance : Advance S i b s b' s'
  sound : failure = none → Sound S s'.heap b' got
  limit : ∀ f, failure = some f → f = .bufferLimit

theorem absorb_finished {chunk : View} {offset : ℕ} {b : Buffering} {s : Store}
    {got : List UInt8} (hb : Sound S s.heap b got) (hchunk : s.heap.Valid chunk)
    (hdone : ¬ offset < chunk.length) (fuel : ℕ) :
    ∃ failure b' s', absorb i chunk fuel offset b s = some (failure, b', s') ∧
      Absorbed S i b s (got ++ (s.heap.read chunk).drop offset) failure b' s' := by
  have hrun : absorb i chunk fuel offset b s = some (none, b, s) := by
    cases fuel <;> simp [absorb, hdone]
  refine ⟨none, b, s, hrun, .refl _ _ _ _, ?_, by simp⟩
  intro _
  rw [List.drop_eq_nil_of_le, List.append_nil]
  · exact hb
  · rw [Heap.length_read hchunk]
    omega

/-- As many passes as the chunk has bytes are enough. -/
theorem absorb_absorbed {chunk : View} (hstream : S chunk.buffer)
    (hlength : chunk.length ≤ 65536) {fuel offset : ℕ} {b : Buffering} {s : Store}
    {got : List UInt8} (hfuel : chunk.length ≤ offset + fuel) (hoffset : offset ≤ chunk.length)
    (hb : Sound S s.heap b got) (hS : ∀ a, S a → a < s.heap.fresh)
    (hchunk : s.heap.Valid chunk) :
    ∃ failure b' s', absorb i chunk fuel offset b s = some (failure, b', s') ∧
      Absorbed S i b s (got ++ (s.heap.read chunk).drop offset) failure b' s' := by
  induction fuel generalizing offset b s got with
  | zero => exact absorb_finished hb hchunk (by omega) 0
  | succ fuel ih =>
    by_cases hmore : offset < chunk.length
    · have htaken : Taken S i chunk offset b s got (pass i chunk offset b s) :=
        pass_taken hb hS hchunk hstream hlength hmore
      rw [absorb, if_pos hmore]
      revert htaken
      cases pass i chunk offset b s with
      | leave b' s' =>
        rintro ⟨hadvance, hsound⟩
        exact ⟨none, b', s', rfl, hadvance, fun _ => hsound, by simp⟩
      | threw failure b' s' =>
        rintro ⟨hlimit, hadvance⟩
        refine ⟨some failure, b', s', rfl, hadvance, by simp, ?_⟩
        rintro f ⟨⟩
        exact hlimit
      | again offset' b' s' =>
        rintro ⟨hlt, hle, hadvance, hsound⟩
        have hread : s'.heap.read chunk = s.heap.read chunk :=
          hadvance.frame.read hchunk fun h => h.2 hstream
        have hgrown : ∀ a, S a → a < s'.heap.fresh := by
          intro a ha
          exact Nat.lt_of_lt_of_le (hS a ha) hadvance.frame.grown
        obtain ⟨failure, b'', s'', hrun, habsorbed⟩ :=
          ih (by omega) hle hsound hgrown (hadvance.frame.valid hchunk)
        have hsplit : got ++ ((s.heap.read chunk).drop offset).take (offset' - offset) ++
            (s'.heap.read chunk).drop offset' = got ++ (s.heap.read chunk).drop offset := by
          have hdrop : (s.heap.read chunk).drop offset' =
              ((s.heap.read chunk).drop offset).drop (offset' - offset) := by
            rw [List.drop_drop]
            congr 1
            omega
          rw [hread, hdrop, List.append_assoc, List.take_append_drop]
        rw [hsplit] at habsorbed
        exact ⟨failure, b'', s'', hrun, hadvance.trans habsorbed.advance, habsorbed.sound,
          habsorbed.limit⟩
    · exact absorb_finished hb hchunk hmore _

theorem place_written {body : View} {blocks : List View} {offset : ℕ} {h : Heap}
    (hbody : h.Valid body) (hblocks : ∀ v ∈ blocks, h.Valid v ∧ v.buffer ≠ body.buffer)
    (hfits : offset + (blocks.map h.read).flatten.length ≤ body.length) :
    ∃ h', place body blocks offset h =
        some (offset + (blocks.map h.read).flatten.length, h') ∧
      Heap.Frame (fun a => a = body.buffer) h h' ∧
      (h'.read body).take (offset + (blocks.map h.read).flatten.length) =
        (h.read body).take offset ++ (blocks.map h.read).flatten := by
  induction blocks generalizing offset h with
  | nil => exact ⟨h, rfl, .refl _ _, by simp⟩
  | cons block blocks ih =>
    obtain ⟨hvalid, hne⟩ := hblocks block (by simp)
    have hlen := Heap.length_read hvalid
    simp only [List.map_cons, List.flatten_cons, List.length_append, hlen] at hfits ⊢
    have hroom : offset + block.length ≤ body.length := by omega
    obtain ⟨h₁, hset, hw⟩ := Heap.set_written hbody hvalid hroom
    have hframe : Heap.Frame (fun a => a = body.buffer) h h₁ := hw.frame rfl
    have hrest : blocks.map h₁.read = blocks.map h.read := by
      apply List.map_congr_left
      intro v hv
      exact hw.read (hblocks v (by simp [hv])).2
    have hblocks' : ∀ v ∈ blocks, h₁.Valid v ∧ v.buffer ≠ body.buffer := by
      intro v hv
      exact ⟨hw.valid (hblocks v (by simp [hv])).1, (hblocks v (by simp [hv])).2⟩
    have hfits' : offset + block.length + (blocks.map h₁.read).flatten.length ≤
        body.length := by
      rw [hrest]
      omega
    obtain ⟨h₂, hplace, hframe', htake⟩ := ih (hw.valid hbody) hblocks' hfits'
    rw [hrest] at hplace htake
    have hpos : offset ≤ (h.read body).length := by
      rw [Heap.length_read hbody]
      omega
    have hblock : (h₁.read body).take (offset + block.length) =
        (h.read body).take offset ++ h.read block := by
      rw [hw.content, ← take_splice hpos, hlen]
    refine ⟨h₂, ?_, hframe.trans hframe' fun a ha => .inl ha, ?_⟩
    · rw [place, hset, Option.bind_some, hplace, Nat.add_assoc]
    · rw [← Nat.add_assoc, htake, hblock, List.append_assoc]

theorem place_append {body last : View} {blocks : List View} {offset : ℕ} {h : Heap} :
    place body (blocks ++ [last]) offset h =
      (place body blocks offset h).bind fun r =>
        (r.2.set body last r.1).map fun h' => (r.1 + last.length, h') := by
  induction blocks generalizing offset h with
  | nil => cases hset : h.set body last offset <;> simp [place, hset]
  | cons block blocks ih =>
    rw [List.cons_append, place, place]
    cases h.set body block offset with
    | none => rfl
    | some h' => exact ih

/-- The blocks and the filled part of the current one give the body. -/
theorem assemble_body {h : Heap} {b : Buffering} {got : List UInt8} (hb : Sound S h b got) :
    ∃ h', assemble b h = some (got, h') ∧ Heap.Frame (fun a => h.fresh ≤ a) h h' := by
  have hframe : Heap.Frame (fun a => h.fresh ≤ a) h (h.alloc b.size).2 := .insert _ _ _
  have hold : ∀ v ∈ b.views, ¬ h.fresh ≤ v.buffer := by
    intro v hv
    exact Nat.not_le.mpr (hb.valid v hv).live
  have hsound : Sound S (h.alloc b.size).2 b got := hb.frame hframe hold
  have hbody : (h.alloc b.size).2.Valid (h.alloc b.size).1 := Heap.valid_alloc b.size
  have hunder : ∀ v ∈ b.views, v.buffer ≠ (h.alloc b.size).1.buffer := by
    intro v hv
    exact Nat.ne_of_lt (hb.valid v hv).live
  have hfresh : h.fresh ≤ (h.alloc b.size).1.buffer := Nat.le_refl _
  have hlength : (h.alloc b.size).1.length = b.size := rfl
  simp only [assemble]
  generalize (h.alloc b.size).2 = h₁ at *
  generalize (h.alloc b.size).1 = body at *
  -- The last `set` is one more block.
  have hlast := hsound.current_valid.subarray 0 b.filled
  have hcontent : ((b.blocks ++ [b.current.subarray 0 b.filled]).map h₁.read).flatten =
      got := by
    rw [List.map_append, List.flatten_append, ← hsound.content]
    simp [Heap.read_subarray]
  have hblocks : ∀ v ∈ b.blocks ++ [b.current.subarray 0 b.filled],
      h₁.Valid v ∧ v.buffer ≠ body.buffer := by
    intro v hv
    rcases List.mem_append.mp hv with hv | hv
    · exact ⟨hsound.block_valid hv, hunder v (by simp [Buffering.views, hv])⟩
    · rw [List.mem_singleton.mp hv]
      exact ⟨hlast, hunder b.current (by simp [Buffering.views])⟩
  have hfits : 0 + ((b.blocks ++ [b.current.subarray 0 b.filled]).map h₁.read).flatten.length ≤
      body.length := by
    rw [hcontent]
    have hsize := hsound.size
    omega
  obtain ⟨h₂, hplace, hwrite, htake⟩ := place_written hbody hblocks hfits
  have hread : h₂.read body = got := by
    have hall : (h₂.read body).length ≤ 0 + got.length := by
      rw [Heap.length_read (hwrite.valid hbody), hlength, hsound.size]
      omega
    rw [hcontent, List.take_of_length_le hall] at htake
    simpa using htake
  rw [place_append] at hplace
  obtain ⟨⟨offset, h₃⟩, hfirst, hmapped⟩ := Option.bind_eq_some_iff.mp hplace
  obtain ⟨h₄, hset, heq⟩ := Option.map_eq_some_iff.mp hmapped
  obtain ⟨-, rfl⟩ := Prod.mk.inj heq
  refine ⟨h₄, ?_, ?_⟩
  · simp only at hset
    simp only [hfirst, hset, hread, Option.bind_eq_bind, Option.bind_some, Option.pure_def]
  · exact hframe.trans hwrite fun a ha => .inl (ha ▸ hfresh)

end BufferedBody
