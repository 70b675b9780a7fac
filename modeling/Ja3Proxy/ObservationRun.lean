import Ja3Proxy.TransitionRuns
import Mathlib.Data.Finset.Card
import Mathlib.Data.Finset.Range
import Mathlib.Data.List.TakeWhile
import Mathlib.Logic.Function.Basic

/-! `Observation.run` of the SDK (`observation.ts`) with arbitrary hooks.
A hook is the environment: while its synchronous part is on top of the stack, and later when the
stack is empty, it may call every continuation that was ever handed out, since hooks can share
them. It leaves by a return or by an exception; a missing hook returns at once. -/
namespace ObservationRun

open TransitionRuns

/-- `hook c` is the synchronous part of the hook that got the continuation `c`; `filling c` is a
call of that continuation which waits for `invoke(index + 1)`. -/
inductive Frame where
  | hook (c : ℕ)
  | filling (c : ℕ)
  deriving DecidableEq, Repr

def Frame.cell : Frame → ℕ
  | .hook c => c
  | .filling c => c

def Frame.fills : Frame → Bool
  | .hook _ => false
  | .filling _ => true

/-- One `Promise.resolve().then(operation)`: the call of `operation` is a microtask, and the
promise takes the outcome of that call. -/
inductive Status (ρ : Type) where
  | scheduled
  | invoked
  | settled (outcome : ρ)
  deriving DecidableEq, Repr

/-- Every call of `invoke` that finds an observation has its own continuation, with the `index`
and the `result` of its closure. A promise is the number of its operation. -/
structure State (ρ : Type) where
  observations : ℕ
  cells : ℕ
  index : ℕ → ℕ
  result : ℕ → Option ℕ
  stack : List Frame
  operations : List (Status ρ)
  returned : Option ℕ

namespace State

variable {ρ : Type} (s : State ρ)

/-- `invoke` returns the promise `v`. The calls of continuations that wait for it on top of the
stack assign it to their `result` and return it as well, whatever has been assigned before. -/
def deliver (v : ℕ) : State ρ :=
  { s with
    result := fun c => if .filling c ∈ s.stack.takeWhile Frame.fills then some v else s.result c
    stack := s.stack.dropWhile Frame.fills
    returned := if s.stack.dropWhile Frame.fills = [] then s.returned.or (some v)
      else s.returned }

def invoke (index : ℕ) : State ρ :=
  if index < s.observations then
    { s with
      cells := s.cells + 1
      index := Function.update s.index s.cells index
      result := Function.update s.result s.cells none
      stack := .hook s.cells :: s.stack }
  else { s with operations := s.operations ++ [Status.scheduled] }.deliver s.operations.length

/-- `result ??= invoke(index + 1)` -/
def once (c : ℕ) : State ρ :=
  match s.result c with
  | some v => s.deliver v
  | none => { s with stack := .filling c :: s.stack }.invoke (s.index c + 1)

/-- `run` up to the first hook. -/
def initial (observations : ℕ) : State ρ :=
  invoke ⟨observations, 0, fun _ => 0, fun _ => none, [], [], none⟩ 0

def promise : Option (Status ρ) := s.returned.bind fun k => s.operations[k]?

end State

/-- `finish` is `Observation.finish`, which drops the observations. -/
inductive Event (ρ : Type) where
  | call (c : ℕ)
  | hookReturns
  | finish
  | microtask (k : ℕ)
  | settle (k : ℕ) (outcome : ρ)

section Machine

variable {ρ : Type}

def next (s : State ρ) : Event ρ → Option (State ρ)
  | .call c => if c < s.cells then some (s.once c) else none
  | .hookReturns =>
    match s.stack with
    | .hook c :: rest => some ({ s with stack := rest }.once c)
    | _ => none
  | .finish => some { s with observations := 0 }
  | .microtask k =>
    if s.stack = [] ∧ s.operations[k]?.any (· matches .scheduled) then
      some { s with operations := s.operations.set k .invoked }
    else none
  | .settle k outcome =>
    if s.stack = [] ∧ s.operations[k]?.any (· matches .invoked) then
      some { s with operations := s.operations.set k (.settled outcome) }
    else none

def machine (ρ : Type) (observations : ℕ) : Machine (State ρ) (Event ρ) :=
  ⟨.initial observations, next⟩

def Quiet (s : State ρ) : Prop := s.stack = [] ∧ ∀ x ∈ s.operations, x ≠ .scheduled

/-- The operation was invoked exactly once, and `run` returned the promise of that call. -/
def ExactlyOnce (s : State ρ) : Prop :=
  ∃ status, s.operations = [status] ∧ status ≠ .scheduled ∧ s.promise = some status

/-- A continuation is called before an earlier call of it has returned. -/
def Reenters (s : State ρ) : Event ρ → Prop
  | .call c => .filling c ∈ s.stack
  | _ => False

instance (s : State ρ) : ∀ e : Event ρ, Decidable (Reenters s e)
  | .call c => inferInstanceAs (Decidable (.filling c ∈ s.stack))
  | .hookReturns | .finish | .microtask _ | .settle _ _ => inferInstanceAs (Decidable False)

end Machine

section Count

variable {ρ : Type} {s : State ρ}

def opens (s : State ρ) : Finset ℕ :=
  (Finset.range s.cells).filter fun c => s.result c = none ∧ .filling c ∉ s.stack

def weight (s : State ρ) : ℕ := s.operations.length + (opens s).card

structure Clean (s : State ρ) : Prop where
  nodup : s.stack.Nodup
  unassigned : ∀ c, .filling c ∈ s.stack → s.result c = none

structure Frames (s : State ρ) : Prop where
  valid : ∀ f ∈ s.stack, f.cell < s.cells
  below : s.stack.Pairwise fun f g => f.fills = false → g.cell ≠ f.cell
  held : ∀ c ∈ opens s, .hook c ∈ s.stack
  promises : ∀ c v, s.result c = some v → v < s.operations.length

structure Invariant (s : State ρ) : Prop extends Frames s where
  control : ∀ c rest, s.stack ≠ .filling c :: rest
  pending : s.stack ≠ [] → s.returned = none
  returned : s.stack = [] → ∃ k, s.returned = some k ∧ k < s.operations.length
  positive : 0 < weight s
  clean : weight s = 1 → Clean s

theorem mem_opens {c : ℕ} :
    c ∈ opens s ↔ c < s.cells ∧ s.result c = none ∧ .filling c ∉ s.stack := by
  rw [opens, Finset.mem_filter, Finset.mem_range]

theorem filling_mem_split (stack : List Frame) (c : ℕ) :
    .filling c ∈ stack ↔
      .filling c ∈ stack.takeWhile Frame.fills ∨ .filling c ∈ stack.dropWhile Frame.fills := by
  rw [← List.mem_append, List.takeWhile_append_dropWhile]

theorem hook_mem_dropWhile {stack : List Frame} {c : ℕ} (h : .hook c ∈ stack) :
    .hook c ∈ stack.dropWhile Frame.fills := by
  rw [← List.takeWhile_append_dropWhile (p := Frame.fills) (l := stack)] at h
  rcases List.mem_append.mp h with htake | hdrop
  · have := List.mem_takeWhile_imp htake
    cases this
  · exact hdrop

theorem opens_deliver (s : State ρ) (v : ℕ) : opens (s.deliver v) = opens s := by
  ext c
  rw [mem_opens, mem_opens, filling_mem_split s.stack]
  simp only [State.deliver]
  by_cases hc : .filling c ∈ s.stack.takeWhile Frame.fills
  · simp [hc]
  · simp [hc]

theorem weight_deliver (s : State ρ) (v : ℕ) : weight (s.deliver v) = weight s := by
  rw [weight, opens_deliver]
  rfl

theorem clean_deliver (h : Clean s) (v : ℕ) : Clean (s.deliver v) := by
  have hsub : (s.stack.dropWhile Frame.fills).Sublist s.stack := List.dropWhile_sublist _
  constructor
  · exact h.nodup.sublist hsub
  · intro c hc
    have hnodup := h.nodup
    rw [← List.takeWhile_append_dropWhile (p := Frame.fills) (l := s.stack)] at hnodup
    have hfirst : .filling c ∉ s.stack.takeWhile Frame.fills :=
      fun hmem => (List.nodup_append.mp hnodup).2.2 _ hmem _ hc rfl
    change (if _ then some v else s.result c) = none
    rw [if_neg hfirst]
    exact h.unassigned c (hsub.subset hc)

theorem invariant_deliver {v : ℕ} (h : Frames s) (hv : v < s.operations.length)
    (hpending : s.returned = none ∨ s.stack = [])
    (hreturned : ∀ k, s.returned = some k → k < s.operations.length) (hpositive : 0 < weight s)
    (hclean : weight s = 1 → Clean s) : Invariant (s.deliver v) := by
  have hsub : (s.stack.dropWhile Frame.fills).Sublist s.stack := List.dropWhile_sublist _
  constructor
  case toFrames =>
    constructor
    case valid =>
      intro f hf
      exact h.valid f (hsub.subset hf)
    case below => exact h.below.sublist hsub
    case held =>
      intro c hc
      rw [opens_deliver] at hc
      exact hook_mem_dropWhile (h.held c hc)
    case promises =>
      intro c w hw
      simp only [State.deliver] at hw
      split at hw
      · cases hw
        exact hv
      · exact h.promises c w hw
  case control =>
    intro c rest hstack
    have hhead := List.head?_dropWhile_not Frame.fills s.stack
    change s.stack.dropWhile Frame.fills = _ at hstack
    rw [hstack] at hhead
    cases hhead
  case pending =>
    intro hstack
    change s.stack.dropWhile Frame.fills ≠ [] at hstack
    simp only [State.deliver, if_neg hstack]
    rcases hpending with hnone | hempty
    · exact hnone
    · simp [hempty] at hstack
  case returned =>
    intro hstack
    change s.stack.dropWhile Frame.fills = [] at hstack
    simp only [State.deliver, if_pos hstack]
    cases hret : s.returned with
    | none => exact ⟨v, rfl, hv⟩
    | some k => exact ⟨k, rfl, hreturned k hret⟩
  case positive =>
    rw [weight_deliver]
    exact hpositive
  case clean =>
    intro hweight
    rw [weight_deliver] at hweight
    exact clean_deliver (hclean hweight) v

theorem fresh_filling (h : Frames s) : .filling s.cells ∉ s.stack := by
  intro hmem
  exact absurd (h.valid _ hmem) (Nat.lt_irrefl _)

theorem opens_invoke (h : Frames s) {index : ℕ} (hindex : index < s.observations) :
    opens (s.invoke index) = insert s.cells (opens s) := by
  ext c
  rw [mem_opens, Finset.mem_insert, mem_opens, State.invoke, if_pos hindex]
  by_cases hc : c = s.cells
  · subst hc
    simp [fresh_filling h]
  · have hlt : c < s.cells + 1 ↔ c < s.cells := by omega
    simp [hc, hlt]

theorem weight_invoke (h : Frames s) (index : ℕ) : weight (s.invoke index) = weight s + 1 := by
  by_cases hindex : index < s.observations
  · have hnew : s.cells ∉ opens s := by simp [mem_opens]
    rw [weight, opens_invoke h hindex, Finset.card_insert_of_notMem hnew, State.invoke,
      if_pos hindex, weight, Nat.add_assoc]
  · rw [State.invoke, if_neg hindex, weight_deliver]
    simp only [weight, List.length_append, List.length_singleton]
    change _ + (opens s).card = _
    omega

theorem clean_invoke (h : Frames s) (hclean : Clean s) (index : ℕ) : Clean (s.invoke index) := by
  rw [State.invoke]
  split
  · constructor
    · refine List.nodup_cons.mpr ⟨?_, hclean.nodup⟩
      intro hmem
      exact absurd (h.valid _ hmem) (Nat.lt_irrefl _)
    · intro c hc
      have hmem : .filling c ∈ s.stack := by simpa using hc
      have hne : c ≠ s.cells := by
        rintro rfl
        exact fresh_filling h hmem
      simpa [Function.update_of_ne hne] using hclean.unassigned c hmem
  · apply clean_deliver
    exact ⟨hclean.nodup, hclean.unassigned⟩

/-- A new hook on top, or the operation and the return of its promise. -/
theorem invariant_invoke (h : Frames s) (hreturned : s.returned = none)
    (hclean : weight s = 0 → Clean s) (index : ℕ) : Invariant (s.invoke index) := by
  have hweight := weight_invoke h index
  by_cases hindex : index < s.observations
  · have hopens := opens_invoke h hindex
    have hstack : (s.invoke index).stack = .hook s.cells :: s.stack := by
      rw [State.invoke, if_pos hindex]
    constructor
    case toFrames =>
      constructor
      case valid =>
        intro f hf
        rw [hstack] at hf
        rw [State.invoke, if_pos hindex]
        rcases List.mem_cons.mp hf with rfl | hold
        · exact Nat.lt_succ_self _
        · exact Nat.lt_succ_of_lt (h.valid f hold)
      case below =>
        rw [hstack]
        refine List.pairwise_cons.mpr ⟨?_, h.below⟩
        intro g hg _
        exact Nat.ne_of_lt (h.valid g hg)
      case held =>
        intro c hc
        rw [hopens, Finset.mem_insert] at hc
        rw [hstack]
        rcases hc with rfl | hold
        · exact List.mem_cons_self
        · exact List.mem_cons_of_mem _ (h.held c hold)
      case promises =>
        intro c v hv
        rw [State.invoke, if_pos hindex] at hv ⊢
        by_cases hc : c = s.cells
        · subst hc
          simp at hv
        · simp only [Function.update_of_ne hc] at hv
          exact h.promises c v hv
    case control =>
      intro c rest hbad
      rw [hstack] at hbad
      cases hbad
    case pending =>
      intro _
      rw [State.invoke, if_pos hindex]
      exact hreturned
    case returned =>
      intro hempty
      rw [hstack] at hempty
      cases hempty
    case positive => omega
    case clean =>
      intro hone
      exact clean_invoke h (hclean (by omega)) index
  · rw [State.invoke, if_neg hindex] at hweight ⊢
    rw [weight_deliver] at hweight
    apply invariant_deliver
    · refine ⟨h.valid, h.below, h.held, ?_⟩
      intro c v hv
      have := h.promises c v hv
      simp only [List.length_append, List.length_singleton]
      omega
    · simp
    · exact .inl hreturned
    · intro k hk
      rw [hreturned] at hk
      cases hk
    · omega
    · intro hone
      have hzero := hclean (by omega)
      exact ⟨hzero.nodup, hzero.unassigned⟩

theorem opens_filling {st : List Frame} (hsub : st.Sublist s.stack)
    (hfill : ∀ d, .filling d ∈ s.stack → .filling d ∈ st) (c : ℕ) :
    opens { s with stack := .filling c :: st } = (opens s).erase c := by
  ext d
  rw [mem_opens, Finset.mem_erase, mem_opens]
  have hsame : .filling d ∈ st ↔ .filling d ∈ s.stack := ⟨fun h => hsub.subset h, hfill d⟩
  simp only [List.mem_cons, Frame.filling.injEq, hsame, not_or]
  tauto

section Once

variable {st : List Frame} {c : ℕ}

/-- A call of a continuation that has its promise returns it. -/
theorem invariant_once_some {v : ℕ} (h : Invariant s) (hsub : st.Sublist s.stack)
    (hfill : ∀ d, .filling d ∈ s.stack → .filling d ∈ st)
    (hheld : ∀ d, d ≠ c → .hook d ∈ s.stack → .hook d ∈ st) (hresult : s.result c = some v) :
    Invariant ({ s with stack := st }.deliver v) ∧
      weight ({ s with stack := st }.deliver v) = weight s := by
  have hopens : opens { s with stack := st } = opens s := by
    ext d
    have hsame : .filling d ∈ st ↔ .filling d ∈ s.stack := ⟨fun hd => hsub.subset hd, hfill d⟩
    simp only [mem_opens, hsame]
  have hweight : weight { s with stack := st } = weight s := by rw [weight, hopens, weight]
  refine ⟨?_, by rw [weight_deliver, hweight]⟩
  apply invariant_deliver
  · refine ⟨fun f hf => h.valid f (hsub.subset hf), h.below.sublist hsub, ?_, h.promises⟩
    intro d hd
    rw [hopens] at hd
    have hne : d ≠ c := by
      rintro rfl
      rw [mem_opens, hresult] at hd
      cases hd.2.1
    exact hheld d hne (h.held d hd)
  · exact h.promises c v hresult
  · by_cases hstack : s.stack = []
    · right
      rw [hstack] at hsub
      exact List.sublist_nil.mp hsub
    · exact .inl (h.pending hstack)
  · intro k hk
    by_cases hstack : s.stack = []
    · obtain ⟨j, hj, hlt⟩ := h.returned hstack
      cases hj.symm.trans hk
      exact hlt
    · cases (h.pending hstack).symm.trans hk
  · rw [hweight]
    exact h.positive
  · intro hone
    rw [hweight] at hone
    have hclean := h.clean hone
    exact ⟨hclean.nodup.sublist hsub, fun d hd => hclean.unassigned d (hsub.subset hd)⟩

theorem frames_filling (h : Invariant s) (hc : c < s.cells) (hsub : st.Sublist s.stack)
    (hfill : ∀ d, .filling d ∈ s.stack → .filling d ∈ st)
    (hheld : ∀ d, d ≠ c → .hook d ∈ s.stack → .hook d ∈ st) :
    Frames { s with stack := .filling c :: st } := by
  refine ⟨?_, ?_, ?_, h.promises⟩
  · intro f hf
    rcases List.mem_cons.mp hf with rfl | hold
    · exact hc
    · exact h.valid f (hsub.subset hold)
  · refine List.pairwise_cons.mpr ⟨?_, h.below.sublist hsub⟩
    intro g _ hfills
    cases hfills
  · intro d hd
    rw [opens_filling hsub hfill c, Finset.mem_erase] at hd
    exact List.mem_cons_of_mem _ (hheld d hd.1 (h.held d hd.2))

/-- A continuation without a promise belongs to a hook or to a call that is still running. -/
theorem stack_ne_nil (h : Invariant s) (hc : c < s.cells) (hresult : s.result c = none) :
    s.stack ≠ [] := by
  intro hempty
  have hopen : c ∈ opens s := by
    rw [mem_opens]
    exact ⟨hc, hresult, by simp [hempty]⟩
  have := h.held c hopen
  simp [hempty] at this

theorem clean_filling (h : Clean s) (hsub : st.Sublist s.stack) (hresult : s.result c = none)
    (hfirst : .filling c ∉ s.stack) : Clean { s with stack := .filling c :: st } := by
  constructor
  · refine List.nodup_cons.mpr ⟨?_, h.nodup.sublist hsub⟩
    exact fun hmem => hfirst (hsub.subset hmem)
  · intro d hd
    rcases List.mem_cons.mp hd with heq | hold
    · cases heq
      exact hresult
    · exact h.unassigned d (hsub.subset hold)

/-- A call of a continuation without a promise adds an operation where an earlier call of it
still waits. -/
theorem invariant_once_none (h : Invariant s) (hc : c < s.cells) (hsub : st.Sublist s.stack)
    (hfill : ∀ d, .filling d ∈ s.stack → .filling d ∈ st)
    (hheld : ∀ d, d ≠ c → .hook d ∈ s.stack → .hook d ∈ st) (hresult : s.result c = none)
    (index : ℕ) :
    Invariant ({ s with stack := .filling c :: st }.invoke index) ∧
      weight ({ s with stack := .filling c :: st }.invoke index) =
        if .filling c ∈ s.stack then weight s + 1 else weight s := by
  have hopens := opens_filling hsub hfill c
  have hframes := frames_filling h hc hsub hfill hheld
  have hpending := h.pending (stack_ne_nil h hc hresult)
  have hpositive := h.positive
  rw [weight_invoke hframes]
  by_cases hwaits : .filling c ∈ s.stack
  · have hnot : c ∉ opens s := by simp [mem_opens, hwaits]
    have hweight : weight { s with stack := .filling c :: st } = weight s := by
      rw [weight, hopens, Finset.erase_eq_of_notMem hnot, weight]
    rw [if_pos hwaits, hweight]
    refine ⟨invariant_invoke hframes hpending (fun hzero => ?_) index, rfl⟩
    omega
  · have hopen : c ∈ opens s := by
      rw [mem_opens]
      exact ⟨hc, hresult, hwaits⟩
    have hweight : weight { s with stack := .filling c :: st } + 1 = weight s := by
      rw [weight, hopens, weight, ← Finset.card_erase_add_one hopen]
      rfl
    rw [if_neg hwaits, hweight]
    refine ⟨invariant_invoke hframes hpending (fun hzero => ?_) index, rfl⟩
    exact clean_filling (h.clean (by omega)) hsub hresult hwaits

/-- A call of the continuation `c`, by a hook with the stack as it is or by `invoke` itself after
its hook has left. -/
theorem invariant_once (h : Invariant s) (hc : c < s.cells) (hsub : st.Sublist s.stack)
    (hfill : ∀ d, .filling d ∈ s.stack → .filling d ∈ st)
    (hheld : ∀ d, d ≠ c → .hook d ∈ s.stack → .hook d ∈ st) :
    Invariant ({ s with stack := st }.once c) ∧
      weight ({ s with stack := st }.once c) =
        if s.result c = none ∧ .filling c ∈ s.stack then weight s + 1 else weight s := by
  cases hresult : s.result c with
  | some v =>
    simp only [State.once, hresult]
    simpa using invariant_once_some h hsub hfill hheld hresult
  | none =>
    simp only [State.once, hresult]
    simpa using invariant_once_none h hc hsub hfill hheld hresult (s.index c + 1)

end Once

/-- Only the length of the list of operations and their number matter. -/
theorem invariant_status (h : Invariant s) {operations : List (Status ρ)}
    (hlength : operations.length = s.operations.length) :
    Invariant { s with operations := operations } ∧
      weight { s with operations := operations } = weight s := by
  have hweight : weight { s with operations := operations } = weight s := by
    simp only [weight, hlength]
    rfl
  refine ⟨⟨⟨h.valid, h.below, h.held, ?_⟩, h.control, h.pending, ?_, ?_, ?_⟩, hweight⟩
  · intro c v hv
    rw [hlength]
    exact h.promises c v hv
  · intro hstack
    rw [hlength]
    exact h.returned hstack
  · rw [hweight]
    exact h.positive
  · intro hone
    rw [hweight] at hone
    exact ⟨(h.clean hone).nodup, (h.clean hone).unassigned⟩

theorem invariant_initial (observations : ℕ) : Invariant (State.initial observations : State ρ) ∧
    weight (State.initial observations : State ρ) = 1 := by
  have hframes : Frames (⟨observations, 0, fun _ => 0, fun _ => none, [], [], none⟩ : State ρ) := by
    constructor
    case valid => simp
    case below => exact List.Pairwise.nil
    case held => simp [mem_opens]
    case promises => simp
  refine ⟨invariant_invoke hframes rfl (fun _ => ⟨List.nodup_nil, by simp⟩) 0, ?_⟩
  rw [State.initial, weight_invoke hframes]
  rfl

/-- What the next hook on the stack does when it leaves. -/
theorem invariant_hookReturns (h : Invariant s) {rest : List Frame} {c : ℕ}
    (hstack : s.stack = .hook c :: rest) :
    Invariant ({ s with stack := rest }.once c) ∧
      weight ({ s with stack := rest }.once c) = weight s := by
  have hbelow := h.below
  have hvalid := h.valid (.hook c) (by simp [hstack])
  rw [hstack] at hbelow
  have hnot : .filling c ∉ s.stack := by
    rw [hstack]
    intro hmem
    have hrest : .filling c ∈ rest := by simpa using hmem
    exact (List.pairwise_cons.mp hbelow).1 _ hrest rfl rfl
  have hsub : rest.Sublist s.stack := by
    rw [hstack]
    exact List.sublist_cons_self _ _
  have hfill : ∀ d, .filling d ∈ s.stack → .filling d ∈ rest := by
    intro d hd
    rw [hstack] at hd
    simpa using hd
  have hheld : ∀ d, d ≠ c → .hook d ∈ s.stack → .hook d ∈ rest := by
    intro d hne hd
    rw [hstack] at hd
    simpa [hne] using hd
  have hspec := invariant_once h hvalid hsub hfill hheld
  rw [if_neg (fun hand => hnot hand.2)] at hspec
  exact hspec

theorem invariant_step {t : State ρ} {e : Event ρ} (h : Invariant s) (hn : next s e = some t) :
    Invariant t ∧ weight s ≤ weight t ∧ (weight s = 1 → (weight t = 1 ↔ ¬Reenters s e)) := by
  have hquiet : ∀ {u : State ρ}, Invariant u ∧ weight u = weight s → ¬Reenters s e →
      Invariant u ∧ weight s ≤ weight u ∧ (weight s = 1 → (weight u = 1 ↔ ¬Reenters s e)) := by
    intro u hu hnot
    refine ⟨hu.1, by omega, fun hone => ?_⟩
    simp [hnot, hu.2, hone]
  cases e with
  | call c =>
    simp only [next] at hn
    split at hn
    · rename_i hc
      cases hn
      obtain ⟨hinv, hweight⟩ := invariant_once h hc (List.Sublist.refl _) (fun _ hd => hd)
        (fun _ _ hd => hd)
      refine ⟨hinv, ?_, ?_⟩
      · rw [hweight]
        split <;> omega
      · intro hone
        change weight ({ s with stack := s.stack }.once c) = 1 ↔ ¬.filling c ∈ s.stack
        rw [hweight]
        by_cases hwaits : .filling c ∈ s.stack
        · have hnone := (h.clean hone).unassigned c hwaits
          simp [hwaits, hnone, hone]
        · simp [hwaits, hone]
    · cases hn
  | hookReturns =>
    simp only [next] at hn
    split at hn
    · rename_i c rest hstack
      cases hn
      exact hquiet (invariant_hookReturns h hstack) (fun hr => hr)
    · cases hn
  | finish =>
    cases hn
    refine hquiet ⟨?_, rfl⟩ (fun hr => hr)
    exact ⟨⟨h.valid, h.below, h.held, h.promises⟩, h.control, h.pending, h.returned, h.positive,
      fun hone => ⟨(h.clean hone).nodup, (h.clean hone).unassigned⟩⟩
  | microtask k =>
    simp only [next] at hn
    split at hn
    · cases hn
      exact hquiet (invariant_status h List.length_set) (fun hr => hr)
    · cases hn
  | settle k outcome =>
    simp only [next] at hn
    split at hn
    · cases hn
      exact hquiet (invariant_status h List.length_set) (fun hr => hr)
    · cases hn

theorem invariant_run {n : ℕ} {es : List (Event ρ)} {t : State ρ} (h : Invariant s)
    (hr : (machine ρ n).run s es = some t) :
    Invariant t ∧ weight s ≤ weight t ∧
      (weight s = 1 → (weight t = 1 ↔ (machine ρ n).Along (fun u e _ => ¬Reenters u e) s es)) := by
  induction es generalizing s with
  | nil =>
    cases hr
    exact ⟨h, le_rfl, fun hone => by simp [Machine.Along, hone]⟩
  | cons e es ih =>
    obtain ⟨u, hu, ht⟩ := (machine ρ n).run_cons_iff.mp hr
    obtain ⟨hinv, hle, hone⟩ := invariant_step h hu
    obtain ⟨hinv', hle', hone'⟩ := ih hinv ht
    refine ⟨hinv', le_trans hle hle', fun hs => ?_⟩
    constructor
    · intro htw
      have huw : weight u = 1 := by omega
      intro v hv
      cases hv.symm.trans hu
      exact ⟨(hone hs).mp huw, (hone' huw).mp htw⟩
    · intro halong
      obtain ⟨hfirst, hrest⟩ := halong u hu
      exact (hone' ((hone hs).mpr hfirst)).mpr hrest

def upcoming (observations : ℕ) (index : ℕ → ℕ) : List Frame → ℕ
  | [] => 0
  | .hook c :: rest => observations - index c + 1 + upcoming observations index rest
  | .filling _ :: rest => upcoming observations index rest

def unstarted (operations : List (Status ρ)) : ℕ := operations.countP (· matches .scheduled)

/-- A hook that leaves may schedule an operation, hence the factor. -/
def outstanding (s : State ρ) : ℕ :=
  2 * upcoming s.observations s.index s.stack + unstarted s.operations

theorem upcoming_dropWhile (observations : ℕ) (index : ℕ → ℕ) (stack : List Frame) :
    upcoming observations index (stack.dropWhile Frame.fills) =
      upcoming observations index stack := by
  induction stack with
  | nil => rfl
  | cons f stack ih =>
    cases f with
    | hook c => rfl
    | filling c => exact ih

theorem upcoming_update {observations fresh value : ℕ} {index : ℕ → ℕ} {stack : List Frame}
    (h : ∀ f ∈ stack, f.cell < fresh) :
    upcoming observations (Function.update index fresh value) stack =
      upcoming observations index stack := by
  induction stack with
  | nil => rfl
  | cons f stack ih =>
    have hrest := ih fun g hg => h g (List.mem_cons_of_mem _ hg)
    have hf := h f List.mem_cons_self
    cases f with
    | hook c =>
      have hne : c ≠ fresh := Nat.ne_of_lt hf
      simp only [upcoming, hrest, Function.update_of_ne hne]
    | filling c => exact hrest

theorem outstanding_hookReturns (h : Invariant s) {rest : List Frame} {c : ℕ}
    (hstack : s.stack = .hook c :: rest) :
    outstanding ({ s with stack := rest }.once c) < outstanding s := by
  have hvalid : ∀ f ∈ rest, f.cell < s.cells :=
    fun f hf => h.valid f (by rw [hstack]; exact List.mem_cons_of_mem _ hf)
  have hs : upcoming s.observations s.index s.stack =
      s.observations - s.index c + 1 + upcoming s.observations s.index rest := by
    rw [hstack, upcoming]
  simp only [State.once]
  split
  · simp only [outstanding, State.deliver, upcoming_dropWhile]
    rw [hs]
    omega
  · simp only [State.invoke]
    split
    · rename_i hindex
      change s.index c + 1 < s.observations at hindex
      simp only [outstanding, upcoming, upcoming_update hvalid, Function.update_self]
      rw [hs]
      omega
    · have hdrop : (Frame.filling c :: rest).dropWhile Frame.fills = rest.dropWhile Frame.fills :=
        rfl
      simp only [outstanding, State.deliver, hdrop, upcoming_dropWhile]
      have hadded : unstarted (s.operations ++ [Status.scheduled]) =
          unstarted s.operations + 1 := by
        simp [unstarted]
      rw [hs, hadded]
      omega

theorem outstanding_microtask {k : ℕ} (hk : s.operations[k]? = some .scheduled) :
    outstanding { s with operations := s.operations.set k .invoked } < outstanding s := by
  obtain ⟨hlt, hget⟩ := List.getElem?_eq_some_iff.mp hk
  have hpos : 0 < unstarted s.operations := by
    rw [unstarted, List.countP_pos_iff]
    exact ⟨.scheduled, List.mem_of_getElem? hk, rfl⟩
  have hset : unstarted (s.operations.set k .invoked) + 1 = unstarted s.operations := by
    rw [unstarted, List.countP_set hlt, hget, ← unstarted]
    simp only [if_true, Bool.false_eq_true, if_false]
    omega
  simp only [outstanding]
  omega

def Event.internal : Event ρ → Prop
  | .hookReturns | .microtask _ => True
  | _ => False

/-- From every state the call comes to its end once the hooks leave. -/
theorem exists_quiet {n : ℕ} (h : Invariant s) :
    ∃ es t, (∀ e ∈ es, Event.internal e) ∧ (machine ρ n).run s es = some t ∧ Quiet t := by
  induction hm : outstanding s using Nat.strong_induction_on generalizing s with
  | _ m ih =>
    have hcontinue : ∀ e t, Event.internal e → next s e = some t → outstanding t < outstanding s →
        ∃ es t, (∀ e ∈ es, Event.internal e) ∧ (machine ρ n).run s es = some t ∧ Quiet t := by
      intro e t he hn hlt
      obtain ⟨es, u, hes, hu, hq⟩ := ih _ (hm ▸ hlt) (invariant_step h hn).1 rfl
      refine ⟨e :: es, u, ?_, (machine ρ n).run_cons_iff.mpr ⟨t, hn, hu⟩, hq⟩
      exact List.forall_mem_cons.mpr ⟨he, hes⟩
    cases hstack : s.stack with
    | cons f rest =>
      cases f with
      | hook c =>
        refine hcontinue .hookReturns _ trivial ?_ (outstanding_hookReturns h hstack)
        simp [next, hstack]
      | filling c => exact absurd hstack (h.control c rest)
    | nil =>
      by_cases hall : ∀ x ∈ s.operations, x ≠ .scheduled
      · exact ⟨[], s, by simp, rfl, hstack, hall⟩
      · push Not at hall
        obtain ⟨x, hx, hscheduled⟩ := hall
        obtain ⟨k, hk⟩ := List.mem_iff_getElem?.mp hx
        rw [hscheduled] at hk
        refine hcontinue (.microtask k) _ trivial ?_ (outstanding_microtask hk)
        simp [next, hstack, hk]

theorem exactlyOnce_iff (h : Invariant s) (hq : Quiet s) : ExactlyOnce s ↔ weight s = 1 := by
  obtain ⟨k, hk, hlt⟩ := h.returned hq.1
  have hempty : opens s = ∅ := by
    rw [Finset.eq_empty_iff_forall_notMem]
    intro c hc
    have := h.held c hc
    simp [hq.1] at this
  have hweight : weight s = s.operations.length := by rw [weight, hempty]; rfl
  rw [hweight]
  constructor
  · rintro ⟨status, hops, _⟩
    rw [hops]
    rfl
  · intro hone
    obtain ⟨status, hops⟩ := List.length_eq_one_iff.mp hone
    have hzero : k = 0 := by omega
    refine ⟨status, hops, hq.2 status (by simp [hops]), ?_⟩
    rw [State.promise, hk, hops, hzero]
    rfl

end Count

/-- From every state of the call the hooks only have to leave for it to end. When it has ended,
the operation was invoked exactly once and owns the promise, if and only if no continuation was
called before an earlier call of it had returned. -/
theorem run_exactly_once_iff {ρ : Type} {n : ℕ} {es : List (Event ρ)} {s : State ρ}
    (h : (machine ρ n).run (machine ρ n).initial es = some s) :
    (∃ fs t, (∀ e ∈ fs, Event.internal e) ∧ (machine ρ n).run s fs = some t ∧ Quiet t) ∧
      (Quiet s → (ExactlyOnce s ↔
        (machine ρ n).Along (fun u e _ => ¬Reenters u e) (machine ρ n).initial es)) := by
  obtain ⟨hinitial, hone⟩ := @invariant_initial ρ n
  obtain ⟨hinv, _, hiff⟩ := invariant_run hinitial h
  refine ⟨exists_quiet hinv, fun hq => ?_⟩
  rw [exactlyOnce_iff hinv hq]
  exact hiff hone

/-- A hook that calls its own continuation twice and leaves. -/
theorem run_exactly_once_twice :
    ∃ s, (machine Unit 1).run (machine Unit 1).initial
        [.call 0, .call 0, .hookReturns, .microtask 0, .settle 0 ()] = some s ∧ ExactlyOnce s := by
  obtain ⟨s, hs⟩ : ∃ s, (machine Unit 1).run (machine Unit 1).initial
      [.call 0, .call 0, .hookReturns, .microtask 0, .settle 0 ()] = some s := ⟨_, rfl⟩
  have hq : Quiet s := by
    cases hs
    exact ⟨by decide, by decide⟩
  refine ⟨s, hs, ((run_exactly_once_iff hs).2 hq).mpr ?_⟩
  -- the first call of the continuation has returned when the second one is made
  decide

/-- Two observers, the first of which shares its continuation: the second hook calls it from
inside the call that started the second hook. -/
theorem shared_continuation_repeats :
    ∃ s, (machine Unit 2).run (machine Unit 2).initial
        [.call 0, .call 0, .hookReturns, .hookReturns, .hookReturns, .microtask 0, .microtask 1] =
          some s ∧ Quiet s ∧ s.operations = [.invoked, .invoked] ∧ ¬ExactlyOnce s := by
  obtain ⟨s, hs⟩ : ∃ s, (machine Unit 2).run (machine Unit 2).initial
      [.call 0, .call 0, .hookReturns, .hookReturns, .hookReturns, .microtask 0, .microtask 1] =
        some s := ⟨_, rfl⟩
  have hops : s.operations = [.invoked, .invoked] := by
    cases hs
    rfl
  refine ⟨s, hs, ?_, hops, ?_⟩
  · cases hs
    exact ⟨by decide, by decide⟩
  · rintro ⟨status, hone, _⟩
    rw [hops] at hone
    cases hone

end ObservationRun
