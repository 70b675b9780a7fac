import Ja3Proxy.ContextLifetime
import Ja3Proxy.FiniteMaps
import Ja3Proxy.TransitionRuns
import Ja3Proxy.TransportErrors

/-! `ContextStore` of `src/contexts.rs`: capacity is reserved before a client is built and
given back by a destructor. Any number of `create` calls are under way, each in steps; the
other operations hold the registry lock from beginning to end. `none` as the result of a
registry function stands for a subtraction below zero. -/
namespace ContextStore

open ContextLifetime FiniteMaps TransitionRuns TransportErrors

structure Owner where
  principal : String
  partition : String
  deriving DecidableEq, Repr

structure ContextLimits where
  maxContexts : ℕ
  maxContextsPerPartition : ℕ
  deriving DecidableEq, Repr

structure Context where
  owner : Owner
  ages : Ages
  life : Lifetime
  deriving DecidableEq, Repr

structure Registry where
  contexts : AList (fun _ : String => Context)
  pending : AList (fun _ : Owner => ℕ)
  pendingCount : ℕ
  stopped : Bool

def notFound : TransportError :=
  .new .contextNotFound "Der Kontext ist nicht verfügbar oder abgelaufen."

def contextLimit : TransportError := .new .contextLimit "Das Kontextlimit wurde erreicht."

def ownedBy (owner : Owner) (context : Context) : ℕ := if context.owner = owner then 1 else 0

/-- The first critical section of `create`. -/
def Registry.reserve (l : ContextLimits) (r : Registry) (owner : Owner) :
    Except TransportError Registry :=
  if r.stopped then .error notFound
  else if l.maxContexts ≤ r.contexts.entries.length + r.pendingCount ∨
      l.maxContextsPerPartition ≤
        total (ownedBy owner) r.contexts + (r.pending.lookup owner).getD 0 then
    .error contextLimit
  else
    .ok { r with
      pendingCount := r.pendingCount + 1
      pending := r.pending.insert owner ((r.pending.lookup owner).getD 0 + 1) }

/-- `Reservation::drop` -/
def Registry.release (r : Registry) (owner : Owner) : Option Registry :=
  if r.pendingCount = 0 then none
  else
    match r.pending.lookup owner with
    | none => some { r with pendingCount := r.pendingCount - 1 }
    | some 0 => none
    | some (count + 1) =>
      some { r with
        pendingCount := r.pendingCount - 1
        pending := if count = 0 then r.pending.erase owner else r.pending.insert owner count }

/-- The second critical section of `create`, with an identifier that is not in use. -/
def Registry.commit (r : Registry) (context : Context) (id : String) :
    Registry × Except TransportError String :=
  if r.stopped then (r, .error notFound)
  else ({ r with contexts := r.contexts.insert id context }, .ok id)

def Registry.get (r : Registry) (owner : Owner) (id : String) (now : ℕ) : Registry :=
  match r.contexts.lookup id with
  | none => r
  | some context =>
    if context.owner = owner then
      match context.life.touch context.ages now with
      | some life => { r with contexts := r.contexts.insert id { context with life := life } }
      | none => { r with contexts := r.contexts.erase id }
    else r

/-- `Context::touch` by somebody who already holds the context. -/
def Registry.touch (r : Registry) (id : String) (now : ℕ) : Registry :=
  match r.contexts.lookup id with
  | none => r
  | some context =>
    match context.life.touch context.ages now with
    | some life => { r with contexts := r.contexts.insert id { context with life := life } }
    | none => r

def Registry.close (r : Registry) (owner : Owner) (id : String) : Registry :=
  if (r.contexts.lookup id).any fun context => context.owner = owner then
    { r with contexts := r.contexts.erase id }
  else r

def Registry.cleanup (r : Registry) (now : ℕ) : Registry :=
  { r with contexts := retain (fun _ context => !context.life.dead context.ages now) r.contexts }

def Registry.shutdown (r : Registry) : Registry := { r with stopped := true, contexts := ∅ }

/-- A call of `create`. In `releasing` its result is known and its reservation still alive;
no result means that the future was dropped. -/
inductive Pc where
  | idle
  | entered (owner : Owner) (ages : Ages)
  | swept (owner : Owner) (ages : Ages)
  | building (owner : Owner) (ages : Ages)
  | built (owner : Owner) (ages : Ages)
  | releasing (owner : Owner) (result : Option (Except TransportError String))
  | returned (result : Option (Except TransportError String))
  deriving DecidableEq

structure World where
  registry : Registry
  tasks : AList (fun _ : ℕ => Pc)

def World.initial : World := ⟨⟨∅, ∅, 0, false⟩, ∅⟩

def World.pc (w : World) (n : ℕ) : Pc := (w.tasks.lookup n).getD .idle

def World.goto (w : World) (n : ℕ) (pc : Pc) : World := { w with tasks := w.tasks.insert n pc }

inductive Event where
  | call (n : ℕ) (owner : Owner) (ages : Ages)
  /-- The checks before the reservation fail. -/
  | refuse (n : ℕ) (error : TransportError)
  | sweep (n : ℕ) (now : ℕ)
  | reserve (n : ℕ)
  | build (n : ℕ)
  /-- `NetworkClient::new` fails, or the proxy URL afterwards. -/
  | buildFailed (n : ℕ) (error : TransportError)
  | dropFuture (n : ℕ)
  | commit (n : ℕ) (id : String) (now : ℕ)
  | release (n : ℕ)
  | get (owner : Owner) (id : String) (now : ℕ)
  | touch (id : String) (now : ℕ)
  | close (owner : Owner) (id : String)
  | cleanup (now : ℕ)
  | shutdown

def work (l : ContextLimits) (w : World) : Event → Option World
  | .call n owner ages =>
    match w.pc n with
    | .idle => some (w.goto n (.entered owner ages))
    | _ => none
  | .refuse n e =>
    match w.pc n with
    | .entered _ _ => some (w.goto n (.returned (some (.error e))))
    | _ => none
  | .sweep n now =>
    match w.pc n with
    | .entered owner ages =>
      some ({ w with registry := w.registry.cleanup now }.goto n (.swept owner ages))
    | _ => none
  | .reserve n =>
    match w.pc n with
    | .swept owner ages =>
      match w.registry.reserve l owner with
      | .ok registry => some ({ w with registry := registry }.goto n (.building owner ages))
      | .error e => some (w.goto n (.returned (some (.error e))))
    | _ => none
  | .build n =>
    match w.pc n with
    | .building owner ages => some (w.goto n (.built owner ages))
    | _ => none
  | .buildFailed n e =>
    match w.pc n with
    | .building owner _ => some (w.goto n (.releasing owner (some (.error e))))
    | _ => none
  | .dropFuture n =>
    match w.pc n with
    | .building owner _ => some (w.goto n (.releasing owner none))
    | _ => none
  | .commit n id now =>
    match w.pc n with
    | .built owner ages =>
      if (w.registry.contexts.lookup id).isNone then
        some ({ w with
          registry := (w.registry.commit ⟨owner, ages, ⟨now, now, false⟩⟩ id).1 }.goto n
            (.releasing owner (some (w.registry.commit ⟨owner, ages, ⟨now, now, false⟩⟩ id).2)))
      else none
    | _ => none
  | .release n =>
    match w.pc n with
    | .releasing owner result =>
      (w.registry.release owner).map fun registry =>
        { w with registry := registry }.goto n (.returned result)
    | _ => none
  | _ => none

def operate (r : Registry) : Event → Option Registry
  | .get owner id now => some (r.get owner id now)
  | .touch id now => some (r.touch id now)
  | .close owner id => some (r.close owner id)
  | .cleanup now => some (r.cleanup now)
  | .shutdown => some r.shutdown
  | _ => none

def next (l : ContextLimits) (w : World) (e : Event) : Option World :=
  match operate w.registry e with
  | some registry => some { w with registry := registry }
  | none => work l w e

def machine (l : ContextLimits) : Machine World Event := ⟨.initial, next l⟩

def Pc.reservation : Pc → Option Owner
  | .building owner _ | .built owner _ | .releasing owner _ => some owner
  | _ => none

def Pc.committed : Pc → Bool
  | .releasing _ (some (.ok _)) => true
  | _ => false

def held (pc : Pc) : ℕ := if pc.reservation.isSome then 1 else 0

def heldFor (owner : Owner) (pc : Pc) : ℕ := if pc.reservation = some owner then 1 else 0

def uncommitted (pc : Pc) : ℕ := if pc.committed then 0 else held pc

def uncommittedFor (owner : Owner) (pc : Pc) : ℕ := if pc.committed then 0 else heldFor owner pc

structure Invariant (l : ContextLimits) (w : World) : Prop where
  count : w.registry.pendingCount = total held w.tasks
  by_owner : ∀ owner, (w.registry.pending.lookup owner).getD 0 = total (heldFor owner) w.tasks
  sum : total id w.registry.pending = w.registry.pendingCount
  positive : ∀ owner, w.registry.pending.lookup owner ≠ some 0
  capacity : w.registry.contexts.entries.length + total uncommitted w.tasks ≤ l.maxContexts
  partition : ∀ owner, total (ownedBy owner) w.registry.contexts +
    total (uncommittedFor owner) w.tasks ≤ l.maxContextsPerPartition
  stopped : w.registry.stopped = true → w.registry.contexts.entries = []

variable {l : ContextLimits} {w v : World} {n : ℕ}

theorem Invariant.initial : Invariant l .initial where
  count := rfl
  by_owner := fun _ => rfl
  sum := rfl
  positive := by simp [World.initial]
  capacity := Nat.zero_le _
  partition := fun _ => Nat.zero_le _
  stopped := fun _ => rfl

structure Shrinks (r s : Registry) : Prop where
  pending : s.pending = r.pending
  count : s.pendingCount = r.pendingCount
  fewer : ∀ f : Context → ℕ, (∀ x y : Context, x.owner = y.owner → f x = f y) →
    total f s.contexts ≤ total f r.contexts
  stopped : s.stopped = true → r.stopped = true ∨ s.contexts.entries = []

theorem shrinks_refl (r : Registry) : Shrinks r r :=
  ⟨rfl, rfl, fun _ _ => le_rfl, .inl⟩

theorem shrinks_erase (r : Registry) (id : String) :
    Shrinks r { r with contexts := r.contexts.erase id } :=
  ⟨rfl, rfl, fun f _ => total_erase_le f _ id, .inl⟩

theorem shrinks_replace {r : Registry} {id : String} {context : Context}
    (h : r.contexts.lookup id = some context) (life : Lifetime) :
    Shrinks r { r with contexts := r.contexts.insert id { context with life := life } } := by
  refine ⟨rfl, rfl, ?_, .inl⟩
  intro f hf
  have ht := total_insert_old (f := f) (c := { context with life := life }) h
  have hsame := hf { context with life := life } context rfl
  change total f (r.contexts.insert id { context with life := life }) ≤ _
  omega

theorem shrinks_get (r : Registry) (owner : Owner) (id : String) (now : ℕ) :
    Shrinks r (r.get owner id now) := by
  unfold Registry.get
  split
  · exact shrinks_refl r
  · next context hl =>
    split
    · split
      · exact shrinks_replace hl _
      · exact shrinks_erase r id
    · exact shrinks_refl r

theorem shrinks_touch (r : Registry) (id : String) (now : ℕ) : Shrinks r (r.touch id now) := by
  unfold Registry.touch
  split
  · exact shrinks_refl r
  · next context hl =>
    split
    · exact shrinks_replace hl _
    · exact shrinks_refl r

theorem shrinks_close (r : Registry) (owner : Owner) (id : String) :
    Shrinks r (r.close owner id) := by
  unfold Registry.close
  split
  · exact shrinks_erase r id
  · exact shrinks_refl r

theorem shrinks_cleanup (r : Registry) (now : ℕ) : Shrinks r (r.cleanup now) :=
  ⟨rfl, rfl, fun f _ => total_retain_le f _ _, .inl⟩

theorem shrinks_shutdown (r : Registry) : Shrinks r r.shutdown :=
  ⟨rfl, rfl, fun f _ => by simp [Registry.shutdown], fun _ => .inr rfl⟩

theorem shrinks_operate {r s : Registry} {e : Event} (h : operate r e = some s) : Shrinks r s := by
  cases e with
  | get owner id now => cases h; exact shrinks_get r owner id now
  | touch id now => cases h; exact shrinks_touch r id now
  | close owner id => cases h; exact shrinks_close r owner id
  | cleanup now => cases h; exact shrinks_cleanup r now
  | shutdown => cases h; exact shrinks_shutdown r
  | _ => cases h

theorem Shrinks.length {r s : Registry} (h : Shrinks r s) :
    s.contexts.entries.length ≤ r.contexts.entries.length := by
  have hone := h.fewer (fun _ => 1) (fun _ _ _ => rfl)
  rwa [total_one, total_one] at hone

theorem Shrinks.invariant {s : Registry} (hs : Shrinks w.registry s) (h : Invariant l w) :
    Invariant l { w with registry := s } where
  count := hs.count.trans h.count
  by_owner := by
    intro owner
    rw [hs.pending]
    exact h.by_owner owner
  sum := by
    rw [hs.pending, hs.count]
    exact h.sum
  positive := by
    intro owner
    rw [hs.pending]
    exact h.positive owner
  capacity := le_trans (Nat.add_le_add_right hs.length _) h.capacity
  partition := by
    intro owner
    have hf := hs.fewer (ownedBy owner) (fun x y hxy => by simp [ownedBy, hxy])
    exact le_trans (Nat.add_le_add_right hf _) (h.partition owner)
  stopped := by
    intro hstop
    rcases hs.stopped hstop with hold | hempty
    · have hle := hs.length
      rw [h.stopped hold] at hle
      exact List.eq_nil_of_length_eq_zero (Nat.le_zero.mp hle)
    · exact hempty

theorem total_goto {f : Pc → ℕ} (hf : f .idle = 0) (pc : Pc) :
    total f (w.goto n pc).tasks + f (w.pc n) = total f w.tasks + f pc :=
  total_insert hf

theorem total_goto_same {f : Pc → ℕ} (hf : f .idle = 0) {pc : Pc} (hpc : f pc = f (w.pc n)) :
    total f (w.goto n pc).tasks = total f w.tasks := by
  have := total_goto (w := w) (n := n) hf pc
  omega

theorem held_le (n : ℕ) : held (w.pc n) ≤ total held w.tasks := by
  unfold World.pc
  cases h : w.tasks.lookup n with
  | none => exact Nat.zero_le _
  | some pc => exact total_le h

theorem heldFor_le (n : ℕ) (owner : Owner) :
    heldFor owner (w.pc n) ≤ total (heldFor owner) w.tasks := by
  unfold World.pc
  cases h : w.tasks.lookup n with
  | none => exact Nat.zero_le _
  | some pc => exact total_le h

/-- A call goes on and keeps its reservation, or has none before and after. -/
theorem Invariant.goto (h : Invariant l w) {pc : Pc} (hr : pc.reservation = (w.pc n).reservation)
    (hc : pc.committed = (w.pc n).committed) : Invariant l (w.goto n pc) where
  count := by
    rw [total_goto_same rfl (by simp [held, hr])]
    exact h.count
  by_owner := by
    intro owner
    rw [total_goto_same rfl (by simp [heldFor, hr])]
    exact h.by_owner owner
  sum := h.sum
  positive := h.positive
  capacity := by
    rw [total_goto_same rfl (by simp [uncommitted, held, hr, hc])]
    exact h.capacity
  partition := by
    intro owner
    rw [total_goto_same rfl (by simp [uncommittedFor, heldFor, hr, hc])]
    exact h.partition owner
  stopped := h.stopped

/-- Everything that `reserve` checks and does. -/
theorem reserve_ok {r s : Registry} {owner : Owner} (h : r.reserve l owner = .ok s) :
    r.stopped = false ∧ r.contexts.entries.length + r.pendingCount < l.maxContexts ∧
      total (ownedBy owner) r.contexts + (r.pending.lookup owner).getD 0 <
        l.maxContextsPerPartition ∧
      s = { r with
        pendingCount := r.pendingCount + 1
        pending := r.pending.insert owner ((r.pending.lookup owner).getD 0 + 1) } := by
  unfold Registry.reserve at h
  split at h
  · cases h
  · next hstop =>
    split at h
    · cases h
    · next hroom =>
      obtain ⟨hall, hpart⟩ := not_or.mp hroom
      cases h
      exact ⟨by simpa using hstop, by omega, by omega, rfl⟩

theorem reserve_invariant (h : Invariant l w) {owner : Owner} {ages : Ages} {r : Registry}
    (hpc : (w.pc n).reservation = none) (hr : w.registry.reserve l owner = .ok r) :
    Invariant l ({ w with registry := r }.goto n (.building owner ages)) := by
  obtain ⟨hstop, hall, hpart, rfl⟩ := reserve_ok hr
  have hstep : ∀ f : Pc → ℕ, f .idle = 0 → f (w.pc n) = 0 →
      total f (w.goto n (.building owner ages)).tasks =
        total f w.tasks + f (.building owner ages) := by
    intro f hf hold
    have := total_goto (w := w) (n := n) hf (.building owner ages)
    omega
  have hun : ∀ pc, uncommitted pc ≤ held pc := by
    intro pc
    unfold uncommitted
    split <;> omega
  have hunFor : ∀ pc, uncommittedFor owner pc ≤ heldFor owner pc := by
    intro pc
    unfold uncommittedFor
    split <;> omega
  constructor
  · change _ = total held (w.goto n (.building owner ages)).tasks
    rw [hstep held rfl (by simp [held, hpc]), ← h.count]
    rfl
  · intro owner'
    change _ = total (heldFor owner') (w.goto n (.building owner ages)).tasks
    rw [hstep _ rfl (by simp [heldFor, hpc]), ← h.by_owner owner']
    by_cases ho : owner' = owner
    · subst ho
      simp [World.goto, heldFor, Pc.reservation]
    · simp [World.goto, heldFor, Pc.reservation, AList.lookup_insert_ne ho, Ne.symm ho]
  · have ht := total_insert (f := id) (m := w.registry.pending) (a := owner) (d := 0)
      (c := (w.registry.pending.lookup owner).getD 0 + 1) rfl
    have hsum := h.sum
    simp only [id] at ht
    change total id (w.registry.pending.insert owner _) = w.registry.pendingCount + 1
    omega
  · intro owner'
    change (w.registry.pending.insert owner _).lookup owner' ≠ some 0
    by_cases ho : owner' = owner
    · subst ho
      simp
    · rw [AList.lookup_insert_ne ho]
      exact h.positive owner'
  · change w.registry.contexts.entries.length +
      total uncommitted (w.goto n (.building owner ages)).tasks ≤ l.maxContexts
    rw [hstep _ rfl (by simp [uncommitted, held, hpc])]
    have hle := total_mono hun w.tasks
    have hcount := h.count
    simp only [uncommitted, held, Pc.reservation, Pc.committed, Bool.false_eq_true, if_false,
      Option.isSome_some, if_true]
    omega
  · intro owner'
    change total (ownedBy owner') w.registry.contexts +
      total (uncommittedFor owner') (w.goto n (.building owner ages)).tasks ≤ _
    rw [hstep _ rfl (by simp [uncommittedFor, heldFor, hpc])]
    by_cases ho : owner' = owner
    · subst ho
      have hle := total_mono hunFor w.tasks
      have hcount := h.by_owner owner'
      simp only [uncommittedFor, heldFor, Pc.reservation, Pc.committed, Bool.false_eq_true,
        if_false, if_true]
      omega
    · have hold := h.partition owner'
      simpa [uncommittedFor, heldFor, Pc.reservation, Pc.committed, Ne.symm ho] using hold
  · intro hs
    cases hstop.symm.trans hs

theorem commit_invariant (h : Invariant l w) {owner : Owner} {ages : Ages} {id : String}
    (life : Lifetime) (hpc : w.pc n = .built owner ages)
    (hid : w.registry.contexts.lookup id = none) (hstop : w.registry.stopped = false) :
    Invariant l ({ w with registry := { w.registry with
      contexts := w.registry.contexts.insert id ⟨owner, ages, life⟩ } }.goto n
        (.releasing owner (some (.ok id)))) := by
  have hstep : ∀ f : Pc → ℕ, f .idle = 0 →
      total f (w.goto n (.releasing owner (some (.ok id)))).tasks + f (.built owner ages) =
        total f w.tasks + f (.releasing owner (some (.ok id))) := by
    intro f hf
    rw [← hpc]
    exact total_goto hf _
  have hlength : (w.registry.contexts.insert id ⟨owner, ages, life⟩).entries.length =
      w.registry.contexts.entries.length + 1 := by
    rw [AList.entries_insert_of_notMem (AList.lookup_eq_none.mp hid)]
    rfl
  constructor
  · have ht := hstep held rfl
    have hsame : held (.releasing owner (some (.ok id))) = held (.built owner ages) := rfl
    have hcount := h.count
    change w.registry.pendingCount = total held (w.goto n _).tasks
    omega
  · intro owner'
    have ht := hstep (heldFor owner') rfl
    have hsame : heldFor owner' (.releasing owner (some (.ok id))) =
        heldFor owner' (.built owner ages) := rfl
    have hcount := h.by_owner owner'
    change (w.registry.pending.lookup owner').getD 0 = total (heldFor owner') (w.goto n _).tasks
    omega
  · exact h.sum
  · exact h.positive
  · have ht := hstep uncommitted rfl
    have hcap := h.capacity
    simp only [uncommitted, held, Pc.reservation, Pc.committed, Bool.false_eq_true, if_false,
      Option.isSome_some, if_true] at ht
    change (w.registry.contexts.insert id ⟨owner, ages, life⟩).entries.length +
      total uncommitted (w.goto n _).tasks ≤ l.maxContexts
    omega
  · intro owner'
    have ht := hstep (uncommittedFor owner') rfl
    have hcap := h.partition owner'
    have hcontexts := total_insert_new (f := ownedBy owner') (b := ⟨owner, ages, life⟩) hid
    simp only [uncommittedFor, heldFor, Pc.reservation, Pc.committed, Bool.false_eq_true,
      if_false, if_true] at ht
    change total (ownedBy owner') (w.registry.contexts.insert id ⟨owner, ages, life⟩) +
      total (uncommittedFor owner') (w.goto n _).tasks ≤ _
    rw [hcontexts]
    by_cases ho : owner = owner'
    · subst ho
      simp only [ownedBy, if_true] at ht ⊢
      omega
    · simp only [ownedBy, if_neg ho, Option.some.injEq] at ht ⊢
      omega
  · intro hs
    cases hstop.symm.trans hs

/-- `Reservation::drop` never subtracts from zero. -/
theorem Invariant.release_some (h : Invariant l w) {owner : Owner}
    (hpc : (w.pc n).reservation = some owner) :
    ∃ count, w.registry.pending.lookup owner = some (count + 1) ∧
      w.registry.release owner = some { w.registry with
        pendingCount := w.registry.pendingCount - 1
        pending := if count = 0 then w.registry.pending.erase owner
          else w.registry.pending.insert owner count } := by
  have hcount := h.count
  have hle := held_le (w := w) n
  have hfor := h.by_owner owner
  have hforle := heldFor_le (w := w) n owner
  simp only [held, hpc, Option.isSome_some, if_true] at hle
  simp only [heldFor, hpc, if_true] at hforle
  cases hl : w.registry.pending.lookup owner with
  | none =>
    rw [hl] at hfor
    simp only [Option.getD_none] at hfor
    omega
  | some k =>
    cases k with
    | zero => exact absurd hl (h.positive owner)
    | succ count =>
      refine ⟨count, rfl, ?_⟩
      unfold Registry.release
      rw [if_neg (by omega), hl]

theorem release_invariant (h : Invariant l w) {owner : Owner}
    {result : Option (Except TransportError String)} {r : Registry}
    (hpc : w.pc n = .releasing owner result) (hr : w.registry.release owner = some r) :
    Invariant l ({ w with registry := r }.goto n (.returned result)) := by
  have hheld : (w.pc n).reservation = some owner := by rw [hpc]; rfl
  obtain ⟨count, hl, he⟩ := h.release_some hheld
  cases hr.symm.trans he
  have hstep : ∀ f : Pc → ℕ, f .idle = 0 → f (.returned result) = 0 →
      total f (w.goto n (.returned result)).tasks + f (.releasing owner result) =
        total f w.tasks := by
    intro f hf hreturned
    have ht := total_goto (w := w) (n := n) hf (.returned result)
    rw [hpc, hreturned] at ht
    exact ht
  have hlookup : ∀ owner', ((if count = 0 then w.registry.pending.erase owner
      else w.registry.pending.insert owner count).lookup owner').getD 0 =
      if owner' = owner then count else (w.registry.pending.lookup owner').getD 0 := by
    intro owner'
    by_cases ho : owner' = owner
    · subst ho
      by_cases hz : count = 0
      · simp [hz]
      · simp [hz]
    · by_cases hz : count = 0
      · simp [hz, ho, AList.lookup_erase_ne ho]
      · simp [hz, ho, AList.lookup_insert_ne ho]
  have hun : ∀ f : Pc → ℕ, f .idle = 0 → f (.returned result) = 0 →
      total f (w.goto n (.returned result)).tasks ≤ total f w.tasks := by
    intro f hf hreturned
    have := hstep f hf hreturned
    omega
  constructor
  · have ht := hstep held rfl rfl
    have hcount := h.count
    simp only [held, Pc.reservation, Option.isSome_some, if_true] at ht
    change w.registry.pendingCount - 1 = total held (w.goto n _).tasks
    omega
  · intro owner'
    have ht := hstep (heldFor owner') rfl rfl
    have hcount := h.by_owner owner'
    change ((if count = 0 then w.registry.pending.erase owner
      else w.registry.pending.insert owner count).lookup owner').getD 0 =
        total (heldFor owner') (w.goto n _).tasks
    rw [hlookup]
    by_cases ho : owner' = owner
    · subst ho
      simp only [heldFor, Pc.reservation, if_true] at ht ⊢
      simp only [hl, Option.getD_some] at hcount
      omega
    · have hzero : heldFor owner' (.releasing owner result) = 0 := by
        simp [heldFor, Pc.reservation, Ne.symm ho]
      rw [if_neg ho]
      omega
  · have hsum := h.sum
    change total id (if count = 0 then w.registry.pending.erase owner
      else w.registry.pending.insert owner count) = w.registry.pendingCount - 1
    by_cases hz : count = 0
    · have ht := total_erase (f := id) hl
      simp only [hz, if_true, id] at ht ⊢
      omega
    · have ht := total_insert_old (f := id) (c := count) hl
      simp only [hz, if_false, id] at ht ⊢
      omega
  · intro owner'
    change (if count = 0 then w.registry.pending.erase owner
      else w.registry.pending.insert owner count).lookup owner' ≠ some 0
    by_cases ho : owner' = owner
    · subst ho
      by_cases hz : count = 0 <;> simp [hz]
    · have hold := h.positive owner'
      by_cases hz : count = 0
      · simpa [hz, AList.lookup_erase_ne ho] using hold
      · simpa [hz, AList.lookup_insert_ne ho] using hold
  · exact le_trans (Nat.add_le_add_left (hun uncommitted rfl rfl) _) h.capacity
  · intro owner'
    exact le_trans (Nat.add_le_add_left (hun (uncommittedFor owner') rfl rfl) _)
      (h.partition owner')
  · exact h.stopped

def Pc.created : Pc → Option String
  | .releasing _ (some (.ok id)) | .returned (some (.ok id)) => some id
  | _ => none

def Advances (w v : World) : Prop :=
  ∃ n pc r, Shrinks w.registry r ∧ r.stopped = w.registry.stopped ∧
    pc.reservation = (w.pc n).reservation ∧ pc.committed = (w.pc n).committed ∧
    pc.created = none ∧ v = { w with registry := r }.goto n pc

theorem advances_goto {pc pc' : Pc} (h : w.pc n = pc) (hr : pc'.reservation = pc.reservation)
    (hc : pc'.committed = pc.committed) (hn : pc'.created = none) : Advances w (w.goto n pc') := by
  subst h
  exact ⟨n, pc', w.registry, shrinks_refl _, rfl, hr, hc, hn, rfl⟩

/-- Everything that a step of a call can do. -/
theorem work_cases {e : Event} (h : work l w e = some v) :
    Advances w v ∨
    (∃ n owner ages r, w.pc n = .swept owner ages ∧ w.registry.reserve l owner = .ok r ∧
      v = { w with registry := r }.goto n (.building owner ages)) ∨
    (∃ n owner ages id life, w.pc n = .built owner ages ∧ w.registry.contexts.lookup id = none ∧
      w.registry.stopped = false ∧
      v = { w with registry := { w.registry with
        contexts := w.registry.contexts.insert id ⟨owner, ages, life⟩ } }.goto n
          (.releasing owner (some (.ok id)))) ∨
    (∃ n owner result r, w.pc n = .releasing owner result ∧ w.registry.release owner = some r ∧
      v = { w with registry := r }.goto n (.returned result)) := by
  cases e with
  | call n owner ages =>
    simp only [work] at h
    split at h
    · next hpc =>
      cases h
      exact .inl (advances_goto hpc rfl rfl rfl)
    · cases h
  | refuse n e =>
    simp only [work] at h
    split at h
    · next hpc =>
      cases h
      exact .inl (advances_goto hpc rfl rfl rfl)
    · cases h
  | sweep n now =>
    simp only [work] at h
    split at h
    · next owner ages hpc =>
      cases h
      refine .inl ⟨n, _, _, shrinks_cleanup w.registry now, rfl, ?_, ?_, rfl, rfl⟩
      · rw [hpc]
        rfl
      · rw [hpc]
        rfl
    · cases h
  | reserve n =>
    simp only [work] at h
    split at h
    · next owner ages hpc =>
      split at h
      · next r hr =>
        cases h
        exact .inr (.inl ⟨n, owner, ages, r, hpc, hr, rfl⟩)
      · cases h
        exact .inl (advances_goto hpc rfl rfl rfl)
    · cases h
  | build n =>
    simp only [work] at h
    split at h
    · next hpc =>
      cases h
      exact .inl (advances_goto hpc rfl rfl rfl)
    · cases h
  | buildFailed n e =>
    simp only [work] at h
    split at h
    · next hpc =>
      cases h
      exact .inl (advances_goto hpc rfl rfl rfl)
    · cases h
  | dropFuture n =>
    simp only [work] at h
    split at h
    · next hpc =>
      cases h
      exact .inl (advances_goto hpc rfl rfl rfl)
    · cases h
  | commit n id now =>
    simp only [work] at h
    split at h
    · next owner ages hpc =>
      split at h
      · next hid =>
        cases h
        cases hstop : w.registry.stopped with
        | true =>
          simp only [Registry.commit, hstop, if_true]
          exact .inl (advances_goto hpc rfl rfl rfl)
        | false =>
          refine .inr (.inr (.inl ⟨n, owner, ages, id, ⟨now, now, false⟩, hpc, ?_, rfl, ?_⟩))
          · simpa using hid
          · simp only [Registry.commit, hstop, Bool.false_eq_true, if_false]
      · cases h
    · cases h
  | release n =>
    simp only [work] at h
    split at h
    · next owner result hpc =>
      obtain ⟨r, hr, rfl⟩ := Option.map_eq_some_iff.mp h
      exact .inr (.inr (.inr ⟨n, owner, result, r, hpc, hr, rfl⟩))
    · cases h
  | _ => cases h

theorem work_invariant {e : Event} (h : Invariant l w) (hn : work l w e = some v) :
    Invariant l v := by
  rcases work_cases hn with ⟨n, pc, r, hs, -, hr, hc, -, rfl⟩ |
    ⟨n, owner, ages, r, hpc, hr, rfl⟩ | ⟨n, owner, ages, id, life, hpc, hid, hstop, rfl⟩ |
    ⟨n, owner, result, r, hpc, hr, rfl⟩
  · exact (hs.invariant h).goto hr hc
  · exact reserve_invariant h (by rw [hpc]; rfl) hr
  · exact commit_invariant h life hpc hid hstop
  · exact release_invariant h hpc hr

theorem next_invariant {e : Event} (h : Invariant l w) (hn : next l w e = some v) :
    Invariant l v := by
  unfold next at hn
  split at hn
  · next registry hr =>
    cases hn
    exact (shrinks_operate hr).invariant h
  · exact work_invariant h hn

theorem pc_goto (m : ℕ) (pc : Pc) : (w.goto n pc).pc m = if m = n then pc else w.pc m := by
  by_cases hm : m = n
  · subst hm
    simp [World.pc, World.goto]
  · simp [World.pc, World.goto, AList.lookup_insert_ne hm, hm]

theorem created_goto {pc : Pc} (hpc : pc.created = none ∨ pc.created = (w.pc n).created) (m : ℕ)
    {id : String} (h : ((w.goto n pc).pc m).created = some id) : (w.pc m).created = some id := by
  rw [pc_goto] at h
  split at h
  · next hm =>
    subst hm
    rcases hpc with hnone | hsame
    · cases hnone.symm.trans h
    · exact hsame.symm.trans h
  · exact h

theorem operate_stopped {r s : Registry} {e : Event} (h : operate r e = some s)
    (hstop : r.stopped = true) : s.stopped = true := by
  cases e with
  | get owner id now =>
    cases h
    unfold Registry.get
    split
    · exact hstop
    · split
      · split <;> exact hstop
      · exact hstop
  | touch id now =>
    cases h
    unfold Registry.touch
    split
    · exact hstop
    · split <;> exact hstop
  | close owner id =>
    cases h
    unfold Registry.close
    split <;> exact hstop
  | cleanup now => cases h; exact hstop
  | shutdown => cases h; rfl
  | _ => cases h

theorem release_stopped {r s : Registry} {owner : Owner} (h : r.release owner = some s) :
    s.stopped = r.stopped := by
  unfold Registry.release at h
  split at h
  · cases h
  · split at h
    · cases h; rfl
    · cases h
    · cases h; rfl

/-- A stopped store stays stopped, and no call commits a context there. -/
theorem work_stopped {e : Event} (hstop : w.registry.stopped = true) (h : work l w e = some v) :
    v.registry.stopped = true ∧
      ∀ m id, (v.pc m).created = some id → (w.pc m).created = some id := by
  rcases work_cases h with ⟨n, pc, r, -, hsame, -, -, hnone, rfl⟩ |
    ⟨n, owner, ages, r, -, hr, -⟩ | ⟨n, owner, ages, id, life, -, -, hrun, -⟩ |
    ⟨n, owner, result, r, hpc, hr, rfl⟩
  · exact ⟨hsame.trans hstop, fun m id => created_goto (.inl hnone) m⟩
  · cases (reserve_ok hr).1.symm.trans hstop
  · cases hrun.symm.trans hstop
  · have hsame : (Pc.returned result).created = (w.pc n).created := by
      rw [hpc]
      cases result with
      | none => rfl
      | some r => cases r <;> rfl
    exact ⟨(release_stopped hr).trans hstop, fun m id => created_goto (.inr hsame) m⟩

theorem next_stopped {e : Event} (hstop : w.registry.stopped = true) (h : next l w e = some v) :
    v.registry.stopped = true ∧
      ∀ m id, (v.pc m).created = some id → (w.pc m).created = some id := by
  unfold next at h
  split at h
  · next registry hr =>
    cases h
    exact ⟨operate_stopped hr hstop, fun _ _ => id⟩
  · exact work_stopped hstop h

theorem run_stopped {es : List Event} (hstop : w.registry.stopped = true)
    (h : (machine l).run w es = some v) :
    v.registry.stopped = true ∧
      ∀ m id, (v.pc m).created = some id → (w.pc m).created = some id := by
  refine Machine.run_preserves (P := fun u => u.registry.stopped = true ∧
    ∀ m id, (u.pc m).created = some id → (w.pc m).created = some id) ?_
    ⟨hstop, fun _ _ => id⟩ h
  intro s e t hs ht
  obtain ⟨hsstop, hsold⟩ := hs
  obtain ⟨htstop, htold⟩ := next_stopped hsstop ht
  exact ⟨htstop, fun m id hm => hsold m id (htold m id hm)⟩

structure Bounded (l : ContextLimits) (w : World) : Prop where
  capacity : w.registry.contexts.entries.length + total uncommitted w.tasks ≤ l.maxContexts
  partition : ∀ owner, total (ownedBy owner) w.registry.contexts +
    total (uncommittedFor owner) w.tasks ≤ l.maxContextsPerPartition
  count : w.registry.pendingCount = total held w.tasks
  sum : w.registry.pendingCount = total id w.registry.pending
  positive : ∀ owner, w.registry.pending.lookup owner ≠ some 0
  no_underflow : ∀ n owner, (w.pc n).reservation = some owner →
    (w.registry.release owner).isSome = true

theorem Invariant.bounded (h : Invariant l w) : Bounded l w where
  capacity := h.capacity
  partition := h.partition
  count := h.count
  sum := h.sum.symm
  positive := h.positive
  no_underflow := by
    intro n owner hpc
    obtain ⟨count, -, hr⟩ := h.release_some hpc
    rw [hr]
    rfl

theorem invariant_of_run {es : List Event} (h : (machine l).run .initial es = some w) :
    Invariant l w :=
  Machine.run_preserves (P := Invariant l) (fun _ _ _ hs hn => next_invariant hs hn) .initial h

/-- Capacity, the counters and shutdown. A call that returns a context after the shutdown had
put it into the registry before. -/
theorem store_capacity (es fs : List Event) (h : (machine l).run .initial es = some w)
    (hv : (machine l).run w fs = some v) :
    Bounded l w ∧
      (w.registry.stopped = true → v.registry.stopped = true ∧ v.registry.contexts.entries = [] ∧
        ∀ n id, v.pc n = .returned (some (.ok id)) → (w.pc n).created = some id) := by
  refine ⟨(invariant_of_run h).bounded, ?_⟩
  intro hstop
  obtain ⟨hvstop, hold⟩ := run_stopped hstop hv
  have hinv := invariant_of_run (Machine.run_trans h hv)
  refine ⟨hvstop, hinv.stopped hvstop, ?_⟩
  intro n id hpc
  apply hold n id
  rw [hpc]
  rfl

private def contested : List Event :=
  [.call 0 ⟨"p", "a"⟩ ⟨5, 9⟩, .sweep 0 0, .reserve 0, .call 1 ⟨"p", "a"⟩ ⟨5, 9⟩, .sweep 1 0,
    .reserve 1, .build 0, .commit 0 "c" 1, .get ⟨"p", "a"⟩ "c" 2, .shutdown]

private def stopped : List Event :=
  [.release 0, .call 2 ⟨"q", "b"⟩ ⟨5, 9⟩, .sweep 2 3, .reserve 2]

theorem store_capacity_one_place :
    ∃ w v, (machine ⟨1, 1⟩).run .initial contested = some w ∧
      (machine ⟨1, 1⟩).run w stopped = some v ∧
      w.registry.stopped = true ∧ w.pc 1 = .returned (some (.error contextLimit)) ∧
      v.pc 2 = .returned (some (.error notFound)) ∧ Bounded ⟨1, 1⟩ w ∧
      v.registry.contexts.entries = [] ∧ (w.pc 0).created = some "c" := by
  refine ⟨_, _, rfl, rfl, by decide, by decide, by decide, ?_⟩
  obtain ⟨hbound, hstop⟩ := store_capacity (l := ⟨1, 1⟩) contested stopped rfl rfl
  obtain ⟨-, hempty, hold⟩ := hstop (by decide)
  exact ⟨hbound, hempty, hold 0 "c" (by decide)⟩

/-- A context committed before the shutdown is returned after it: the reservation is dropped
in between. -/
theorem create_returns_after_shutdown :
    ¬ ∀ (l : ContextLimits) (es fs : List Event) (w v : World),
      (machine l).run .initial es = some w → (machine l).run w fs = some v →
      w.registry.stopped = true →
      ∀ n id, v.pc n = .returned (some (.ok id)) → w.pc n = .returned (some (.ok id)) := by
  intro h
  have hold := h ⟨1, 1⟩
    [.call 0 ⟨"p", "a"⟩ ⟨5, 9⟩, .sweep 0 0, .reserve 0, .build 0, .commit 0 "c" 1, .shutdown]
    [.release 0] _ _ rfl rfl (by decide) 0 "c" (by decide)
  revert hold
  decide

end ContextStore
