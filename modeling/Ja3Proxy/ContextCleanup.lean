import Ja3Proxy.SessionContexts
import Ja3Proxy.TransitionRuns

/-! A client that opens and closes sessions (`client.ts`, `fetch.ts`): which contexts it still owes
a DELETE, over every order of openings, rebinds, aborts and closes and every answer of the service.
Expiry of a deadline is an event. -/
namespace ContextCleanup

open SessionContexts TransitionRuns

inductive ClientAttempt where
  | none
  | stopping
  | sessions (waiting : List ℕ) (failed : Bool)
  | fetchers
  | resolved
  deriving DecidableEq

inductive FetcherAttempt where
  | none
  | stopping
  | joined (i : ℕ)
  | resolved
  deriving DecidableEq

/-- `handle` is the session that the first fetch of a scoped fetcher opens. -/
structure Fetcher where
  handle : Option ℕ
  attempt : FetcherAttempt

structure State where
  session : ℕ → Session
  openings : List ℕ
  closed : Bool
  attempt : ClientAttempt
  fetcher : ℕ → Fetcher

def State.initial : State where
  session := fun _ => .absent
  openings := []
  closed := false
  attempt := .none
  fetcher := fun _ => ⟨none, .none⟩

inductive Event where
  | openSession (i : ℕ)
  | fetch (f i : ℕ)
  | session (i : ℕ) (e : SessionEvent)
  | register (i : ℕ) (aborted : Bool)
  | closeSession (i : ℕ)
  | closeFetcher (f : ℕ)
  | joinSession (f : ℕ)
  | settleFetcher (f : ℕ) (ok : Bool)
  | closeClient
  | readyClient (expired : Bool)
  | expireClient
  | sessionClosed (i : ℕ) (ok : Bool)
  | settleClient
  | finishClient (ok : Bool)

namespace State

variable (s : State)

def putSession (i : ℕ) (session : Session) : State :=
  { s with session := Function.update s.session i session }

def putFetcher (f : ℕ) (fetcher : Fetcher) : State :=
  { s with fetcher := Function.update s.fetcher f fetcher }

def openSession (i : ℕ) (retain : Bool) : Option State :=
  if s.closed = false ∧ (s.session i).opening = .absent then
    some ({ s with openings := i :: s.openings }.putSession i
      { s.session i with opening := .posting retain })
  else none

def opened : Bool :=
  s.openings.all fun i => (s.session i).opening == .settled || (s.session i).opening == .failed

def known (id : String) : Bool := s.openings.any fun i => decide (id ∈ (s.session i).used)

def sessions : List ℕ := s.openings.filter fun i => (s.session i).listed

/-- `owned.close` for every session of `client.sessions`. -/
def closeSessions (expired failed : Bool) : State :=
  { s with
    session := fun i => if (s.session i).listed then (s.session i).close expired else s.session i
    attempt := .sessions s.sessions failed }

end State

def next (s : State) : Event → Option State
  | .openSession i => s.openSession i false
  | .fetch f i =>
    if (s.fetcher f).handle = none then
      (s.openSession i true).map fun u => u.putFetcher f { s.fetcher f with handle := some i }
    else none
  | .session i e =>
    -- the service returns an identifier that it has not used before
    if e.fresh.any s.known then none else ((s.session i).next e).map (s.putSession i)
  | .register i aborted => ((s.session i).register s.closed aborted).map (s.putSession i)
  | .closeSession i =>
    if (s.session i).opening = .settled then some (s.putSession i ((s.session i).close false))
    else none
  | .closeFetcher f =>
    if (s.fetcher f).attempt = .none then
      some (s.putFetcher f { s.fetcher f with attempt := .stopping })
    else none
  | .joinSession f =>
    match (s.fetcher f).attempt, (s.fetcher f).handle with
    | .stopping, some i =>
      if (s.session i).opening = .settled then
        some ((s.putFetcher f { s.fetcher f with attempt := .joined i }).putSession i
          ((s.session i).close false))
      else none
    | _, _ => none
  | .settleFetcher f ok =>
    let settled := some (s.putFetcher f
      { s.fetcher f with attempt := if ok then .resolved else .none })
    match (s.fetcher f).attempt with
    | .stopping =>
      if ok = false ∨ (s.fetcher f).handle.all fun i =>
        (s.session i).opening == .failed then settled
      else none
    | .joined i => if ok = false ∨ (s.session i).attempt = .resolved then settled else none
    | _ => none
  | .closeClient =>
    if s.attempt = .none then
      some { s with
        closed := true
        attempt := .stopping
        session := fun i =>
          if (s.session i).listed then (s.session i).stopAccepting else s.session i }
    else none
  | .readyClient expired =>
    if s.attempt = .stopping ∧ s.opened then some (s.closeSessions expired false) else none
  | .expireClient =>
    if s.attempt = .stopping ∧ s.sessions ≠ [] then some (s.closeSessions true true) else none
  | .sessionClosed i ok =>
    match s.attempt with
    | .sessions waiting failed =>
      if i ∈ waiting ∧ (ok = false ∨ (s.session i).attempt = .resolved) then
        some { s with attempt := .sessions (waiting.filter (· != i)) (failed || !ok) }
      else none
    | _ => none
  | .settleClient =>
    if s.attempt = .sessions [] false then some { s with attempt := .fetchers }
    else if s.attempt = .sessions [] true then some { s with attempt := .none }
    else none
  | .finishClient ok =>
    if s.attempt = .fetchers then some { s with attempt := if ok then .resolved else .none }
    else none

def machine : Machine State Event := ⟨.initial, next⟩

def Event.fresh (j : ℕ) : Event → Option String
  | .session i e => if i = j then e.fresh else none
  | _ => none

def Event.client : Event → Bool
  | .closeClient | .readyClient _ | .expireClient | .sessionClosed _ _ | .settleClient
  | .finishClient _ => true
  | _ => false

/-- The moves of one session; `closed` is the client's, `begun` says that its opening is known. -/
inductive Move (closed : Bool) (begun : Prop) (fresh : Option String) (s : Session) : Session → Prop
  where
  | same : Move closed begun fresh s s
  | next {e : SessionEvent} {v : Session} (hfresh : e.fresh = fresh) (hv : s.next e = some v) :
    Move closed begun fresh s v
  | close (hopening : s.opening = .closing ∨ s.opening = .settled) (expired : Bool) :
    Move closed begun fresh s (s.close expired)
  | stop : Move closed begun fresh s s.stopAccepting
  | register {aborted : Bool} {v : Session} (hv : s.register closed aborted = some v) :
    Move closed begun fresh s v
  | post (hopen : closed = false) (habsent : s.opening = .absent) (hbegun : begun) (retain : Bool) :
    Move closed begun fresh s { s with opening := .posting retain }

structure Step (s v : State) (e : Event) : Prop where
  openings : ∀ i ∈ s.openings, i ∈ v.openings
  session : ∀ j, Move s.closed (j ∈ v.openings) (e.fresh j) (s.session j) (v.session j)
  fresh : ∀ j id, e.fresh j = some id → s.known id = false
  client : e.client = false → v.attempt = s.attempt ∧ v.closed = s.closed

variable {s v : State}

theorem registered_of_listed {s : Session} (h : Sound s) (hlisted : s.listed = true) :
    s.opening = .closing ∨ s.opening = .settled := by
  have hopening := h.opening
  unfold OpeningOk at hopening
  split at hopening
  next => simp [hopening.2.2.2.2.2] at hlisted
  next => simp [hopening.2.2.2.2.2] at hlisted
  next => simp [hopening.2.2.2.2.2] at hlisted
  next => simp [hopening.2.2.2] at hlisted
  next heq => exact .inl heq
  next heq => exact .inr heq

theorem openSession_spec {i : ℕ} {retain : Bool} (hv : s.openSession i retain = some v) :
    s.closed = false ∧ (s.session i).opening = .absent ∧
      v = { s with openings := i :: s.openings }.putSession i
        { s.session i with opening := .posting retain } := by
  unfold State.openSession at hv
  split at hv <;> cases hv
  next hopen => exact ⟨hopen.1, hopen.2, rfl⟩

/-- A step that moves one session. -/
theorem step_one {e : Event} {i : ℕ} {session : Session}
    (hopenings : ∀ j ∈ s.openings, j ∈ v.openings)
    (hsession : v.session = Function.update s.session i session)
    (hmove : Move s.closed (i ∈ v.openings) (e.fresh i) (s.session i) session)
    (hfresh : ∀ j id, e.fresh j = some id → s.known id = false)
    (hclient : v.attempt = s.attempt ∧ v.closed = s.closed) : Step s v e := by
  refine ⟨hopenings, ?_, hfresh, fun _ => hclient⟩
  intro j
  rw [hsession]
  by_cases hj : j = i
  · subst hj
    simpa using hmove
  · simpa [hj] using Move.same

/-- A step that moves no session. -/
theorem step_none {e : Event} (hopenings : v.openings = s.openings)
    (hsession : v.session = s.session)
    (hfresh : ∀ j, e.fresh j = none)
    (hclient : e.client = false → v.attempt = s.attempt ∧ v.closed = s.closed) : Step s v e := by
  refine ⟨?_, ?_, ?_, hclient⟩
  · intro i hi
    rwa [hopenings]
  · intro j
    rw [hsession]
    exact .same
  · intro j id hid
    rw [hfresh j] at hid
    cases hid

theorem step_closeSessions {e : Event} (h : ∀ i, Sound (s.session i)) (expired failed : Bool)
    (hfresh : ∀ j, e.fresh j = none) (hclient : e.client = true) :
    Step s (s.closeSessions expired failed) e := by
  refine ⟨fun _ => id, ?_, ?_, ?_⟩
  · intro j
    simp only [State.closeSessions]
    split
    next hlisted => exact .close (registered_of_listed (h j) hlisted) expired
    next => exact .same
  · intro j id hid
    rw [hfresh j] at hid
    cases hid
  · intro hno
    rw [hclient] at hno
    cases hno

theorem step_cases {e : Event} (h : ∀ i, Sound (s.session i)) (hv : next s e = some v) :
    Step s v e := by
  cases e with
  | openSession i =>
    obtain ⟨hopen, habsent, rfl⟩ := openSession_spec hv
    exact step_one (fun _ => List.mem_cons_of_mem i) rfl
      (.post hopen habsent List.mem_cons_self false) nofun ⟨rfl, rfl⟩
  | fetch f i =>
    simp only [next] at hv
    split at hv
    next =>
      obtain ⟨u, hu, rfl⟩ := Option.map_eq_some_iff.mp hv
      obtain ⟨hopen, habsent, rfl⟩ := openSession_spec hu
      exact step_one (fun _ => List.mem_cons_of_mem i) rfl
        (.post hopen habsent List.mem_cons_self true) nofun ⟨rfl, rfl⟩
    next => cases hv
  | session i e =>
    simp only [next] at hv
    split at hv
    next => cases hv
    next hfresh =>
      obtain ⟨session, hnext, rfl⟩ := Option.map_eq_some_iff.mp hv
      refine step_one (fun _ => id) rfl (.next (by simp [Event.fresh]) hnext) ?_ ⟨rfl, rfl⟩
      intro j id hid
      simp only [Event.fresh] at hid
      split at hid
      next => simpa [hid] using hfresh
      next => cases hid
  | register i aborted =>
    obtain ⟨session, hregister, rfl⟩ := Option.map_eq_some_iff.mp hv
    exact step_one (fun _ => id) rfl (.register hregister) nofun ⟨rfl, rfl⟩
  | closeSession i =>
    simp only [next] at hv
    split at hv <;> cases hv
    next hsettled =>
      exact step_one (fun _ => id) rfl (.close (.inr hsettled) false) nofun ⟨rfl, rfl⟩
  | joinSession f =>
    simp only [next] at hv
    split at hv
    next i _ _ =>
      split at hv <;> cases hv
      next hsettled =>
        exact step_one (fun _ => id) rfl (.close (.inr hsettled) false) nofun ⟨rfl, rfl⟩
    next => cases hv
  | closeFetcher f =>
    simp only [next] at hv
    split at hv <;> cases hv
    exact step_none rfl rfl (fun _ => rfl) fun _ => ⟨rfl, rfl⟩
  | settleFetcher f ok =>
    simp only [next] at hv
    split at hv
    next =>
      split at hv <;> cases hv
      exact step_none rfl rfl (fun _ => rfl) fun _ => ⟨rfl, rfl⟩
    next =>
      split at hv <;> cases hv
      exact step_none rfl rfl (fun _ => rfl) fun _ => ⟨rfl, rfl⟩
    next => cases hv
  | closeClient =>
    simp only [next] at hv
    split at hv <;> cases hv
    refine ⟨fun _ => id, ?_, nofun, nofun⟩
    intro j
    dsimp only
    split
    next => exact .stop
    next => exact .same
  | readyClient expired =>
    simp only [next] at hv
    split at hv <;> cases hv
    exact step_closeSessions h expired false (fun _ => rfl) rfl
  | expireClient =>
    simp only [next] at hv
    split at hv <;> cases hv
    exact step_closeSessions h true true (fun _ => rfl) rfl
  | sessionClosed i ok =>
    simp only [next] at hv
    split at hv
    next =>
      split at hv <;> cases hv
      exact step_none rfl rfl (fun _ => rfl) nofun
    next => cases hv
  | settleClient =>
    simp only [next] at hv
    split at hv
    next =>
      cases hv
      exact step_none rfl rfl (fun _ => rfl) nofun
    next =>
      split at hv <;> cases hv
      exact step_none rfl rfl (fun _ => rfl) nofun
  | finishClient ok =>
    simp only [next] at hv
    split at hv <;> cases hv
    exact step_none rfl rfl (fun _ => rfl) nofun

section Moves

variable {closed : Bool} {begun : Prop} {fresh : Option String} {s v : Session}

theorem Move.sound (hm : Move closed begun fresh s v) (h : Sound s)
    (hfresh : ∀ id, fresh = some id → id ∉ s.used) : Sound v := by
  cases hm with
  | same => exact h
  | next he hv => exact next_sound h (fun id hid => hfresh id (he ▸ hid)) hv
  | close hopening expired => exact close_sound h hopening expired
  | stop => exact stopAccepting_sound h
  | register hv => exact (register_sound h hv).1
  | post _ habsent _ retain => exact sound_empty h (empty_of_absent h habsent) (.inr ⟨retain, rfl⟩)

theorem close_used (s : Session) (expired : Bool) : (s.close expired).used = s.used := by
  unfold Session.close
  split <;> rfl

theorem register_spec {aborted : Bool} (hv : s.register closed aborted = some v) :
    v.used = s.used ∧ v.opening ≠ .absent ∧ s.opening ≠ .absent ∧ s.opening ≠ .failed := by
  unfold Session.register at hv
  split at hv
  next heq =>
    dsimp only at hv
    split at hv <;> cases hv
    · refine ⟨close_used _ false, ?_, by simp [heq], by simp [heq]⟩
      unfold Session.close
      split <;> exact nofun
    · exact ⟨rfl, nofun, by simp [heq], by simp [heq]⟩
  next => cases hv

theorem Move.used (hm : Move closed begun fresh s v) {id : String} (hid : id ∈ v.used) :
    id ∈ s.used ∨ fresh = some id := by
  cases hm with
  | same => exact .inl hid
  | next he hv => exact (next_used hv hid).imp_right fun hnew => he ▸ hnew
  | close _ expired => exact .inl (close_used s expired ▸ hid)
  | stop => exact .inl hid
  | register hv => exact .inl ((register_spec hv).1 ▸ hid)
  | post => exact .inl hid

theorem close_opening (s : Session) (expired : Bool) : (s.close expired).opening = s.opening := by
  unfold Session.close
  split <;> rfl

theorem Move.posted (hm : Move closed begun fresh s v) (h : s.opening ≠ .absent → begun)
    (hv : v.opening ≠ .absent) : begun := by
  cases hm with
  | same => exact h hv
  | next he hnext =>
    rcases next_attempt hnext with ⟨-, hsame | ⟨hne, -⟩⟩ | ⟨hsame, -⟩
    · exact h (hsame ▸ hv)
    · exact h hne
    · exact h (hsame ▸ hv)
  | close _ expired => exact h (close_opening s expired ▸ hv)
  | stop => exact h hv
  | register hr => exact h (register_spec hr).2.2.1
  | post _ _ hbegun _ => exact hbegun

/-- Nothing is owed for the session, and nothing will be once the client is closed. -/
def Clear (s : Session) : Prop :=
  s.opening = .absent ∨ s.opening = .failed ∨ s.attempt = .resolved

theorem Move.clear (hm : Move true begun fresh s v) (h : Sound s) (hclear : Clear s) : Clear v := by
  cases hm with
  | same => exact hclear
  | next he hnext =>
    rcases next_attempt hnext with ⟨hattempt, hopening⟩ | ⟨-, hne, hunresolved⟩
    · rcases hclear with habsent | hfailed | hresolved
      · rcases hopening with hsame | hother
        · exact .inl (hsame.trans habsent)
        · exact absurd habsent hother.1
      · rcases hopening with hsame | hother
        · exact .inr (.inl (hsame.trans hfailed))
        · exact absurd hfailed hother.2.1
      · exact .inr (.inr (hattempt.trans hresolved))
    · obtain ⟨hopening, -⟩ := registered_of_attempt h hne
      rcases hclear with habsent | hfailed | hresolved
      · simp [habsent] at hopening
      · simp [hfailed] at hopening
      · exact absurd hresolved hunresolved
  | close hopening expired =>
    rcases hclear with habsent | hfailed | hresolved
    · simp [habsent] at hopening
    · simp [hfailed] at hopening
    · right
      right
      simp [Session.close, hresolved]
  | stop => exact hclear
  | register hr =>
    obtain ⟨-, -, hne, hunfailed⟩ := register_spec hr
    rcases hclear with habsent | hfailed | hresolved
    · exact absurd habsent hne
    · exact absurd hfailed hunfailed
    · have hopening := h.opening
      unfold Session.register at hr
      split at hr
      next heq =>
        rw [OpeningOk, heq] at hopening
        simp [hopening.2.1] at hresolved
      next => cases hr
  | post hopen _ _ _ => cases hopen

end Moves

def ClientOk (s : State) : Prop :=
  match s.attempt with
  | .none => True
  | .stopping => s.closed = true
  | .sessions waiting failed =>
    s.closed = true ∧ (failed = false → ∀ i, i ∈ waiting ∨ Clear (s.session i))
  | .fetchers | .resolved => s.closed = true ∧ ∀ i, Clear (s.session i)

structure Invariant (s : State) : Prop where
  sound : ∀ i, Sound (s.session i)
  apart : ∀ i j id, id ∈ (s.session i).used → id ∈ (s.session j).used → i = j
  begun : ∀ i, (s.session i).opening ≠ .absent → i ∈ s.openings
  client : ClientOk s

/-- A known identifier is known to the client. -/
theorem Invariant.known (h : Invariant s) {i : ℕ} {id : String} (hid : id ∈ (s.session i).used) :
    s.known id = true := by
  have hopened : (s.session i).opening ≠ .absent := by
    intro habsent
    have hempty := (empty_of_absent (h.sound i) habsent).used
    simp [hempty] at hid
  exact List.any_eq_true.mpr ⟨i, h.begun i hopened, by simpa using hid⟩

theorem fresh_target {e : Event} {i j : ℕ} {id id' : String} (hi : e.fresh i = some id)
    (hj : e.fresh j = some id') : i = j := by
  cases e with
  | session k e =>
    simp only [Event.fresh] at hi hj
    split at hi
    next hki =>
      split at hj
      next hkj => exact hki.symm.trans hkj
      next => cases hj
    next => cases hi
  | _ => cases hi

/-- While the client's close does not move, sessions that are clear stay clear. -/
theorem Invariant.clear_step {e : Event} (h : Invariant s) (hstep : Step s v e)
    (hclosed : s.closed = true) {i : ℕ} (hclear : Clear (s.session i)) : Clear (v.session i) := by
  have hmove := hstep.session i
  rw [hclosed] at hmove
  exact hmove.clear (h.sound i) hclear

theorem close_clear {s : Session} (hclear : Clear s) (expired : Bool) :
    Clear (s.close expired) := by
  rcases hclear with habsent | hfailed | hresolved
  · exact .inl ((close_opening s expired).trans habsent)
  · exact .inr (.inl ((close_opening s expired).trans hfailed))
  · right
    right
    simp [Session.close, hresolved]

/-- When every opening is done, a session is in `client.sessions` or it is clear. -/
theorem Invariant.listed_or_clear (h : Invariant s) (hopened : s.opened = true) (i : ℕ) :
    i ∈ s.sessions ∨ Clear (s.session i) := by
  by_cases habsent : (s.session i).opening = .absent
  · exact .inr (.inl habsent)
  · have hmem := h.begun i habsent
    have hdone := List.all_eq_true.mp hopened i hmem
    simp only [Bool.or_eq_true, beq_iff_eq] at hdone
    rcases hdone with hsettled | hfailed
    · have hopening := (h.sound i).opening
      rw [OpeningOk, hsettled] at hopening
      rcases hopening.1 with hlisted | hresolved
      · exact .inl (List.mem_filter.mpr ⟨hmem, hlisted⟩)
      · exact .inr (.inr (.inr hresolved))
    · exact .inr (.inr (.inl hfailed))

theorem closeSessions_ok (hclosed : s.closed = true) (expired failed : Bool)
    (hall : failed = false → ∀ i, i ∈ s.sessions ∨ Clear (s.session i)) :
    ClientOk (s.closeSessions expired failed) := by
  refine ⟨hclosed, ?_⟩
  intro hfailed i
  refine (hall hfailed i).imp_right ?_
  intro hclear
  simp only [State.closeSessions]
  split
  next => exact close_clear hclear expired
  next => exact hclear

theorem client_step {e : Event} (h : Invariant s) (he : e.client = true) (hv : next s e = some v) :
    ClientOk v := by
  have hclient := h.client
  cases e with
  | closeClient =>
    simp only [next] at hv
    split at hv <;> cases hv
    exact rfl
  | readyClient expired =>
    simp only [next] at hv
    split at hv <;> cases hv
    next hready =>
      rw [ClientOk, hready.1] at hclient
      exact closeSessions_ok hclient expired false fun _ i => h.listed_or_clear hready.2 i
  | expireClient =>
    simp only [next] at hv
    split at hv <;> cases hv
    next hready =>
      rw [ClientOk, hready.1] at hclient
      exact closeSessions_ok hclient true true nofun
  | sessionClosed i ok =>
    simp only [next] at hv
    split at hv
    next waiting failed heq =>
      split at hv <;> cases hv
      next hdone =>
        rw [ClientOk, heq] at hclient
        refine ⟨hclient.1, ?_⟩
        intro hfailed j
        have hfailed' : failed = false ∧ ok = true := by simpa using hfailed
        rcases hclient.2 hfailed'.1 j with hmem | hclear
        · by_cases hji : j = i
          · subst hji
            exact .inr (.inr (.inr (hdone.2.resolve_left (by simp [hfailed'.2]))))
          · exact .inl (List.mem_filter.mpr ⟨hmem, by simpa using hji⟩)
        · exact .inr hclear
    next => cases hv
  | settleClient =>
    simp only [next] at hv
    split at hv
    next heq =>
      cases hv
      rw [ClientOk, heq] at hclient
      exact ⟨hclient.1, fun i => (hclient.2 rfl i).resolve_left List.not_mem_nil⟩
    next =>
      split at hv <;> cases hv
      trivial
  | finishClient ok =>
    simp only [next] at hv
    split at hv <;> cases hv
    next heq =>
      rw [ClientOk, heq] at hclient
      cases ok with
      | true => exact hclient
      | false => trivial
  | _ => cases he

theorem invariant_step {e : Event} (h : Invariant s) (hv : next s e = some v) : Invariant v := by
  have hstep := step_cases h.sound hv
  have hfresh : ∀ i id, e.fresh i = some id → ∀ j, id ∉ (s.session j).used := by
    intro i id hid j hmem
    have hunknown := hstep.fresh i id hid
    rw [h.known hmem] at hunknown
    cases hunknown
  refine ⟨?_, ?_, ?_, ?_⟩
  · intro i
    exact (hstep.session i).sound (h.sound i) fun id hid => hfresh i id hid i
  · intro i j id hi hj
    rcases (hstep.session i).used hi with hi | hi
    · rcases (hstep.session j).used hj with hj | hj
      · exact h.apart i j id hi hj
      · exact absurd hi (hfresh j id hj i)
    · rcases (hstep.session j).used hj with hj | hj
      · exact absurd hj (hfresh i id hi j)
      · exact fresh_target hi hj
  · intro i hi
    exact (hstep.session i).posted (fun hne => hstep.openings i (h.begun i hne)) hi
  · by_cases hevent : e.client = true
    · exact client_step h hevent hv
    · obtain ⟨hattempt, hclosed⟩ := hstep.client (by simpa using hevent)
      have hclient := h.client
      unfold ClientOk at hclient ⊢
      rw [hattempt, hclosed]
      split
      next => trivial
      next heq =>
        rw [heq] at hclient
        exact hclient
      next heq =>
        rw [heq] at hclient
        refine ⟨hclient.1, ?_⟩
        intro hfailed i
        exact (hclient.2 hfailed i).imp_right (h.clear_step hstep hclient.1)
      next heq =>
        rw [heq] at hclient
        exact ⟨hclient.1, fun i => h.clear_step hstep hclient.1 (hclient.2 i)⟩
      next heq =>
        rw [heq] at hclient
        exact ⟨hclient.1, fun i => h.clear_step hstep hclient.1 (hclient.2 i)⟩

theorem invariant_initial : Invariant .initial := by
  refine ⟨fun _ => absent_sound, ?_, ?_, trivial⟩
  · exact fun i j id hi => absurd hi (Finset.notMem_empty id)
  · exact fun i hi => absurd rfl hi

theorem invariant_run {es : List Event} (hrun : machine.run .initial es = some s) :
    Invariant s := by
  apply Machine.run_preserves _ invariant_initial hrun
  intro u e w h hw
  exact invariant_step h hw

def InProgress (s : Session) (id : String) : Prop :=
  (∃ retain, s.opening = .returned retain) ∨ ∃ t, s.tasks t = .received id

def InFlight (s : Session) (id : String) : Prop :=
  (∃ t, s.tasks t = .discarding id ∨ s.tasks t = .deleting id) ∨
    ∃ waiting failed, s.attempt = .deleting waiting failed ∧ id ∈ waiting

/-- Every context that `openContext` has returned is owed by a session of the client until it is
acknowledged, closes resolve only when nothing is owed, and nothing is deleted twice. -/
structure NoOrphans (w : State) : Prop where
  owned : ∀ i, ∀ id ∈ (w.session i).used, id ∉ (w.session i).acknowledged →
    ¬ InProgress (w.session i) id → id ∈ (w.session i).cleanup ∧ (w.session i).listed = true
  kept : ∀ i id, (∀ t, (w.session i).tasks t ≠ .received id) →
    (id ∈ (w.session i).cleanup ↔ id ∈ (w.session i).used ∧ id ∉ (w.session i).acknowledged)
  sessionResolves : ∀ i, (w.session i).attempt = .resolved →
    (w.session i).used ⊆ (w.session i).acknowledged
  clientResolves : w.attempt = .resolved → ∀ i, (w.session i).used ⊆ (w.session i).acknowledged
  rejects : ∀ e v i, next w e = some v → (w.session i).attempt ≠ .none →
    (v.session i).attempt = .none → (v.session i).listed = true ∧
      ∀ id, id ∈ (v.session i).cleanup ↔
        id ∈ (v.session i).used ∧ id ∉ (v.session i).acknowledged
  retries : ∀ i, (w.session i).opening = .settled → (w.session i).attempt = .none →
    ∃ v, next w (.closeSession i) = some v ∧ (v.session i).attempt = .stopping false
  deletes : ∀ i v, next w (.session i .removeAll) = some v →
    ∃ waiting, (v.session i).attempt = .deleting waiting false ∧
      ∀ id, id ∈ waiting ↔ id ∈ (w.session i).used ∧ id ∉ (w.session i).acknowledged
  once : ∀ i j id, InFlight (w.session i) id → id ∉ (w.session j).acknowledged

section Sessions

variable {s v : Session}

theorem resolved_used (h : Sound s) (hresolved : s.attempt = .resolved) :
    s.used ⊆ s.acknowledged := by
  have hattempt := h.attempt
  rw [AttemptOk, hresolved] at hattempt
  intro id hid
  by_contra hunacked
  have hmem := (recorded_quiet h hattempt.2.1 id).mpr ⟨hid, hunacked⟩
  simp [hattempt.2.2] at hmem

theorem clear_used (h : Sound s) (hclear : Clear s) : s.used ⊆ s.acknowledged := by
  have hopening := h.opening
  rcases hclear with habsent | hfailed | hresolved
  · rw [OpeningOk, habsent] at hopening
    simp [hopening.1]
  · rw [OpeningOk, hfailed] at hopening
    simp [hopening.1]
  · exact resolved_used h hresolved

theorem owned_of_sound (h : Sound s) {id : String} (hused : id ∈ s.used)
    (hunacked : id ∉ s.acknowledged)
    (hfree : ¬ InProgress s id) : id ∈ s.cleanup ∧ s.listed = true := by
  have hmem : id ∈ s.cleanup :=
    (h.recorded id).mpr ⟨hused, hunacked, fun t ht => hfree (.inr ⟨t, ht⟩)⟩
  refine ⟨hmem, ?_⟩
  have hopening := h.opening
  have hunresolved : s.attempt ≠ .resolved := fun hresolved =>
    hunacked (resolved_used h hresolved hused)
  unfold OpeningOk at hopening
  split at hopening
  next => simp [hopening.1] at hused
  next => simp [hopening.1] at hused
  next => simp [hopening.1] at hused
  next retain heq => exact absurd (.inl ⟨retain, heq⟩) hfree
  next => exact hopening.1.resolve_right hunresolved
  next => exact hopening.1.resolve_right hunresolved

theorem next_rejected {e : SessionEvent} (h : Sound s) (hv : s.next e = some v)
    (hbefore : s.attempt ≠ .none) (hafter : v.attempt = .none) :
    Quiet v ∧ v.opening = s.opening := by
  rcases next_attempt hv with ⟨hsame, -⟩ | ⟨hopening, -, -⟩
  · exact absurd (hsame.symm.trans hafter) hbefore
  · refine ⟨?_, hopening⟩
    cases e with
    | reject =>
      simp only [Session.next] at hv
      split at hv
      next =>
        split at hv <;> cases hv
        next hstopped =>
          have hquiet := quiet_of_stopped h hstopped
          exact hquiet
      next => cases hv
    | settle =>
      have hattempt := h.attempt
      simp only [Session.next] at hv
      split at hv
      next heq =>
        cases hv
        cases hafter
      next =>
        split at hv <;> cases hv
        next heq =>
          rw [AttemptOk, heq] at hattempt
          exact hattempt.2.1
    | task t e => exact absurd ((onTask_owner hv).attempt.symm.trans hafter) hbefore
    | answer id acknowledged =>
      simp only [Session.next] at hv
      split at hv
      next =>
        split at hv <;> cases hv
        cases hafter
      next => cases hv
    | removeAll =>
      simp only [Session.next] at hv
      split at hv <;> cases hv
      cases hafter
    | _ =>
      simp only [Session.next] at hv
      split at hv <;> cases hv
      exact absurd hafter hbefore

theorem Move.rejected {closed : Bool} {begun : Prop} {fresh : Option String}
    (hm : Move closed begun fresh s v) (h : Sound s) (hbefore : s.attempt ≠ .none)
    (hafter : v.attempt = .none) : Quiet v ∧ v.opening = s.opening := by
  cases hm with
  | same => exact absurd hafter hbefore
  | next _ hv => exact next_rejected h hv hbefore hafter
  | close _ expired =>
    unfold Session.close at hafter
    split at hafter
    next => cases hafter
    next => exact absurd hafter hbefore
  | stop => exact absurd hafter hbefore
  | register hr =>
    have hopening := (registered_of_attempt h hbefore).1
    unfold Session.register at hr
    split at hr
    next heq => simp [heq] at hopening
    next => cases hr
  | post _ _ _ _ => exact absurd hafter hbefore

theorem inFlight_unacknowledged (h : Sound s) {id : String} (hflight : InFlight s id) :
    id ∈ s.used ∧ id ∉ s.acknowledged := by
  rcases hflight with ⟨t, ht⟩ | ⟨waiting, failed, hattempt, hid⟩
  · have hheld : (s.tasks t).held = some id := by
      rcases ht with ht | ht
      · rw [ht]
        rfl
      · rw [ht]
        rfl
    exact ⟨(h.holds t id hheld).used, (h.holds t id hheld).unacknowledged⟩
  · have hok := h.attempt
    rw [AttemptOk, hattempt] at hok
    exact (recorded_quiet h hok.2.1 id).mp (hok.2.2.1 hid)

end Sessions

/-- In every run of the client, whatever the service answers and whoever aborts or closes. -/
theorem no_orphans {es : List Event} {w : State} (hrun : machine.run .initial es = some w) :
    NoOrphans w := by
  have h := invariant_run hrun
  refine ⟨?_, ?_, ?_, ?_, ?_, ?_, ?_, ?_⟩
  · intro i id hused hunacked hfree
    exact owned_of_sound (h.sound i) hused hunacked hfree
  · intro i id hfree
    rw [(h.sound i).recorded id]
    exact ⟨fun hid => ⟨hid.1, hid.2.1⟩, fun hid => ⟨hid.1, hid.2, hfree⟩⟩
  · intro i hresolved
    exact resolved_used (h.sound i) hresolved
  · intro hresolved i
    have hclient := h.client
    rw [ClientOk, hresolved] at hclient
    exact clear_used (h.sound i) (hclient.2 i)
  · intro e v i hv hbefore hafter
    have hmove := (step_cases h.sound hv).session i
    obtain ⟨hquiet, hopening⟩ := hmove.rejected (h.sound i) hbefore hafter
    have hsound := (invariant_step h hv).sound i
    refine ⟨?_, recorded_quiet hsound hquiet⟩
    have hok := hsound.opening
    rcases (registered_of_attempt (h.sound i) hbefore).1 with heq | heq
    · rw [OpeningOk, hopening, heq, hafter] at hok
      exact hok.1.resolve_right (by simp)
    · rw [OpeningOk, hopening, heq, hafter] at hok
      exact hok.1.resolve_right (by simp)
  · intro i hsettled hnone
    refine ⟨_, if_pos hsettled, ?_⟩
    simp [State.putSession, Session.close, hnone]
  · intro i v hv
    simp only [next, SessionEvent.fresh, Option.any_none, Bool.false_eq_true, if_false] at hv
    obtain ⟨session, hsession, rfl⟩ := Option.map_eq_some_iff.mp hv
    simp only [Session.next] at hsession
    split at hsession <;> cases hsession
    next hready =>
      refine ⟨(w.session i).cleanup, by simp [State.putSession], ?_⟩
      exact recorded_quiet (h.sound i) (quiet_of_stopped (h.sound i) hready.2)
  · intro i j id hflight hacked
    obtain ⟨hused, hunacked⟩ := inFlight_unacknowledged (h.sound i) hflight
    have hij := h.apart i j id hused ((h.sound j).acknowledged hacked)
    subst hij
    exact hunacked hacked

def retriedClose : List Event :=
  [.openSession 0, .session 0 (.reply "c1"), .register 0 false,
    .session 0 (.task 0 .start), .session 0 (.task 0 (.created "c2")), .session 0 (.task 0 .stage),
    .session 0 (.task 0 .commit), .session 0 (.task 0 (.removed false)),
    .closeClient, .readyClient false, .session 0 .removeAll, .session 0 (.answer "c1" true),
    .session 0 (.answer "c2" false), .session 0 .settle, .sessionClosed 0 false, .settleClient,
    .closeClient, .readyClient false, .session 0 .removeAll, .session 0 (.answer "c2" true),
    .session 0 .settle, .sessionClosed 0 true, .settleClient, .finishClient true]

theorem no_orphans_retried :
    ∃ w, machine.run .initial retriedClose = some w ∧ w.attempt = .resolved ∧
      (w.session 0).used = {"c1", "c2"} ∧ (w.session 0).used ⊆ (w.session 0).acknowledged := by
  have hruns : (machine.run .initial retriedClose).any (fun w =>
      w.attempt = .resolved ∧ (w.session 0).used = {"c1", "c2"}) = true := by decide +kernel
  obtain ⟨w, hw, hfacts⟩ := (Option.any_eq_true _ _).mp hruns
  obtain ⟨hresolved, hused⟩ := of_decide_eq_true hfacts
  exact ⟨w, hw, hresolved, hused, (no_orphans hw).clientResolves hresolved 0⟩

end ContextCleanup
