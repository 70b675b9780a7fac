import Mathlib.Data.Finset.Basic
import Mathlib.Logic.Function.Basic

/-! The contexts of one session (`sessions.ts`): where identifiers come from, the set `cleanup`,
and the attempts to close. The serial admission is left out, so rebinds may even overlap here.
Each step is the code between two awaits; the reply that it continues with is the event's. -/
namespace SessionContexts

/-- An operation of the session. A rebind has `received` what `openContext` returned, `staged` it
for the import, and then deletes one of the two contexts. -/
inductive Task where
  | idle
  | busy
  | received (next : String)
  | staged (next : String)
  | discarding (next : String)
  | deleting (previous : String)
  | over
  deriving DecidableEq

def Task.live : Task → Bool
  | .idle | .over => false
  | _ => true

def Task.held : Task → Option String
  | .received id | .staged id | .discarding id | .deleting id => some id
  | _ => none

/-- `closing` of a session: waiting for the operations, then for the DELETE requests. It is
cleared when the attempt rejects and stays when it resolves. -/
inductive Attempt where
  | none
  | stopping (expired : Bool)
  | deleting (waiting : Finset String) (failed : Bool)
  | resolved
  deriving DecidableEq

/-- `openSession` for this session; `retain` is `retainOnAbort`. -/
inductive Opening where
  | absent
  | posting (retain : Bool)
  | returned (retain : Bool)
  | closing
  | settled
  | failed
  deriving DecidableEq

/-- `listed` says that the session is in `client.sessions`. The last two are a record: what
`openContext` has returned for this session, and what has been acknowledged. -/
structure Session where
  opening : Opening
  listed : Bool
  info : String
  cleanup : Finset String
  closed : Bool
  started : List ℕ
  tasks : ℕ → Task
  attempt : Attempt
  used : Finset String
  acknowledged : Finset String

def Session.absent : Session where
  opening := .absent
  listed := false
  info := ""
  cleanup := ∅
  closed := false
  started := []
  tasks := fun _ => .idle
  attempt := .none
  used := ∅
  acknowledged := ∅

inductive TaskEvent where
  | start
  | created (id : String)
  | stage
  | discard
  | commit
  | removed (acknowledged : Bool)
  | finish

inductive SessionEvent where
  | reply (id : String)
  | openFailed
  | opened
  | task (t : ℕ) (e : TaskEvent)
  | removeAll
  | reject
  | answer (id : String) (acknowledged : Bool)
  | settle

namespace Session

variable (s : Session)

def set (t : ℕ) (task : Task) : Session := { s with tasks := Function.update s.tasks t task }

/-- Every operation that has registered with the lifetime is done. -/
def stopped : Bool := s.started.all fun t => !(s.tasks t).live

/-- `removeContext` after the reply: 204 and `CONTEXT_NOT_FOUND` acknowledge. -/
def removeContext (id : String) (acknowledged : Bool) : Session :=
  if acknowledged then
    { s with cleanup := s.cleanup.erase id, acknowledged := insert id s.acknowledged }
  else { s with cleanup := insert id s.cleanup }

def stopAccepting : Session := { s with closed := true }

/-- `close` joins an attempt that is in progress or has resolved. -/
def close (expired : Bool) : Session :=
  match s.attempt with
  | .none => { s with closed := true, attempt := .stopping expired }
  | _ => s

def register (clientClosed aborted : Bool) : Option Session :=
  match s.opening with
  | .returned retain =>
    let listed := { s with listed := true, closed := s.closed || clientClosed }
    if aborted && !clientClosed && !retain then
      some ({ listed with opening := .closing }.close false)
    else some { listed with opening := .settled }
  | _ => none

def onTask (t : ℕ) : TaskEvent → Option Session
  | .start =>
    if s.opening = .settled ∧ s.closed = false ∧ s.tasks t = .idle then
      some ({ s with started := t :: s.started }.set t .busy)
    else none
  | .created id =>
    if s.tasks t = .busy then some ({ s with used := insert id s.used }.set t (.received id))
    else none
  | .stage =>
    match s.tasks t with
    | .received next => some ({ s with cleanup := insert next s.cleanup }.set t (.staged next))
    | _ => none
  | .discard =>
    match s.tasks t with
    | .staged next => some ({ s with cleanup := insert next s.cleanup }.set t (.discarding next))
    | _ => none
  | .commit =>
    match s.tasks t with
    | .staged next =>
      some ({ s with info := next, cleanup := insert s.info s.cleanup }.set t (.deleting s.info))
    | _ => none
  | .removed acknowledged =>
    match s.tasks t with
    | .discarding id => some ((s.removeContext id acknowledged).set t .over)
    | .deleting id => some ((s.removeContext id acknowledged).set t .over)
    | _ => none
  | .finish => if s.tasks t = .busy then some (s.set t .over) else none

def next : SessionEvent → Option Session
  | .reply id =>
    match s.opening with
    | .posting retain =>
      some { s with opening := .returned retain, info := id, cleanup := {id}, used := {id} }
    | _ => none
  | .openFailed =>
    match s.opening with
    | .posting _ => some { s with opening := .failed }
    | _ => none
  | .opened => if s.opening = .closing then some { s with opening := .settled } else none
  | .removeAll =>
    if s.attempt = .stopping false ∧ s.stopped then
      some { s with attempt := .deleting s.cleanup false }
    else none
  | .reject =>
    match s.attempt with
    | .stopping _ => if s.stopped then some { s with attempt := .none } else none
    | _ => none
  | .answer id acknowledged =>
    match s.attempt with
    | .deleting waiting failed =>
      if id ∈ waiting then
        some { s.removeContext id acknowledged with
          attempt := .deleting (waiting.erase id) (failed || !acknowledged) }
      else none
    | _ => none
  | .settle =>
    if s.attempt = .deleting ∅ false then some { s with attempt := .resolved, listed := false }
    else if s.attempt = .deleting ∅ true then some { s with attempt := .none }
    else none
  | .task t e => s.onTask t e

end Session

def Quiet (s : Session) : Prop := ∀ t, (s.tasks t).live = false

def AttemptOk (s : Session) : Prop :=
  match s.attempt with
  | .none => True
  | .stopping _ => s.closed = true
  | .deleting waiting failed =>
    s.closed = true ∧ Quiet s ∧ waiting ⊆ s.cleanup ∧ (failed = false → s.cleanup ⊆ waiting)
  | .resolved => s.closed = true ∧ Quiet s ∧ s.cleanup = ∅

def OpeningOk (s : Session) : Prop :=
  match s.opening with
  | .absent | .posting _ | .failed =>
    s.used = ∅ ∧ s.acknowledged = ∅ ∧ s.cleanup = ∅ ∧ Quiet s ∧ s.attempt = .none ∧ s.listed = false
  | .returned _ => Quiet s ∧ s.attempt = .none ∧ s.info ∈ s.cleanup ∧ s.listed = false
  | .closing | .settled =>
    (s.listed = true ∨ s.attempt = .resolved) ∧ (s.info ∈ s.cleanup ∨ s.closed = true ∧ Quiet s)

structure Holds (s : Session) (t : ℕ) (id : String) : Prop where
  used : id ∈ s.used
  unacknowledged : id ∉ s.acknowledged
  staged : id ≠ s.info
  alone : ∀ u, (s.tasks u).held = some id → u = t

structure Sound (s : Session) : Prop where
  started : ∀ t, (s.tasks t).live = true → t ∈ s.started
  recorded : ∀ id, id ∈ s.cleanup ↔
    id ∈ s.used ∧ id ∉ s.acknowledged ∧ ∀ t, s.tasks t ≠ .received id
  acknowledged : s.acknowledged ⊆ s.used
  holds : ∀ t id, (s.tasks t).held = some id → Holds s t id
  attempt : AttemptOk s
  opening : OpeningOk s

variable {s v : Session} {t : ℕ} {id : String}

theorem quiet_of_stopped (h : Sound s) (hstopped : s.stopped = true) : Quiet s := by
  intro t
  by_contra hlive
  have hlive' : (s.tasks t).live = true := (Bool.not_eq_false _).mp hlive
  have ht := List.all_eq_true.mp hstopped t (h.started t hlive')
  simp [hlive'] at ht

/-- A session with a running operation is open in the sense of `openSession`, has no DELETE of a
close in flight and still owes its current context. -/
theorem running (h : Sound s) (hlive : (s.tasks t).live = true) :
    s.info ∈ s.cleanup ∧ (s.attempt = .none ∨ ∃ expired, s.attempt = .stopping expired) ∧
      (s.opening = .closing ∨ s.opening = .settled) ∧ (s.listed = true) := by
  have hbusy : ¬ Quiet s := by
    intro hquiet
    rw [hquiet t] at hlive
    cases hlive
  have hattempt := h.attempt
  have hopening := h.opening
  have hidle : s.attempt = .none ∨ ∃ expired, s.attempt = .stopping expired := by
    unfold AttemptOk at hattempt
    split at hattempt
    next heq => exact .inl heq
    next expired heq => exact .inr ⟨expired, heq⟩
    next => exact absurd hattempt.2.1 hbusy
    next => exact absurd hattempt.2.1 hbusy
  have hunresolved : s.attempt ≠ .resolved := by
    rcases hidle with hnone | ⟨expired, hstopping⟩
    · rw [hnone]
      exact nofun
    · rw [hstopping]
      exact nofun
  unfold OpeningOk at hopening
  split at hopening
  next => exact absurd hopening.2.2.2.1 hbusy
  next => exact absurd hopening.2.2.2.1 hbusy
  next => exact absurd hopening.2.2.2.1 hbusy
  next => exact absurd hopening.1 hbusy
  next heq =>
    exact ⟨hopening.2.resolve_right fun hq => hbusy hq.2, hidle, .inl heq,
      hopening.1.resolve_right hunresolved⟩
  next heq =>
    exact ⟨hopening.2.resolve_right fun hq => hbusy hq.2, hidle, .inr heq,
      hopening.1.resolve_right hunresolved⟩

structure Working (s : Session) : Prop where
  attempt : s.attempt = .none ∨ ∃ expired, s.attempt = .stopping expired
  opening : s.opening = .closing ∨ s.opening = .settled
  listed : s.listed = true

structure SameOwner (s v : Session) : Prop where
  attempt : v.attempt = s.attempt
  closed : v.closed = s.closed
  opening : v.opening = s.opening
  listed : v.listed = s.listed

theorem sound_working (h : Sound s) (hworking : Working s) (hsame : SameOwner s v)
    (hstarted : ∀ t, (v.tasks t).live = true → t ∈ v.started)
    (hrecorded : ∀ id, id ∈ v.cleanup ↔
      id ∈ v.used ∧ id ∉ v.acknowledged ∧ ∀ t, v.tasks t ≠ .received id)
    (hacknowledged : v.acknowledged ⊆ v.used)
    (hholds : ∀ t id, (v.tasks t).held = some id → Holds v t id) (hinfo : v.info ∈ v.cleanup) :
    Sound v := by
  refine ⟨hstarted, hrecorded, hacknowledged, hholds, ?_, ?_⟩
  · have hattempt := h.attempt
    unfold AttemptOk at hattempt ⊢
    rw [hsame.attempt]
    rcases hworking.attempt with hnone | ⟨expired, hstopping⟩
    · rw [hnone]
      trivial
    · rw [hstopping] at hattempt ⊢
      exact hsame.closed.trans hattempt
  · have hlisted : v.listed = true := hsame.listed.trans hworking.listed
    unfold OpeningOk
    rw [hsame.opening]
    rcases hworking.opening with hclosing | hsettled
    · rw [hclosing]
      exact ⟨.inl hlisted, .inl hinfo⟩
    · rw [hsettled]
      exact ⟨.inl hlisted, .inl hinfo⟩

theorem received_update (task : Task) (hbefore : s.tasks t ≠ .received id)
    (hafter : task ≠ .received id) :
    (∀ u, Function.update s.tasks t task u ≠ .received id) ↔ ∀ u, s.tasks u ≠ .received id := by
  constructor
  · intro h u
    by_cases hu : u = t
    · rwa [hu]
    · simpa [hu] using h u
  · intro h u
    by_cases hu : u = t
    · simpa [hu] using hafter
    · simpa [hu] using h u

/-- After a step of `t` the others hold what they held, if the step keeps it theirs. -/
theorem holds_update {task : Task} (h : Sound s) (htasks : v.tasks = Function.update s.tasks t task)
    (hself : ∀ id, task.held = some id → Holds v t id)
    (hother : ∀ u id, u ≠ t → (s.tasks u).held = some id →
      id ∈ v.used ∧ id ∉ v.acknowledged ∧ id ≠ v.info ∧ task.held ≠ some id) :
    ∀ u id, (v.tasks u).held = some id → Holds v u id := by
  intro u id hu
  by_cases hut : u = t
  · subst hut
    apply hself
    simpa [htasks] using hu
  · rw [htasks, Function.update_of_ne hut] at hu
    obtain ⟨hused, hunacked, hinfo, hfree⟩ := hother u id hut hu
    refine ⟨hused, hunacked, hinfo, ?_⟩
    intro w hw
    by_cases hwt : w = t
    · subst hwt
      rw [htasks, Function.update_self] at hw
      exact absurd hw hfree
    · rw [htasks, Function.update_of_ne hwt] at hw
      exact (h.holds u id hu).alone w hw

theorem working_of_live (h : Sound s) (hlive : (s.tasks t).live = true) :
    Working s ∧ s.info ∈ s.cleanup ∧ t ∈ s.started := by
  obtain ⟨hinfo, hattempt, hopening, hlisted⟩ := running h hlive
  exact ⟨⟨hattempt, hopening, hlisted⟩, hinfo, h.started t hlive⟩

theorem start_sound (h : Sound s) (hopening : s.opening = .settled) (hclosed : s.closed = false)
    (hidle : s.tasks t = .idle) :
    Sound ({ s with started := t :: s.started }.set t .busy) := by
  have hnone : s.attempt = .none := by
    have hattempt := h.attempt
    unfold AttemptOk at hattempt
    split at hattempt
    next heq => exact heq
    next => simp [hclosed] at hattempt
    next => simp [hclosed] at hattempt
    next => simp [hclosed] at hattempt
  have hopened := h.opening
  simp only [OpeningOk, hopening, hnone, hclosed] at hopened
  have hworking : Working s := by
    refine ⟨.inl hnone, .inr hopening, ?_⟩
    simpa using hopened.1
  refine sound_working h hworking ⟨rfl, rfl, rfl, rfl⟩ ?_ ?_ h.acknowledged ?_ ?_
  · intro u hu
    by_cases hut : u = t
    · simp [Session.set, hut]
    · simp only [Session.set, Function.update_of_ne hut] at hu
      exact List.mem_cons_of_mem _ (h.started u hu)
  · intro id
    simp only [Session.set]
    rw [received_update .busy (by simp [hidle]) (by simp)]
    exact h.recorded id
  · apply holds_update h rfl
    · exact nofun
    · intro u id _ hu
      have hheld := h.holds u id hu
      exact ⟨hheld.used, hheld.unacknowledged, hheld.staged, nofun⟩
  · simpa [Session.set] using hopened.2

/-- A step of an operation that runs. -/
theorem sound_step {task : Task} (h : Sound s) (hlive : (s.tasks t).live = true)
    (htasks : v.tasks = Function.update s.tasks t task) (hstarted : v.started = s.started)
    (hsame : SameOwner s v)
    (hrecorded : ∀ id, id ∈ v.cleanup ↔
      id ∈ v.used ∧ id ∉ v.acknowledged ∧ ∀ t, v.tasks t ≠ .received id)
    (hacknowledged : v.acknowledged ⊆ v.used) (hself : ∀ id, task.held = some id → Holds v t id)
    (hother : ∀ u id, u ≠ t → (s.tasks u).held = some id →
      id ∈ v.used ∧ id ∉ v.acknowledged ∧ id ≠ v.info ∧ task.held ≠ some id)
    (hinfo : v.info ∈ v.cleanup) : Sound v := by
  obtain ⟨hworking, -, ht⟩ := working_of_live h hlive
  refine sound_working h hworking hsame ?_ hrecorded hacknowledged
    (holds_update h htasks hself hother)
    hinfo
  intro u hu
  rw [hstarted]
  by_cases hut : u = t
  · rwa [hut]
  · rw [htasks, Function.update_of_ne hut] at hu
    exact h.started u hu

/-- Nobody else holds what `t` holds. -/
theorem alone_update {task : Task} (hmine : Holds s t id)
    (htasks : v.tasks = Function.update s.tasks t task) :
    ∀ u, (v.tasks u).held = some id → u = t := by
  intro u hu
  by_contra hut
  rw [htasks, Function.update_of_ne hut] at hu
  exact hut (hmine.alone u hu)

theorem finish_sound (h : Sound s) (hbusy : s.tasks t = .busy) : Sound (s.set t .over) := by
  have hlive : (s.tasks t).live = true := by rw [hbusy]; rfl
  obtain ⟨-, hinfo, -⟩ := working_of_live h hlive
  refine sound_step h hlive rfl rfl ⟨rfl, rfl, rfl, rfl⟩ ?_ h.acknowledged nofun ?_ hinfo
  · intro x
    simp only [Session.set]
    rw [received_update .over (by simp [hbusy]) (by simp)]
    exact h.recorded x
  · intro u x _ hu
    have hheld := h.holds u x hu
    exact ⟨hheld.used, hheld.unacknowledged, hheld.staged, nofun⟩

/-- `openContext` returns a context that nobody has seen. -/
theorem created_sound (h : Sound s) (hbusy : s.tasks t = .busy) (hfresh : id ∉ s.used) :
    Sound ({ s with used := insert id s.used }.set t (.received id)) := by
  have hlive : (s.tasks t).live = true := by rw [hbusy]; rfl
  obtain ⟨-, hinfo, -⟩ := working_of_live h hlive
  have hunacked : id ∉ s.acknowledged := fun hmem => hfresh (h.acknowledged hmem)
  have hold : ∀ u x, (s.tasks u).held = some x → x ≠ id := by
    rintro u x hu rfl
    exact hfresh (h.holds u x hu).used
  refine sound_step h hlive rfl rfl ⟨rfl, rfl, rfl, rfl⟩ ?_ ?_ ?_ ?_ hinfo
  · intro x
    by_cases hx : x = id
    · subst hx
      have hout : x ∉ s.cleanup := fun hmem => hfresh ((h.recorded x).mp hmem).1
      simp only [Session.set, hout, false_iff, not_and, not_forall, not_not]
      exact fun _ _ => ⟨t, Function.update_self ..⟩
    · simp only [Session.set, Finset.mem_insert, hx, false_or]
      rw [received_update (.received id) (by simp [hbusy]) (by simpa using Ne.symm hx)]
      exact h.recorded x
  · exact h.acknowledged.trans (Finset.subset_insert _ _)
  · intro x hx
    cases hx
    refine ⟨Finset.mem_insert_self _ _, hunacked, ?_, ?_⟩
    · intro heq
      apply hfresh
      rw [show id = s.info from heq]
      exact ((h.recorded _).mp hinfo).1
    · intro u hu
      by_contra hut
      simp only [Session.set, Function.update_of_ne hut] at hu
      exact hold u id hu rfl
  · intro u x _ hu
    have hheld := h.holds u x hu
    refine ⟨Finset.mem_insert_of_mem hheld.used, hheld.unacknowledged, hheld.staged, ?_⟩
    intro hx
    exact hold u x hu (Option.some.inj hx).symm

/-- What the others hold is theirs after a step in which `t` keeps its context. -/
theorem Holds.others (hmine : Holds s t id) (h : Sound s) {task : Task}
    (htask : task.held = some id) :
    ∀ u x, u ≠ t → (s.tasks u).held = some x →
      x ∈ s.used ∧ x ∉ s.acknowledged ∧ x ≠ s.info ∧ task.held ≠ some x := by
  intro u x hut hu
  have hheld := h.holds u x hu
  refine ⟨hheld.used, hheld.unacknowledged, hheld.staged, ?_⟩
  intro hx
  rw [htask] at hx
  cases hx
  exact hut (hmine.alone u hu)

/-- The rebind has the new context in `cleanup`. -/
theorem stage_sound (h : Sound s) (hreceived : s.tasks t = .received id) :
    Sound ({ s with cleanup := insert id s.cleanup }.set t (.staged id)) := by
  have hlive : (s.tasks t).live = true := by rw [hreceived]; rfl
  obtain ⟨-, hinfo, -⟩ := working_of_live h hlive
  have hmine := h.holds t id (by rw [hreceived]; rfl)
  refine sound_step h hlive rfl rfl ⟨rfl, rfl, rfl, rfl⟩ ?_ h.acknowledged ?_
    (hmine.others h rfl) (Finset.mem_insert_of_mem hinfo)
  · intro x
    by_cases hx : x = id
    · subst hx
      simp only [Session.set, Finset.mem_insert_self, true_iff]
      refine ⟨hmine.used, hmine.unacknowledged, ?_⟩
      intro u hu
      by_cases hut : u = t
      · simp [hut] at hu
      · rw [Function.update_of_ne hut] at hu
        exact hut (hmine.alone u (by rw [hu]; rfl))
    · simp only [Session.set, Finset.mem_insert, hx, false_or]
      rw [received_update (.staged id) (by simpa [hreceived] using Ne.symm hx) (by simp)]
      exact h.recorded x
  · intro x hx
    cases hx
    exact ⟨hmine.used, hmine.unacknowledged, hmine.staged, alone_update hmine rfl⟩

/-- What a task has staged is in `cleanup`. -/
theorem Holds.recorded (hmine : Holds s t id) (h : Sound s) (htask : s.tasks t ≠ .received id) :
    id ∈ s.cleanup := by
  rw [h.recorded id]
  refine ⟨hmine.used, hmine.unacknowledged, ?_⟩
  intro u hu
  have hut := hmine.alone u (by rw [hu]; rfl)
  exact htask (hut ▸ hu)

theorem discard_sound (h : Sound s) (hstaged : s.tasks t = .staged id) :
    Sound ({ s with cleanup := insert id s.cleanup }.set t (.discarding id)) := by
  have hlive : (s.tasks t).live = true := by rw [hstaged]; rfl
  obtain ⟨-, hinfo, -⟩ := working_of_live h hlive
  have hmine := h.holds t id (by rw [hstaged]; rfl)
  have hmem := hmine.recorded h (by simp [hstaged])
  refine sound_step h hlive rfl rfl ⟨rfl, rfl, rfl, rfl⟩ ?_ h.acknowledged ?_
    (hmine.others h rfl) (Finset.mem_insert_of_mem hinfo)
  · intro x
    simp only [Session.set, Finset.insert_eq_of_mem hmem]
    rw [received_update (.discarding id) (by simp [hstaged]) (by simp)]
    exact h.recorded x
  · intro x hx
    cases hx
    exact ⟨hmine.used, hmine.unacknowledged, hmine.staged, alone_update hmine rfl⟩

/-- The cutover: the task takes the old context and gives up the new one. -/
theorem commit_sound (h : Sound s) (hstaged : s.tasks t = .staged id) :
    Sound ({ s with info := id, cleanup := insert s.info s.cleanup }.set t (.deleting s.info)) := by
  have hlive : (s.tasks t).live = true := by rw [hstaged]; rfl
  obtain ⟨-, hinfo, -⟩ := working_of_live h hlive
  have hmine := h.holds t id (by rw [hstaged]; rfl)
  have hmem := hmine.recorded h (by simp [hstaged])
  have hcurrent := (h.recorded s.info).mp hinfo
  refine sound_step h hlive rfl rfl ⟨rfl, rfl, rfl, rfl⟩ ?_ h.acknowledged ?_ ?_
    (Finset.mem_insert_of_mem hmem)
  · intro x
    simp only [Session.set, Finset.insert_eq_of_mem hinfo]
    rw [received_update (.deleting s.info) (by simp [hstaged]) (by simp)]
    exact h.recorded x
  · intro x hx
    cases hx
    refine ⟨hcurrent.1, hcurrent.2.1, hmine.staged.symm, ?_⟩
    intro u hu
    by_contra hut
    simp only [Session.set, Function.update_of_ne hut] at hu
    exact (h.holds u _ hu).staged rfl
  · intro u x hut hu
    have hheld := h.holds u x hu
    refine ⟨hheld.used, hheld.unacknowledged, ?_, ?_⟩
    · rintro rfl
      exact hut (hmine.alone u hu)
    · intro hx
      exact hheld.staged (Option.some.inj hx).symm

theorem removed_sound (h : Sound s) (hheld : (s.tasks t).held = some id)
    (htask : s.tasks t ≠ .received id) (acknowledged : Bool) :
    Sound ((s.removeContext id acknowledged).set t .over) := by
  have hlive : (s.tasks t).live = true := by
    cases htask' : s.tasks t <;> simp [htask', Task.held, Task.live] at hheld ⊢
  obtain ⟨-, hinfo, -⟩ := working_of_live h hlive
  have hmine := h.holds t id hheld
  have hmem := hmine.recorded h htask
  have hnot : ∀ x, s.tasks t ≠ .received x := by
    intro x hx
    rw [hx] at hheld
    cases hheld
    exact htask hx
  cases acknowledged with
  | true =>
    refine sound_step h hlive rfl rfl ⟨rfl, rfl, rfl, rfl⟩ ?_ ?_ nofun ?_ ?_
    · intro x
      simp only [Session.set, Session.removeContext, if_pos, Finset.mem_erase, Finset.mem_insert,
        not_or]
      rw [received_update .over (hnot x) (by simp), h.recorded x]
      tauto
    · intro x hx
      rcases Finset.mem_insert.mp hx with rfl | hx
      · exact hmine.used
      · exact h.acknowledged hx
    · intro u x hut hu
      have hother := h.holds u x hu
      refine ⟨hother.used, ?_, hother.staged, nofun⟩
      intro hx
      rcases Finset.mem_insert.mp hx with rfl | hx
      · exact hut (hmine.alone u hu)
      · exact hother.unacknowledged hx
    · exact Finset.mem_erase.mpr ⟨hmine.staged.symm, hinfo⟩
  | false =>
    refine sound_step h hlive rfl rfl ⟨rfl, rfl, rfl, rfl⟩ ?_ h.acknowledged nofun ?_
      (Finset.mem_insert_of_mem hinfo)
    · intro x
      simp only [Session.set, Session.removeContext, Bool.false_eq_true, if_false,
        Finset.insert_eq_of_mem hmem]
      rw [received_update .over (hnot x) (by simp)]
      exact h.recorded x
    · intro u x _ hu
      have hother := h.holds u x hu
      exact ⟨hother.used, hother.unacknowledged, hother.staged, nofun⟩

theorem onTask_sound {e : TaskEvent} (h : Sound s) (hfresh : ∀ id, e = .created id → id ∉ s.used)
    (hv : s.onTask t e = some v) : Sound v := by
  cases e with
  | start =>
    simp only [Session.onTask] at hv
    split at hv <;> cases hv
    next hopen => exact start_sound h hopen.1 hopen.2.1 hopen.2.2
  | created id =>
    simp only [Session.onTask] at hv
    split at hv <;> cases hv
    next hbusy => exact created_sound h hbusy (hfresh id rfl)
  | stage =>
    simp only [Session.onTask] at hv
    split at hv <;> cases hv
    next hreceived => exact stage_sound h hreceived
  | discard =>
    simp only [Session.onTask] at hv
    split at hv <;> cases hv
    next hstaged => exact discard_sound h hstaged
  | commit =>
    simp only [Session.onTask] at hv
    split at hv <;> cases hv
    next hstaged => exact commit_sound h hstaged
  | removed acknowledged =>
    simp only [Session.onTask] at hv
    split at hv <;> cases hv
    next hdiscarding =>
      exact removed_sound h (by rw [hdiscarding]; rfl) (by simp [hdiscarding]) acknowledged
    next hdeleting =>
      exact removed_sound h (by rw [hdeleting]; rfl) (by simp [hdeleting]) acknowledged
  | finish =>
    simp only [Session.onTask] at hv
    split at hv <;> cases hv
    next hbusy => exact finish_sound h hbusy

theorem held_of_quiet (h : Quiet s) (t : ℕ) : (s.tasks t).held = none := by
  have ht := h t
  cases htask : s.tasks t <;> simp [htask, Task.live, Task.held] at ht ⊢

structure Ended (s : Session) : Prop where
  closed : s.closed = true
  quiet : Quiet s
  opening : s.opening = .closing ∨ s.opening = .settled
  listed : s.listed = true ∨ s.attempt = .resolved

theorem sound_ended (hended : Ended s) (hattempt : AttemptOk s)
    (hrecorded : ∀ id, id ∈ s.cleanup ↔ id ∈ s.used ∧ id ∉ s.acknowledged)
    (hacknowledged : s.acknowledged ⊆ s.used) : Sound s := by
  refine ⟨?_, ?_, hacknowledged, ?_, hattempt, ?_⟩
  · intro t ht
    rw [hended.quiet t] at ht
    cases ht
  · intro id
    rw [hrecorded id]
    have hnone : ∀ t, s.tasks t ≠ .received id := by
      intro t ht
      have hheld := held_of_quiet hended.quiet t
      rw [ht] at hheld
      cases hheld
    tauto
  · intro t id ht
    rw [held_of_quiet hended.quiet t] at ht
    cases ht
  · unfold OpeningOk
    rcases hended.opening with hclosing | hsettled
    · rw [hclosing]
      exact ⟨hended.listed, .inr ⟨hended.closed, hended.quiet⟩⟩
    · rw [hsettled]
      exact ⟨hended.listed, .inr ⟨hended.closed, hended.quiet⟩⟩

/-- With no operation left, `cleanup` is what has not been acknowledged. -/
theorem recorded_quiet (h : Sound s) (hquiet : Quiet s) (id : String) :
    id ∈ s.cleanup ↔ id ∈ s.used ∧ id ∉ s.acknowledged := by
  rw [h.recorded id]
  constructor
  · exact fun hid => ⟨hid.1, hid.2.1⟩
  · rintro ⟨hused, hunacked⟩
    refine ⟨hused, hunacked, ?_⟩
    intro t ht
    have hheld := held_of_quiet hquiet t
    rw [ht] at hheld
    cases hheld

/-- An attempt is only made for a session that `openSession` has registered. -/
theorem registered_of_attempt (h : Sound s) (hattempt : s.attempt ≠ .none) :
    (s.opening = .closing ∨ s.opening = .settled) ∧ (s.listed = true ∨ s.attempt = .resolved) := by
  have hopening := h.opening
  unfold OpeningOk at hopening
  split at hopening
  next => exact absurd hopening.2.2.2.2.1 hattempt
  next => exact absurd hopening.2.2.2.2.1 hattempt
  next => exact absurd hopening.2.2.2.2.1 hattempt
  next => exact absurd hopening.2.1 hattempt
  next heq => exact ⟨.inl heq, hopening.1⟩
  next heq => exact ⟨.inr heq, hopening.1⟩

theorem close_sound (h : Sound s) (hregistered : s.opening = .closing ∨ s.opening = .settled)
    (expired : Bool) : Sound (s.close expired) := by
  unfold Session.close
  split
  next hnone =>
    refine ⟨h.started, h.recorded, h.acknowledged, ?_, rfl, ?_⟩
    · intro t id ht
      have hheld := h.holds t id ht
      exact ⟨hheld.used, hheld.unacknowledged, hheld.staged, hheld.alone⟩
    · have hopening := h.opening
      unfold OpeningOk at hopening ⊢
      rcases hregistered with hclosing | hsettled
      · rw [hclosing, hnone] at hopening
        simp only [hclosing]
        exact ⟨.inl (hopening.1.resolve_right nofun),
          hopening.2.imp_right fun hq => ⟨trivial, hq.2⟩⟩
      · rw [hsettled, hnone] at hopening
        simp only [hsettled]
        exact ⟨.inl (hopening.1.resolve_right nofun),
          hopening.2.imp_right fun hq => ⟨trivial, hq.2⟩⟩
  next => exact h

theorem stopAccepting_sound (h : Sound s) : Sound s.stopAccepting := by
  refine ⟨h.started, h.recorded, h.acknowledged, ?_, ?_, ?_⟩
  · intro t id ht
    have hheld := h.holds t id ht
    exact ⟨hheld.used, hheld.unacknowledged, hheld.staged, hheld.alone⟩
  · have hattempt := h.attempt
    unfold AttemptOk at hattempt ⊢
    simp only [Session.stopAccepting]
    split
    next => trivial
    next => trivial
    next heq =>
      rw [heq] at hattempt
      exact ⟨trivial, hattempt.2⟩
    next heq =>
      rw [heq] at hattempt
      exact ⟨trivial, hattempt.2⟩
  · have hopening := h.opening
    unfold OpeningOk at hopening ⊢
    simp only [Session.stopAccepting]
    split
    next heq =>
      rw [heq] at hopening
      exact hopening
    next heq =>
      rw [heq] at hopening
      exact hopening
    next heq =>
      rw [heq] at hopening
      exact hopening
    next heq =>
      rw [heq] at hopening
      exact hopening
    next heq =>
      simp only [heq] at hopening
      exact ⟨hopening.1, hopening.2.imp_right fun hq => ⟨trivial, hq.2⟩⟩
    next heq =>
      simp only [heq] at hopening
      exact ⟨hopening.1, hopening.2.imp_right fun hq => ⟨trivial, hq.2⟩⟩

/-- What the attempt of a session with DELETE requests in flight, or of one that is over, knows. -/
theorem ended_of_quiet (h : Sound s) (hattempt : s.attempt ≠ .none) (hclosed : s.closed = true)
    (hquiet : Quiet s) : Ended s := by
  obtain ⟨hopening, hlisted⟩ := registered_of_attempt h hattempt
  exact ⟨hclosed, hquiet, hopening, hlisted⟩

/-- A close that finds the lifetime stopped is alone with what is left of the session. -/
theorem ended_of_stopped (h : Sound s) {expired : Bool} (hattempt : s.attempt = .stopping expired)
    (hstopped : s.stopped = true) : Ended s ∧ s.listed = true := by
  have hclosed : s.closed = true := by
    have hok := h.attempt
    rwa [AttemptOk, hattempt] at hok
  have hended := ended_of_quiet h (by simp [hattempt]) hclosed (quiet_of_stopped h hstopped)
  exact ⟨hended, by simpa [hattempt] using hended.listed⟩

theorem removeAll_sound (h : Sound s) (hattempt : s.attempt = .stopping false)
    (hstopped : s.stopped = true) : Sound { s with attempt := .deleting s.cleanup false } := by
  obtain ⟨⟨hclosed, hquiet, hopening, -⟩, hlisted⟩ := ended_of_stopped h hattempt hstopped
  have hrecorded := recorded_quiet h hquiet
  refine sound_ended ⟨hclosed, hquiet, hopening, .inl hlisted⟩ ?_ hrecorded h.acknowledged
  exact ⟨hclosed, hquiet, Finset.Subset.refl _, fun _ => Finset.Subset.refl _⟩

theorem reject_sound (h : Sound s) {expired : Bool} (hattempt : s.attempt = .stopping expired)
    (hstopped : s.stopped = true) : Sound { s with attempt := .none } := by
  obtain ⟨⟨hclosed, hquiet, hopening, -⟩, hlisted⟩ := ended_of_stopped h hattempt hstopped
  have hrecorded := recorded_quiet h hquiet
  exact sound_ended ⟨hclosed, hquiet, hopening, .inl hlisted⟩ trivial hrecorded h.acknowledged

/-- A DELETE request of the close is answered. -/
theorem answer_sound (h : Sound s) {waiting : Finset String} {failed acknowledged : Bool}
    (hattempt : s.attempt = .deleting waiting failed) (hid : id ∈ waiting) :
    Sound { s.removeContext id acknowledged with
      attempt := .deleting (waiting.erase id) (failed || !acknowledged) } := by
  have hok := h.attempt
  rw [AttemptOk, hattempt] at hok
  obtain ⟨hclosed, hquiet, hwaiting, hall⟩ := hok
  have hended := ended_of_quiet h (by simp [hattempt]) hclosed hquiet
  have hlisted : s.listed = true := by simpa [hattempt] using hended.listed
  have hmem := hwaiting hid
  have hrecorded := recorded_quiet h hquiet
  cases acknowledged with
  | true =>
    refine sound_ended ⟨hclosed, hquiet, hended.opening, .inl hlisted⟩ ?_ ?_ ?_
    · refine ⟨hclosed, hquiet, Finset.erase_subset_erase id hwaiting, ?_⟩
      intro hfailed
      exact Finset.erase_subset_erase id (hall (by simpa using hfailed))
    · intro x
      simp only [Session.removeContext, if_pos, Finset.mem_erase, Finset.mem_insert, not_or,
        hrecorded x]
      tauto
    · intro x hx
      rcases Finset.mem_insert.mp hx with rfl | hx
      · exact ((hrecorded x).mp hmem).1
      · exact h.acknowledged hx
  | false =>
    have hcleanup : (s.removeContext id false).cleanup = s.cleanup := Finset.insert_eq_of_mem hmem
    refine sound_ended ⟨hclosed, hquiet, hended.opening, .inl hlisted⟩ ?_ ?_ h.acknowledged
    · refine ⟨hclosed, hquiet, ?_, fun hfailed => absurd hfailed (by simp)⟩
      rw [hcleanup]
      exact (Finset.erase_subset id waiting).trans hwaiting
    · intro x
      show x ∈ (s.removeContext id false).cleanup ↔ _
      rw [hcleanup]
      exact hrecorded x

theorem settle_sound (h : Sound s) {failed : Bool} (hattempt : s.attempt = .deleting ∅ failed) :
    Sound { s with attempt := .none } ∧
      (failed = false → Sound { s with attempt := .resolved, listed := false }) := by
  have hok := h.attempt
  rw [AttemptOk, hattempt] at hok
  obtain ⟨hclosed, hquiet, -, hall⟩ := hok
  have hended := ended_of_quiet h (by simp [hattempt]) hclosed hquiet
  have hlisted : s.listed = true := by simpa [hattempt] using hended.listed
  have hrecorded := recorded_quiet h hquiet
  constructor
  · exact sound_ended ⟨hclosed, hquiet, hended.opening, .inl hlisted⟩ trivial hrecorded
      h.acknowledged
  · intro hfailed
    refine sound_ended ⟨hclosed, hquiet, hended.opening, .inr rfl⟩ ?_ hrecorded h.acknowledged
    exact ⟨hclosed, hquiet, Finset.subset_empty.mp (hall hfailed)⟩

theorem absent_sound : Sound .absent := by
  refine ⟨nofun, ?_, Finset.Subset.refl _, nofun, trivial, ?_⟩
  · simp [Session.absent]
  · exact ⟨rfl, rfl, rfl, fun _ => rfl, rfl, rfl⟩

structure Empty (s : Session) : Prop where
  used : s.used = ∅
  acknowledged : s.acknowledged = ∅
  cleanup : s.cleanup = ∅
  quiet : Quiet s
  attempt : s.attempt = .none
  listed : s.listed = false

theorem sound_empty (h : Sound s) (hempty : Empty s) {opening : Opening}
    (hopening : opening = .failed ∨ ∃ retain, opening = .posting retain) :
    Sound { s with opening := opening } := by
  have hok : OpeningOk { s with opening := opening } := by
    have hfields := And.intro hempty.used (And.intro hempty.acknowledged
      (And.intro hempty.cleanup (And.intro hempty.quiet (And.intro hempty.attempt hempty.listed))))
    rcases hopening with rfl | ⟨retain, rfl⟩
    · exact hfields
    · exact hfields
  refine ⟨h.started, h.recorded, h.acknowledged, ?_, h.attempt, hok⟩
  intro t x ht
  have hnone := held_of_quiet hempty.quiet t
  exact absurd (hnone.symm.trans ht) nofun

theorem reply_sound (hempty : Empty s) (id : String) (retain : Bool) :
    Sound { s with opening := .returned retain, info := id, cleanup := {id}, used := {id} } := by
  refine ⟨?_, ?_, ?_, ?_, ?_, ?_⟩
  · intro t ht
    exact absurd ((hempty.quiet t).symm.trans ht) nofun
  · intro x
    simp only [Finset.mem_singleton, hempty.acknowledged, Finset.notMem_empty, not_false_eq_true,
      true_and]
    constructor
    · intro hx
      refine ⟨hx, ?_⟩
      intro t ht
      have hnone := held_of_quiet hempty.quiet t
      rw [show s.tasks t = .received x from ht] at hnone
      cases hnone
    · exact fun hx => hx.1
  · simp [hempty.acknowledged]
  · intro t x ht
    exact absurd ((held_of_quiet hempty.quiet t).symm.trans ht) nofun
  · simp only [AttemptOk, hempty.attempt]
  · exact ⟨hempty.quiet, hempty.attempt, Finset.mem_singleton_self id, hempty.listed⟩

/-- `openSession` registers the session, and closes it if nobody will receive it. -/
theorem register_sound (h : Sound s) {clientClosed aborted : Bool}
    (hv : s.register clientClosed aborted = some v) :
    Sound v ∧ (v.opening = .closing ∨ v.opening = .settled) ∧ v.listed = true := by
  unfold Session.register at hv
  split at hv
  next retain hreturned =>
    have hopening := h.opening
    rw [OpeningOk, hreturned] at hopening
    obtain ⟨hquiet, hnone, hinfo, -⟩ := hopening
    have hlisted : ∀ opening : Opening, opening = .closing ∨ opening = .settled →
        Sound { s with
          listed := true, closed := s.closed || clientClosed, opening := opening } := by
      intro opening hopening
      refine ⟨h.started, h.recorded, h.acknowledged, ?_, ?_, ?_⟩
      · intro t x ht
        exact absurd ((held_of_quiet hquiet t).symm.trans ht) nofun
      · simp only [AttemptOk, hnone]
      · rcases hopening with rfl | rfl
        · exact ⟨.inl rfl, .inl hinfo⟩
        · exact ⟨.inl rfl, .inl hinfo⟩
    dsimp only at hv
    split at hv
    next =>
      cases hv
      refine ⟨close_sound (hlisted .closing (.inl rfl)) (.inl rfl) false, ?_, ?_⟩
      · simp [Session.close, hnone]
      · simp [Session.close, hnone]
    next =>
      cases hv
      exact ⟨hlisted .settled (.inr rfl), .inr rfl, rfl⟩
  next => cases hv

theorem empty_of_posting (h : Sound s) {retain : Bool} (hposting : s.opening = .posting retain) :
    Empty s := by
  have hopening := h.opening
  rw [OpeningOk, hposting] at hopening
  obtain ⟨hused, hacknowledged, hcleanup, hquiet, hattempt, hlisted⟩ := hopening
  exact ⟨hused, hacknowledged, hcleanup, hquiet, hattempt, hlisted⟩

theorem empty_of_absent (h : Sound s) (habsent : s.opening = .absent) : Empty s := by
  have hopening := h.opening
  rw [OpeningOk, habsent] at hopening
  obtain ⟨hused, hacknowledged, hcleanup, hquiet, hattempt, hlisted⟩ := hopening
  exact ⟨hused, hacknowledged, hcleanup, hquiet, hattempt, hlisted⟩

theorem opened_sound (h : Sound s) (hclosing : s.opening = .closing) :
    Sound { s with opening := .settled } := by
  have hopening := h.opening
  rw [OpeningOk, hclosing] at hopening
  refine ⟨h.started, h.recorded, h.acknowledged, ?_, h.attempt, hopening⟩
  intro t x ht
  have hheld := h.holds t x ht
  exact ⟨hheld.used, hheld.unacknowledged, hheld.staged, hheld.alone⟩

def SessionEvent.fresh : SessionEvent → Option String
  | .reply id => some id
  | .task _ (.created id) => some id
  | _ => none

theorem next_sound {e : SessionEvent} (h : Sound s) (hfresh : ∀ id, e.fresh = some id → id ∉ s.used)
    (hv : s.next e = some v) : Sound v := by
  cases e with
  | reply id =>
    simp only [Session.next] at hv
    split at hv <;> cases hv
    next retain hposting => exact reply_sound (empty_of_posting h hposting) id retain
  | openFailed =>
    simp only [Session.next] at hv
    split at hv <;> cases hv
    next hposting => exact sound_empty h (empty_of_posting h hposting) (.inl rfl)
  | opened =>
    simp only [Session.next] at hv
    split at hv <;> cases hv
    next hclosing => exact opened_sound h hclosing
  | task t e =>
    apply onTask_sound h _ hv
    rintro id rfl
    exact hfresh id rfl
  | removeAll =>
    simp only [Session.next] at hv
    split at hv <;> cases hv
    next hstopping => exact removeAll_sound h hstopping.1 hstopping.2
  | reject =>
    simp only [Session.next] at hv
    split at hv
    next hstopping =>
      split at hv <;> cases hv
      next hstopped => exact reject_sound h hstopping hstopped
    next => cases hv
  | answer id acknowledged =>
    simp only [Session.next] at hv
    split at hv
    next hdeleting =>
      split at hv <;> cases hv
      next hid => exact answer_sound h hdeleting hid
    next => cases hv
  | settle =>
    simp only [Session.next] at hv
    split at hv
    next hdone =>
      cases hv
      exact (settle_sound h hdone).2 rfl
    next =>
      split at hv <;> cases hv
      next hfailed => exact (settle_sound h hfailed).1

theorem onTask_owner {e : TaskEvent} (hv : s.onTask t e = some v) : SameOwner s v := by
  cases e with
  | removed acknowledged =>
    have hremove : ∀ id, SameOwner s (s.removeContext id acknowledged) := by
      intro id
      unfold Session.removeContext
      split <;> exact ⟨rfl, rfl, rfl, rfl⟩
    simp only [Session.onTask] at hv
    split at hv <;> cases hv
    · exact ⟨(hremove _).attempt, (hremove _).closed, (hremove _).opening, (hremove _).listed⟩
    · exact ⟨(hremove _).attempt, (hremove _).closed, (hremove _).opening, (hremove _).listed⟩
  | _ =>
    simp only [Session.onTask] at hv
    split at hv <;> cases hv
    exact ⟨rfl, rfl, rfl, rfl⟩

theorem removeContext_used (s : Session) (id : String) (acknowledged : Bool) :
    (s.removeContext id acknowledged).used = s.used := by
  unfold Session.removeContext
  split <;> rfl

theorem onTask_used {e : TaskEvent} (hv : s.onTask t e = some v) (hid : id ∈ v.used) :
    id ∈ s.used ∨ e = .created id := by
  cases e with
  | created fresh =>
    simp only [Session.onTask] at hv
    split at hv <;> cases hv
    rcases Finset.mem_insert.mp hid with rfl | hold
    · exact .inr rfl
    · exact .inl hold
  | removed acknowledged =>
    simp only [Session.onTask] at hv
    split at hv <;> cases hv
    · exact .inl (removeContext_used s _ acknowledged ▸ hid)
    · exact .inl (removeContext_used s _ acknowledged ▸ hid)
  | _ =>
    simp only [Session.onTask] at hv
    split at hv <;> cases hv
    exact .inl hid

theorem next_used {e : SessionEvent} (hv : s.next e = some v) (hid : id ∈ v.used) :
    id ∈ s.used ∨ e.fresh = some id := by
  cases e with
  | reply fresh =>
    simp only [Session.next] at hv
    split at hv <;> cases hv
    exact .inr (congrArg some (Finset.mem_singleton.mp hid).symm)
  | task t e =>
    rcases onTask_used hv hid with hold | rfl
    · exact .inl hold
    · exact .inr rfl
  | answer x acknowledged =>
    simp only [Session.next] at hv
    split at hv
    next =>
      split at hv <;> cases hv
      exact .inl (removeContext_used s x acknowledged ▸ hid)
    next => cases hv
  | reject =>
    simp only [Session.next] at hv
    split at hv
    next =>
      split at hv <;> cases hv
      exact .inl hid
    next => cases hv
  | settle =>
    simp only [Session.next] at hv
    split at hv
    next =>
      cases hv
      exact .inl hid
    next =>
      split at hv <;> cases hv
      exact .inl hid
  | _ =>
    simp only [Session.next] at hv
    split at hv <;> cases hv
    exact .inl hid

/-- An attempt ends with a rejection, or goes on, or a new one begins. -/
theorem next_attempt {e : SessionEvent} (hv : s.next e = some v) :
    (v.attempt = s.attempt ∧ (v.opening = s.opening ∨
      s.opening ≠ .absent ∧ s.opening ≠ .failed ∧ v.opening ≠ .absent)) ∨
      (v.opening = s.opening ∧ s.attempt ≠ .none ∧ s.attempt ≠ .resolved) := by
  cases e with
  | reply fresh =>
    simp only [Session.next] at hv
    split at hv <;> cases hv
    next heq => exact .inl ⟨rfl, .inr (by simp [heq])⟩
  | openFailed =>
    simp only [Session.next] at hv
    split at hv <;> cases hv
    next heq => exact .inl ⟨rfl, .inr (by simp [heq])⟩
  | opened =>
    simp only [Session.next] at hv
    split at hv <;> cases hv
    next heq => exact .inl ⟨rfl, .inr (by simp [heq])⟩
  | task t e =>
    have hsame := onTask_owner hv
    exact .inl ⟨hsame.attempt, .inl hsame.opening⟩
  | removeAll =>
    simp only [Session.next] at hv
    split at hv <;> cases hv
    next heq => exact .inr ⟨rfl, by simp [heq.1], by simp [heq.1]⟩
  | reject =>
    simp only [Session.next] at hv
    split at hv
    next heq =>
      split at hv <;> cases hv
      exact .inr ⟨rfl, by simp [heq], by simp [heq]⟩
    next => cases hv
  | answer x acknowledged =>
    have hopening : (s.removeContext x acknowledged).opening = s.opening := by
      unfold Session.removeContext
      split <;> rfl
    simp only [Session.next] at hv
    split at hv
    next heq =>
      split at hv <;> cases hv
      exact .inr ⟨hopening, by simp [heq], by simp [heq]⟩
    next => cases hv
  | settle =>
    simp only [Session.next] at hv
    split at hv
    next heq =>
      cases hv
      exact .inr ⟨rfl, by simp [heq], by simp [heq]⟩
    next =>
      split at hv <;> cases hv
      next heq => exact .inr ⟨rfl, by simp [heq], by simp [heq]⟩

end SessionContexts
