import Ja3Proxy.SessionRebind

/-! Atomicity of `rebindIdentity`: a call that returns leaves the new identity in full, one that
throws leaves the old one, and what an exchange on the old context still reports is ignored. -/
namespace RebindAtomicity

open SdkErrors SessionRebind TransitionRuns TransportErrors
open SdkExchange (Info)

variable {ι : Type} {s u v : Session ι} {t : ℕ} {task : SessionRebind.Task ι}

def Settled (s v : Session ι) (t : ℕ) (r : Rebind ι) : Outcome → Prop
  | .committed next | .cleanupPending next _ =>
    (∃ previous, s.tasks t = .deleting r previous next) ∧
      v.info = next ∧ v.connection = r.connection ∧ next.contextId ≠ r.id
  | .thrown _ =>
    v.info.contextId = r.id ∧ v.connection = r.old ∧ (v.lost = true → r.id ∈ v.missing)

def Cutover (s : Session ι) (e : Event ι) (t : ℕ) (r : Rebind ι) (next : Info) : Prop :=
  ∃ staged, s.tasks t = .importing r staged ∧ e = .answer t (.cookies next.revision true) false ∧
    next.contextId = staged.contextId ∧ next.revision = staged.revision + 1

def Reached (s v : Session ι) (e : Event ι) (t : ℕ) : SessionRebind.Task ι → Prop
  | .rebound r outcome => Settled s v t r outcome
  | .deleting r _ info => Cutover s e t r info
  | _ => True

theorem reached_refuse {e : Event ι} {request : Request ι} {code : ErrorCode} (hlost : LostOk s) :
    Reached s (s.refuse t request code) e t ((s.refuse t request code).tasks t) := by
  unfold Session.refuse
  rw [finish_self]
  cases request with
  | rebind connection valid => exact ⟨rfl, rfl, hlost⟩
  | stream => trivial
  | command mutating => trivial

/-- A rebind throws while the session is as the rebind has found it. -/
theorem reached_throw {e : Event ι} {r : Rebind ι} {code : ErrorCode} (hsame : Untouched s u)
    (hid : s.info.contextId = r.id) (hold : s.connection = r.old)
    (hlost : LostOk (u.throwRebind t r code)) :
    Reached s (u.throwRebind t r code) e t ((u.throwRebind t r code).tasks t) := by
  have hkept := hsame.trans (markLost_untouched u code r.id)
  have hinfo : (u.throwRebind t r code).info.contextId = r.id := by
    rw [show (u.throwRebind t r code).info = s.info from hkept.info]
    exact hid
  have htask : (u.throwRebind t r code).tasks t = .rebound r (.thrown code) := finish_self _ t _
  rw [htask]
  refine ⟨hinfo, hkept.connection.trans hold, ?_⟩
  intro hv
  rw [← hinfo]
  exact hlost hv

theorem reached_answer {value : Value} {aborted : Bool} (h : Invariant s) (hafter : Invariant v)
    (hv : s.answer t value aborted = some v) :
    Reached s v (.answer t value aborted) t (v.tasks t) := by
  have hfits := h.fits t
  unfold Session.answer at hv
  split at hv
  next => split at hv <;> cases hv <;> rw [finish_self] <;> trivial
  next => split at hv <;> cases hv <;> rw [finish_self] <;> trivial
  next r revision shape htask =>
    rw [htask] at hfits
    split at hv
    next =>
      cases hv
      rw [set_self]
      trivial
    next =>
      cases hv
      exact reached_throw (.refl s) hfits.1 hfits.2 hafter.lost
  next =>
    split at hv
    next => cases hv
    next =>
      cases hv
      rw [set_self]
      trivial
  next r staged revision shape htask =>
    split at hv
    next =>
      cases hv
      rw [set_self]
      trivial
    next hshape =>
      split at hv
      next =>
        cases hv
        rw [set_self]
        trivial
      next haborted =>
        cases hv
        have hdeleting : (s.commit t r ⟨staged.contextId, revision⟩).tasks t =
            .deleting r s.info.contextId ⟨staged.contextId, revision⟩ := set_self _ t _
        rw [hdeleting]
        obtain ⟨rfl, hrevision⟩ : shape = true ∧ revision = staged.revision + 1 := by
          simpa using hshape
        exact ⟨staged, htask, by rw [Bool.eq_false_iff.mpr haborted], rfl, hrevision⟩
  next r staged code htask =>
    rw [htask] at hfits
    cases hv
    exact reached_throw (removeContext_untouched s _ _) hfits.1 hfits.2.1 hafter.lost
  next r previous staged htask =>
    rw [htask] at hfits
    have hsame := removeContext_untouched s previous none
    cases hv
    rw [finish_self]
    exact ⟨⟨previous, htask⟩, hsame.info.trans hfits.1, hsame.connection.trans hfits.2.1, hfits.2.2⟩
  next => cases hv

theorem reached_fail {failure : Failure} (h : Invariant s) (hafter : Invariant v)
    (hv : s.fail t failure = some v) : Reached s v (.fail t failure) t (v.tasks t) := by
  have hfits := h.fits t
  unfold Session.fail at hv
  split at hv
  next =>
    cases hv
    rw [finish_self]
    trivial
  next =>
    cases hv
    rw [finish_self]
    trivial
  next r htask =>
    rw [htask] at hfits
    cases hv
    exact reached_throw (note_untouched s failure _) hfits.1 hfits.2 hafter.lost
  next r htask =>
    rw [htask] at hfits
    cases hv
    exact reached_throw (.refl s) hfits.1 hfits.2 hafter.lost
  next =>
    cases hv
    rw [set_self]
    trivial
  next r staged code htask =>
    rw [htask] at hfits
    cases hv
    exact reached_throw (removeContext_untouched s _ _) hfits.1 hfits.2.1 hafter.lost
  next r previous staged htask =>
    rw [htask] at hfits
    have hsame := removeContext_untouched s previous (some failure)
    have hleft := And.intro (hsame.info.trans hfits.1) (hsame.connection.trans hfits.2.1)
    cases hv
    rw [finish_self]
    split
    · exact ⟨⟨previous, htask⟩, hleft.1, hleft.2, hfits.2.2⟩
    · exact ⟨⟨previous, htask⟩, hleft.1, hleft.2, hfits.2.2⟩
  next => cases hv

def Frame (s v : Session ι) (t : ℕ) : Prop := ∀ u, u ≠ t → v.tasks u = s.tasks u

theorem frame_set (h : u.tasks = s.tasks) : Frame s (u.set t task) t := by
  intro i hi
  simp [Session.set, hi, h]

theorem frame_finish (h : u.tasks = s.tasks) : Frame s (u.finish t task) t := by
  intro i hi
  simp [Session.finish, Session.set, hi, h]

theorem frame_answer {value : Value} {aborted : Bool} (hv : s.answer t value aborted = some v) :
    Frame s v t := by
  unfold Session.answer at hv
  split at hv
  next => split at hv <;> cases hv <;> exact frame_finish rfl
  next => split at hv <;> cases hv <;> exact frame_finish rfl
  next =>
    split at hv
    next =>
      cases hv
      exact frame_set rfl
    next =>
      cases hv
      exact frame_finish (markLost_untouched s _ _).tasks
  next contextId revision _ =>
    split at hv
    next => cases hv
    next =>
      cases hv
      exact frame_set (remember_untouched { s with used := contextId :: s.used } contextId).tasks
  next =>
    split at hv
    next =>
      cases hv
      exact frame_set (remember_untouched s _).tasks
    next =>
      split at hv
      next =>
        cases hv
        exact frame_set (remember_untouched s _).tasks
      next =>
        cases hv
        exact frame_set
          (remember_untouched { s with info := _, connection := _, retired := _ } _).tasks
  next =>
    cases hv
    exact frame_finish ((removeContext_untouched s _ _).trans (markLost_untouched _ _ _)).tasks
  next =>
    cases hv
    exact frame_finish (removeContext_untouched s _ _).tasks
  next => cases hv

theorem frame_fail {failure : Failure} (hv : s.fail t failure = some v) : Frame s v t := by
  have hfailed : ∀ id, Untouched s ((s.note failure id).markLost failure.code id) := fun id =>
    (note_untouched s failure id).trans (markLost_untouched _ _ _)
  unfold Session.fail at hv
  split at hv
  next =>
    cases hv
    exact frame_finish (hfailed _).tasks
  next =>
    cases hv
    exact frame_finish (hfailed _).tasks
  next =>
    cases hv
    exact frame_finish (hfailed _).tasks
  next =>
    cases hv
    exact frame_finish (markLost_untouched s _ _).tasks
  next =>
    cases hv
    exact frame_set ((note_untouched s failure _).trans (remember_untouched _ _)).tasks
  next =>
    cases hv
    exact frame_finish ((removeContext_untouched s _ _).trans (markLost_untouched _ _ _)).tasks
  next =>
    cases hv
    exact frame_finish (removeContext_untouched s _ _).tasks
  next => cases hv

theorem frame_complete {failure : Option Failure} (hv : s.complete t failure = some v) :
    Frame s v t := by
  unfold Session.complete at hv
  split at hv
  next =>
    cases hv
    exact frame_set rfl
  next failure _ =>
    cases hv
    exact frame_set ((note_untouched s failure _).trans (markLost_untouched _ _ _)).tasks
  next => cases hv

theorem frame_step {e : Event ι} (hv : next s e = some v) (ht : e.caller ≠ some t) :
    v.tasks t = s.tasks t := by
  cases e with
  | call u request =>
    have hne : t ≠ u := fun h => ht (congrArg some h.symm)
    simp only [next] at hv
    split at hv
    next =>
      cases hv
      unfold Session.call
      split
      · exact frame_finish rfl t hne
      · split
        · exact frame_finish rfl t hne
        · exact frame_set rfl t hne
    next => cases hv
  | reject u failure =>
    have hne : t ≠ u := fun h => ht (congrArg some h.symm)
    simp only [next] at hv
    split at hv
    next => cases hv
    next =>
      cases hv
      exact frame_finish rfl t hne
    next => cases hv
  | grant u =>
    have hne : t ≠ u := fun h => ht (congrArg some h.symm)
    simp only [next] at hv
    split at hv
    next =>
      cases hv
      unfold Session.grant
      split
      · exact frame_finish rfl t hne
      · split
        · exact frame_set rfl t hne
        · exact frame_set rfl t hne
        · exact frame_set rfl t hne
        · exact frame_finish rfl t hne
    next => cases hv
  | answer u value aborted => exact frame_answer hv t fun h => ht (congrArg some h.symm)
  | fail u failure => exact frame_fail hv t fun h => ht (congrArg some h.symm)
  | complete u failure => exact frame_complete hv t fun h => ht (congrArg some h.symm)
  | stopAccepting =>
    cases hv
    rfl

theorem reached_step {e : Event ι} (h : Invariant s) (hafter : Invariant v)
    (hv : next s e = some v) (hcaller : e.caller = some t) : Reached s v e t (v.tasks t) := by
  cases e with
  | call u request =>
    cases hcaller
    simp only [next] at hv
    split at hv
    next =>
      cases hv
      unfold Session.call
      split
      · exact reached_refuse h.lost
      · split
        · exact reached_refuse h.lost
        · rw [set_self]
          trivial
    next => cases hv
  | reject u failure =>
    cases hcaller
    simp only [next] at hv
    split at hv
    next => cases hv
    next =>
      cases hv
      exact reached_refuse h.lost
    next => cases hv
  | grant u =>
    cases hcaller
    simp only [next] at hv
    split at hv
    next =>
      cases hv
      have hstarted : ∀ task : SessionRebind.Task ι,
          ({ s.set t task with holder := some t }).tasks t = task :=
        set_self s t
      unfold Session.grant
      split
      · exact reached_refuse h.lost
      · split
        · rw [hstarted]
          trivial
        · rw [hstarted]
          trivial
        · rw [hstarted]
          trivial
        · exact reached_refuse h.lost
    next => cases hv
  | answer u value aborted =>
    cases hcaller
    exact reached_answer h hafter hv
  | fail u failure =>
    cases hcaller
    exact reached_fail h hafter hv
  | complete u failure =>
    cases hcaller
    simp only [next, Session.complete] at hv
    split at hv
    next =>
      cases hv
      rw [set_self]
      trivial
    next =>
      cases hv
      rw [set_self]
      trivial
    next => cases hv
  | stopAccepting => cases hcaller

/-- An exchange of a context that has been replaced changes neither the revision nor `lost`. -/
theorem late_step {e : Event ι} {current : Info} (h : Invariant s) (hv : next s e = some v)
    (hcaller : e.caller = some t)
    (htask : s.tasks t = .streaming current ∨ s.tasks t = .handed current)
    (hretired : current.contextId ∈ s.retired) : v.info = s.info ∧ v.lost = s.lost := by
  rcases htask with htask | htask
  · have hfits := h.fits t
    rw [htask] at hfits
    rw [show current = s.info from hfits] at hretired
    exact absurd hretired h.current.2
  · have hother : s.info.contextId ≠ current.contextId := by
      intro heq
      exact h.current.2 (heq ▸ hretired)
    cases e with
    | complete u failure =>
      cases hcaller
      cases failure with
      | none =>
        simp only [next, Session.complete, htask] at hv
        cases hv
        exact ⟨rfl, rfl⟩
      | some failure =>
        simp only [next, Session.complete, htask] at hv
        cases hv
        have hnoted := note_untouched s failure current.contextId
        have hunmarked :
            (s.note failure current.contextId).markLost failure.code current.contextId =
            s.note failure current.contextId := by
          simp [Session.markLost, hnoted.info, hother]
        rw [hunmarked]
        refine ⟨hnoted.info, ?_⟩
        show (s.note failure current.contextId).lost = s.lost
        unfold Session.note
        split <;> rfl
    | stopAccepting => cases hcaller
    | _ =>
      cases hcaller
      simp [next, Session.answer, Session.fail, htask] at hv

/-- `rebindIdentity` in the state `w`: every step in which it returns leaves one of the two
identities in full, and nothing of the one that has been replaced comes back. -/
structure Atomic (w : Session ι) : Prop where
  usable : w.lost = true → w.info.contextId ∈ w.missing
  settles : ∀ e v t r outcome, next w e = some v → guarded w e = true →
    (∀ r' outcome', w.tasks t ≠ .rebound r' outcome') → v.tasks t = .rebound r outcome →
    Settled w v t r outcome
  cutsOver : ∀ e v t r previous info, next w e = some v → guarded w e = true →
    w.tasks t ≠ .deleting r previous info → v.tasks t = .deleting r previous info →
    Cutover w e t r info
  late : ∀ e v t current, next w e = some v → e.caller = some t →
    w.tasks t = .streaming current ∨ w.tasks t = .handed current →
    current.contextId ∈ w.retired → v.info = w.info ∧ v.lost = w.lost

theorem reached_of_moves {e : Event ι} (h : Invariant s) (hv : next s e = some v)
    (hguard : guarded s e = true) (hmoves : v.tasks t ≠ s.tasks t) :
    Reached s v e t (v.tasks t) := by
  by_cases hcaller : e.caller = some t
  · exact reached_step h (invariant_step h hguard hv) hv hcaller
  · exact absurd (frame_step hv hcaller) hmoves

/-- In every run in which the service finds the context that a rebind sets up, and in which no
session is lost when its identity changes, `rebindIdentity` is atomic. -/
theorem rebind_atomic {info : Info} {connection : ι} {es : List (Event ι)} {w : Session ι}
    (hguard : (machine info connection).Along (fun s e _ => guarded s e = true)
      (.initial info connection) es)
    (hrun : (machine info connection).run (.initial info connection) es = some w) : Atomic w := by
  have h := invariant_run hguard hrun
  refine ⟨h.lost, ?_, ?_, ?_⟩
  · intro e v t r outcome hv hstep hbefore hr
    have hreached := reached_of_moves h hv hstep (t := t) fun hsame =>
      hbefore r outcome (hsame.symm.trans hr)
    rwa [hr] at hreached
  · intro e v t r previous info hv hstep hbefore hr
    have hreached := reached_of_moves h hv hstep (t := t) fun hsame => hbefore (hsame.symm.trans hr)
    rwa [hr] at hreached
  · intro e v t current hv hcaller htask hretired
    exact late_step h hv hcaller htask hretired

def exchangeThenRebind : List (Event ℕ) :=
  [.call 0 .stream, .grant 0,
    .answer 0 (.exchange ⟨"r1", 200, [], { initialDiagnostics "r1" 0 "chrome" with
      contextId := some "c1" }, some 4⟩) false,
    .call 1 (.rebind 2 true), .grant 1, .answer 1 (.cookies 4 true) false,
    .answer 1 (.created "c2" 0) false]

def committing : List (Event ℕ) := [.answer 1 (.cookies 1 true) false, .answer 1 .removed false]

theorem rebind_atomic_late_body :
    ∃ w : Session ℕ, (machine ⟨"c1", 4⟩ 1).run (.initial ⟨"c1", 4⟩ 1)
        (exchangeThenRebind ++ committing) = some w ∧
      w.info = ⟨"c2", 1⟩ ∧ w.connection = 2 ∧ "c1" ∈ w.retired ∧ Atomic w := by
  have hruns : ((machine ⟨"c1", 4⟩ 1).run (.initial ⟨"c1", 4⟩ 1)
      (exchangeThenRebind ++ committing)).any (fun w =>
        w.info = ⟨"c2", 1⟩ ∧ w.connection = 2 ∧ "c1" ∈ w.retired) = true := by decide +kernel
  obtain ⟨w, hw, hfacts⟩ := (Option.any_eq_true _ _).mp hruns
  obtain ⟨hinfo, hconnection, hretired⟩ := of_decide_eq_true hfacts
  refine ⟨w, hw, hinfo, hconnection, hretired, ?_⟩
  exact rebind_atomic (by decide +kernel) hw

/-- The staged context is not found, and the handler marks the one in use. -/
theorem staging_marks_lost :
    (∃ w : Session ℕ, (machine ⟨"c1", 4⟩ 1).run (.initial ⟨"c1", 4⟩ 1)
        (exchangeThenRebind ++ [.fail 1 (.answered .contextNotFound), .answer 1 .removed false]) =
          some w ∧
      w.tasks 1 = .rebound ⟨2, "c1", 1⟩ (.thrown .contextNotFound) ∧
      w.info.contextId = "c1" ∧ w.lost = true ∧ w.missing = ["c2"]) ∧
    ∃ w : Session ℕ, (machine ⟨"c1", 4⟩ 1).run (.initial ⟨"c1", 4⟩ 1)
        (exchangeThenRebind ++ .complete 0 (some (.answered .contextNotFound)) :: committing ++
          [.call 2 (.rebind 3 true)]) = some w ∧
      w.tasks 2 = .rebound ⟨3, "c2", 2⟩ (.thrown .contextNotFound) ∧
      w.info.contextId = "c2" ∧ w.lost = true ∧ w.missing = ["c1"] := by
  constructor
  · have hruns : ((machine ⟨"c1", 4⟩ 1).run (.initial ⟨"c1", 4⟩ 1)
        (exchangeThenRebind ++ [.fail 1 (.answered .contextNotFound),
          .answer 1 .removed false])).any
        (fun w => w.tasks 1 = .rebound ⟨2, "c1", 1⟩ (.thrown .contextNotFound) ∧
          w.info.contextId = "c1" ∧ w.lost = true ∧ w.missing = ["c2"]) = true := by decide +kernel
    obtain ⟨w, hw, hfacts⟩ := (Option.any_eq_true _ _).mp hruns
    exact ⟨w, hw, of_decide_eq_true hfacts⟩
  · have hruns : ((machine ⟨"c1", 4⟩ 1).run (.initial ⟨"c1", 4⟩ 1)
        (exchangeThenRebind ++ .complete 0 (some (.answered .contextNotFound)) :: committing ++
          [.call 2 (.rebind 3 true)])).any
        (fun w => w.tasks 2 = .rebound ⟨3, "c2", 2⟩ (.thrown .contextNotFound) ∧
          w.info.contextId = "c2" ∧ w.lost = true ∧ w.missing = ["c1"]) = true := by decide +kernel
    obtain ⟨w, hw, hfacts⟩ := (Option.any_eq_true _ _).mp hruns
    exact ⟨w, hw, of_decide_eq_true hfacts⟩

end RebindAtomicity
