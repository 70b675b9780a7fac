import Mathlib.Logic.Function.Basic
import Ja3Proxy.JarPolicy

/-! The revision of a managed context that is neither closed nor expired.
Commands (`ContextStore::cookies`) and requests (`CookieAccess`) reach the jar under one
lock, in steps: revision read, checks, jar update, revision store. Any waiting task may be
next to get the lock. `touch` and `expired` never object on a live context. -/
namespace CookieRevision

open AsciiText (HeaderValue)
open AllowedOrigins CookieModel ExceptRules JarPolicy JarUpdates ManagedJar TransitionRuns
  TransportErrors WordArithmetic

/-- `CookieCommand`, without the partition that selects the context. -/
inductive Command where
  | select (url : String)
  | set (url : String) (cookies : List String) (expectedRevision : ℕ)
  | exportSnapshot
  | importSnapshot (snapshot : CookieSnapshot) (expectedRevision : ℕ)
  deriving DecidableEq

structure CookieReply where
  revision : ℕ
  cookies : Option (List CookieRecord)
  snapshot : Option CookieSnapshot
  deriving DecidableEq

def checkRevision (actual expected : ℕ) : Except TransportError Unit :=
  rejectIf (actual != expected)
    (.new .contextConflict "Die Cookie-Revision wurde bereits geändert.")

def nextRevision (revision : ℕ) : Except TransportError ℕ :=
  match (checkedAdd revision 1).filter (· ≤ SafeIntegers.maxSafe) with
  | some next => .ok next
  | none => .error (.new .contextLimit "Die maximale Cookie-Revision wurde erreicht.")

inductive Mutation where
  | set (u : Url) (cookies : List String)
  | importSnapshot (snapshot : CookieSnapshot)
  | absorb (u : Url) (headers : List HeaderValue)
  deriving DecidableEq

def Mutation.apply (x : Crates) (origins : List String) (now : ℤ) (j : Jar) :
    Mutation → Except TransportError Jar
  | .set u cookies => j.set x now u cookies
  | .importSnapshot snapshot => j.importSnapshot x now snapshot origins
  | .absorb u headers => j.absorb x now u headers

inductive Plan where
  | select (u : Url)
  | exportSnapshot
  | mutate (m : Mutation) (next : ℕ)

def plan (x : Crates) (origins : List String) (revision : ℕ) :
    Command → Except TransportError Plan
  | .select url => (validateOrigin x url origins).bind fun u => .ok (.select u)
  | .exportSnapshot => .ok .exportSnapshot
  | .set url cookies expectedRevision =>
    (checkRevision revision expectedRevision).bind fun _ =>
    (nextRevision revision).bind fun next =>
    (validateOrigin x url origins).bind fun u => .ok (.mutate (.set u cookies) next)
  | .importSnapshot snapshot expectedRevision =>
    (checkRevision revision expectedRevision).bind fun _ =>
    (nextRevision revision).bind fun next => .ok (.mutate (.importSnapshot snapshot) next)

inductive Work where
  | command (c : Command)
  | absorb (u : Url) (headers : List HeaderValue)
  deriving DecidableEq

def Work.expected : Work → Option ℕ
  | .command (.set _ _ expectedRevision) => some expectedRevision
  | .command (.importSnapshot _ expectedRevision) => some expectedRevision
  | _ => none

def Work.mutates : Work → Bool
  | .command (.set _ _ _) => true
  | .command (.importSnapshot _ _) => true
  | .command _ => false
  | .absorb _ headers => !headers.isEmpty

inductive Job where
  | command (c : Command)
  | access (u : Url)
  deriving DecidableEq

/-- A task makes one call. `revision` is the one it read under the lock; `chosen` is the jar
from which the `Cookie` header was selected. `absorb` replies with a revision only. -/
inductive Pc where
  | idle
  | waiting (job : Job)
  | locked (job : Job)
  | loaded (c : Command) (revision : ℕ)
  | exchanging (u : Url) (chosen : Jar)
  | updating (work : Work) (m : Mutation) (chosen : Option Jar) (revision next : ℕ)
  | storing (work : Work) (revision next : ℕ)
  | leaving (work : Work) (revision : ℕ) (result : Except TransportError CookieReply)
  | done (work : Work) (revision : ℕ) (result : Except TransportError CookieReply)
  | gone

/-- Ghost record of one successful update of the jar. -/
structure Write where
  task : ℕ
  work : Work
  mutation : Mutation
  chosen : Option Jar
  now : ℤ
  before : Jar
  after : Jar

structure World where
  holder : Option ℕ
  jar : Jar
  revision : ℕ
  pc : ℕ → Pc
  writes : List Write

inductive Event where
  | call (n : ℕ) (c : Command)
  | request (n : ℕ) (url : String)
  | lock (n : ℕ)
  | abandon (n : ℕ)
  | load (n : ℕ)
  | check (n : ℕ) (now : ℤ)
  | header (n : ℕ)
  | absorb (n : ℕ) (headers : List HeaderValue)
  | update (n : ℕ) (now : ℤ)
  | store (n : ℕ)
  | leave (n : ℕ)

def World.initial (start : Jar) : World := ⟨none, start, 0, fun _ => .idle, []⟩

def World.goto (w : World) (n : ℕ) (pc : Pc) : World := { w with pc := Function.update w.pc n pc }

def afterCheck (x : Crates) (origins : List String) (now : ℤ) (j : Jar) (c : Command)
    (revision : ℕ) : Pc :=
  match plan x origins revision c with
  | .error e => .leaving (.command c) revision (.error e)
  | .ok (.select u) =>
    .leaving (.command c) revision (.ok ⟨revision, some (j.select x now u), none⟩)
  | .ok .exportSnapshot =>
    .leaving (.command c) revision (.ok ⟨revision, none, some (j.exportSnapshot now)⟩)
  | .ok (.mutate m next) => .updating (.command c) m none revision next

def afterAbsorb (revision : ℕ) (u : Url) (chosen : Jar) (headers : List HeaderValue) : Pc :=
  if headers.isEmpty then .leaving (.absorb u headers) revision (.ok ⟨revision, none, none⟩)
  else
    match nextRevision revision with
    | .error e => .leaving (.absorb u headers) revision (.error e)
    | .ok next => .updating (.absorb u headers) (.absorb u headers) (some chosen) revision next

def next (x : Crates) (origins : List String) (w : World) : Event → Option World
  | .call n c =>
    match w.pc n with
    | .idle => some (w.goto n (.waiting (.command c)))
    | _ => none
  | .request n url =>
    match w.pc n, validateOrigin x url origins with
    | .idle, .ok u => some (w.goto n (.waiting (.access u)))
    | _, _ => none
  | .lock n =>
    match w.pc n, w.holder with
    | .waiting job, none => some ({ w with holder := some n }.goto n (.locked job))
    | _, _ => none
  | .abandon n =>
    match w.pc n with
    | .waiting _ => some (w.goto n .gone)
    | .exchanging _ _ => some ({ w with holder := none }.goto n .gone)
    | _ => none
  | .load n =>
    match w.pc n with
    | .locked (.command c) => some (w.goto n (.loaded c w.revision))
    | _ => none
  | .check n now =>
    match w.pc n with
    | .loaded c revision => some (w.goto n (afterCheck x origins now w.jar c revision))
    | _ => none
  | .header n =>
    match w.pc n with
    | .locked (.access u) => some (w.goto n (.exchanging u w.jar))
    | _ => none
  | .absorb n headers =>
    match w.pc n with
    | .exchanging u chosen => some (w.goto n (afterAbsorb w.revision u chosen headers))
    | _ => none
  | .update n now =>
    match w.pc n with
    | .updating work m chosen revision next =>
      match m.apply x origins now w.jar with
      | .error e => some (w.goto n (.leaving work revision (.error e)))
      | .ok jar =>
        some ({ w with
          jar := jar
          writes := w.writes ++ [Write.mk n work m chosen now w.jar jar] }.goto n
            (.storing work revision next))
    | _ => none
  | .store n =>
    match w.pc n with
    | .storing work revision next =>
      some ({ w with revision := next }.goto n
        (.leaving work revision (.ok ⟨next, none, none⟩)))
    | _ => none
  | .leave n =>
    match w.pc n with
    | .leaving work revision result =>
      some ({ w with holder := none }.goto n (.done work revision result))
    | _ => none

def machine (x : Crates) (origins : List String) (start : Jar) : Machine World Event :=
  ⟨.initial start, next x origins⟩

def Pc.holds : Pc → Bool
  | .idle | .waiting _ | .done _ _ _ | .gone => false
  | _ => true

def Pc.storing? : Pc → Bool
  | .storing _ _ _ => true
  | _ => false

def Settled (w : World) : Prop := ∀ n, (w.pc n).storing? = false

def World.pending (w : World) : ℕ :=
  match w.holder with
  | some n => if (w.pc n).storing? then 1 else 0
  | none => 0

def Work.Carries : Work → Mutation → Prop
  | .command (.set _ cookies _), .set _ cookies' => cookies = cookies'
  | .command (.importSnapshot snapshot _), .importSnapshot snapshot' => snapshot = snapshot'
  | .absorb u headers, .absorb u' headers' => u = u' ∧ headers = headers'
  | _, _ => False

def Work.selectedFrom (j : Jar) : Work → Option Jar
  | .command _ => none
  | .absorb _ _ => some j

def Absent (w : World) (n : ℕ) : Prop := ∀ e ∈ w.writes, e.task ≠ n

def Moves (w : World) (n : ℕ) (work : Work) (r : ℕ) : Prop :=
  ∃ e, w.writes[r]? = some e ∧ e.task = n ∧ e.work = work

def ResultOk (w : World) (n : ℕ) (work : Work) (r : ℕ) :
    Except TransportError CookieReply → Prop
  | .ok reply =>
    if work.mutates then
      Moves w n work r ∧ reply.revision = r + 1 ∧ ∀ k ∈ work.expected, k = r
    else Absent w n ∧ reply.revision = r
  | .error e => Absent w n ∧ (e.code = .contextConflict ↔ ∃ k ∈ work.expected, k ≠ r)

def LocalOk (w : World) (n : ℕ) : Pc → Prop
  | .idle | .waiting _ | .locked _ | .gone => Absent w n
  | .loaded _ r => Absent w n ∧ r = w.revision
  | .exchanging _ chosen => Absent w n ∧ chosen = w.jar
  | .updating work m chosen r next => Absent w n ∧ r = w.revision ∧ next = r + 1 ∧
      work.mutates = true ∧ (∀ k ∈ work.expected, k = r) ∧ work.Carries m ∧
      chosen = work.selectedFrom w.jar
  | .storing work r next => Moves w n work r ∧ r = w.revision ∧ next = r + 1 ∧
      work.mutates = true ∧ ∀ k ∈ work.expected, k = r
  | .leaving work r result | .done work r result => ResultOk w n work r result

structure Applied (x : Crates) (origins : List String) (e : Write) : Prop where
  carries : e.work.Carries e.mutation
  applied : e.mutation.apply x origins e.now e.before = .ok e.after
  chosen : e.chosen = e.work.selectedFrom e.before

def Chain : Jar → List Write → Jar → Prop
  | j, [], k => j = k
  | j, e :: es, k => e.before = j ∧ Chain e.after es k

structure Invariant (x : Crates) (origins : List String) (start : Jar) (w : World) : Prop where
  holder : ∀ n, (w.pc n).holds = true ↔ w.holder = some n
  locals : ∀ n, LocalOk w n (w.pc n)
  chain : Chain start w.writes w.jar
  count : w.writes.length = w.revision + w.pending
  distinct : (w.writes.map Write.task).Nodup
  applied : ∀ e ∈ w.writes, Applied x origins e

theorem chain_append {j k : Jar} {es : List Write} {e : Write} (h : Chain j es k)
    (he : e.before = k) : Chain j (es ++ [e]) e.after := by
  induction es generalizing j with
  | nil =>
    cases h
    exact ⟨he, rfl⟩
  | cons f es ih => exact ⟨h.1, ih h.2⟩

theorem chain_unique {j k l : Jar} {es : List Write} (hk : Chain j es k) (hl : Chain j es l) :
    k = l := by
  induction es generalizing j with
  | nil => exact hk.symm.trans hl
  | cons e es ih => exact ih hk.2 hl.2

section Steps

variable {x : Crates} {origins : List String} {start : Jar} {w : World} {n : ℕ}

theorem Invariant.initial : Invariant x origins start (.initial start) where
  holder n := by simp [World.initial, Pc.holds]
  locals n := by simp [World.initial, LocalOk, Absent]
  chain := rfl
  count := rfl
  distinct := List.nodup_nil
  applied e he := absurd he List.not_mem_nil

/-- One task moves on and nothing else changes, but the lock may change hands. -/
theorem invariant_goto (h : Invariant x origins start w) {pc : Pc} {holder : Option ℕ}
    (hholder : ∀ m, (Function.update w.pc n pc m).holds = true ↔ holder = some m)
    (hpending : World.pending ({ w with holder := holder }.goto n pc) = w.pending)
    (hlocal : LocalOk w n pc) :
    Invariant x origins start ({ w with holder := holder }.goto n pc) where
  holder := hholder
  locals m := by
    by_cases hm : m = n
    · subst hm
      simp only [World.goto, Function.update_self]
      exact hlocal
    · simp only [World.goto, Function.update_of_ne hm]
      exact h.locals m
  chain := h.chain
  count := by
    rw [hpending]
    exact h.count
  distinct := h.distinct
  applied := h.applied

/-- A task that goes on with or without the lock, as before, leaves the holder in place. -/
private theorem Invariant.holder_update (h : Invariant x origins start w) {pc : Pc}
    (hholds : pc.holds = (w.pc n).holds) (m : ℕ) :
    (Function.update w.pc n pc m).holds = true ↔ w.holder = some m := by
  by_cases hm : m = n
  · subst hm
    rw [Function.update_self, hholds]
    exact h.holder m
  · rw [Function.update_of_ne hm]
    exact h.holder m

theorem invariant_move (h : Invariant x origins start w) {old pc : Pc} (hpc : w.pc n = old)
    (hholds : pc.holds = old.holds) (hstoring : pc.storing? = old.storing?)
    (hlocal : LocalOk w n old → LocalOk w n pc) : Invariant x origins start (w.goto n pc) := by
  subst hpc
  apply invariant_goto h (h.holder_update hholds) _ (hlocal (h.locals n))
  simp only [World.pending, World.goto]
  cases w.holder with
  | none => rfl
  | some m =>
    by_cases hm : m = n
    · subst hm
      simp only [Function.update_self, hstoring]
    · simp only [Function.update_of_ne hm]

theorem invariant_acquire (h : Invariant x origins start w) (hfree : w.holder = none) {pc : Pc}
    (hholds : pc.holds = true) (hstoring : pc.storing? = false) (hlocal : LocalOk w n pc) :
    Invariant x origins start ({ w with holder := some n }.goto n pc) := by
  apply invariant_goto h _ _ hlocal
  · intro m
    by_cases hm : m = n
    · subst hm
      simp [hholds]
    · rw [Function.update_of_ne hm, h.holder m, hfree]
      simp [Ne.symm hm]
  · simp [World.pending, World.goto, hfree, hstoring]

theorem invariant_release (h : Invariant x origins start w) {old pc : Pc} (hpc : w.pc n = old)
    (hheld : old.holds = true) (hsettled : old.storing? = false) (hholds : pc.holds = false)
    (hlocal : LocalOk w n old → LocalOk w n pc) :
    Invariant x origins start ({ w with holder := none }.goto n pc) := by
  subst hpc
  have howner := (h.holder n).mp hheld
  apply invariant_goto h _ _ (hlocal (h.locals n))
  · intro m
    by_cases hm : m = n
    · subst hm
      simp [hholds]
    · rw [Function.update_of_ne hm, h.holder m, howner]
      simp [Ne.symm hm]
  · simp [World.pending, World.goto, howner, hsettled]

private theorem local_frame {v : World} {m : ℕ} {pc : Pc} {es : List Write}
    (hwrites : v.writes = w.writes ++ es) (hes : ∀ e ∈ es, e.task ≠ m)
    (hholds : pc.holds = false) (h : LocalOk w m pc) : LocalOk v m pc := by
  have absent : Absent w m → Absent v m := by
    intro ha e he
    rw [hwrites, List.mem_append] at he
    rcases he with he | he
    · exact ha e he
    · exact hes e he
  cases pc with
  | idle => exact absent h
  | waiting job => exact absent h
  | gone => exact absent h
  | done work r result =>
    cases result with
    | error e => exact ⟨absent h.1, h.2⟩
    | ok reply =>
      simp only [LocalOk, ResultOk] at h ⊢
      split at h
      · next hmutates =>
        obtain ⟨⟨e, he, htask⟩, hrest⟩ := h
        rw [if_pos hmutates]
        refine ⟨⟨e, ?_, htask⟩, hrest⟩
        rw [hwrites, List.getElem?_append_left (List.getElem?_eq_some_iff.mp he).1]
        exact he
      · next hmutates =>
        rw [if_neg hmutates]
        exact ⟨absent h.1, h.2⟩
  | _ => cases hholds

/-- While one task has the lock, every other task is outside. -/
private theorem Invariant.others_outside (h : Invariant x origins start w)
    (hheld : (w.pc n).holds = true) {m : ℕ} (hm : m ≠ n) : (w.pc m).holds = false := by
  rw [Bool.eq_false_iff]
  intro hm'
  have howner := (h.holder m).mp hm'
  rw [(h.holder n).mp hheld] at howner
  exact hm (Option.some.inj howner).symm

theorem invariant_update (h : Invariant x origins start w) {work : Work} {m : Mutation}
    {chosen : Option Jar} {r r' : ℕ} {now : ℤ} {jar : Jar}
    (hpc : w.pc n = .updating work m chosen r r') (hjar : m.apply x origins now w.jar = .ok jar) :
    Invariant x origins start ({ w with
      jar := jar
      writes := w.writes ++ [Write.mk n work m chosen now w.jar jar] }.goto n
        (.storing work r r')) := by
  have hlocal := h.locals n
  rw [hpc] at hlocal
  obtain ⟨habsent, hr, hr', hmutates, hexpected, hcarries, hchosen⟩ := hlocal
  have hheld : (w.pc n).holds = true := by rw [hpc]; rfl
  have howner := (h.holder n).mp hheld
  have hcount : w.writes.length = r := by
    rw [h.count, hr]
    simp [World.pending, howner, hpc, Pc.storing?]
  constructor
  · exact h.holder_update (by rw [hpc]; rfl)
  · intro k
    by_cases hk : k = n
    · subst hk
      simp only [World.goto, Function.update_self, LocalOk, Moves]
      refine ⟨⟨Write.mk k work m chosen now w.jar jar, ?_, rfl, rfl⟩, hr, hr', hmutates,
        hexpected⟩
      rw [List.getElem?_append_right hcount.le, hcount, Nat.sub_self]
      rfl
    · simp only [World.goto, Function.update_of_ne hk]
      apply local_frame (w := w) rfl _ (h.others_outside hheld hk) (h.locals k)
      intro e he
      rw [List.mem_singleton.mp he]
      exact Ne.symm hk
  · exact chain_append h.chain rfl
  · simp [World.pending, World.goto, howner, Pc.storing?, hcount, hr]
  · simp only [World.goto, List.map_append, List.map_cons, List.map_nil]
    rw [List.nodup_append]
    refine ⟨h.distinct, List.nodup_singleton _, ?_⟩
    intro a ha b hb hab
    obtain ⟨e, he, rfl⟩ := List.mem_map.mp ha
    rw [List.mem_singleton.mp hb] at hab
    exact habsent e he hab
  · intro e he
    rcases List.mem_append.mp he with he | he
    · exact h.applied e he
    · rw [List.mem_singleton.mp he]
      exact ⟨hcarries, hjar, hchosen⟩

theorem invariant_store (h : Invariant x origins start w) {work : Work} {r r' : ℕ}
    (hpc : w.pc n = .storing work r r') :
    Invariant x origins start ({ w with revision := r' }.goto n
      (.leaving work r (.ok ⟨r', none, none⟩))) := by
  have hlocal := h.locals n
  rw [hpc] at hlocal
  obtain ⟨hmoves, hr, hr', hmutates, hexpected⟩ := hlocal
  have hheld : (w.pc n).holds = true := by rw [hpc]; rfl
  have howner := (h.holder n).mp hheld
  constructor
  · exact h.holder_update (by rw [hpc]; rfl)
  · intro k
    by_cases hk : k = n
    · subst hk
      simp only [World.goto, Function.update_self, LocalOk, ResultOk, if_pos hmutates]
      exact ⟨hmoves, hr', hexpected⟩
    · simp only [World.goto, Function.update_of_ne hk]
      exact local_frame (w := w) (List.append_nil _).symm (fun e he => absurd he List.not_mem_nil)
        (h.others_outside hheld hk) (h.locals k)
  · exact h.chain
  · have hcount := h.count
    simp only [World.pending, howner, hpc, Pc.storing?, if_true] at hcount
    simp only [World.pending, World.goto, howner, Function.update_self, Pc.storing?,
      Bool.false_eq_true, if_false]
    omega
  · exact h.distinct
  · exact h.applied

end Steps

def NotConflict (e : TransportError) : Prop := e.code ≠ .contextConflict

private theorem nextRevision_ok {r r' : ℕ} (h : nextRevision r = .ok r') : r' = r + 1 := by
  unfold nextRevision at h
  split at h
  · next found hfound =>
    cases h
    exact (checkedAdd_eq_some.mp (Option.filter_eq_some_iff.mp hfound).1).2
  · cases h

private theorem nextRevision_fails {r : ℕ} : FailsWith NotConflict (nextRevision r) := by
  unfold nextRevision
  split
  · exact .ok _
  · exact .error (by simp [NotConflict])

private theorem validateOrigin_fails {x : Crates} {url : String} {origins : List String} :
    FailsWith NotConflict (validateOrigin x url origins) := by
  refine .bind ?_ fun _ => .bind (.rejectIf (by simp [NotConflict])) fun _ => .ok _
  unfold parseTarget
  split
  · exact .error (by simp [NotConflict, invalidUrl])
  · exact .bind (.rejectIf (by simp [NotConflict, invalidUrl])) fun _ => .ok _

private theorem mutation_fails {x : Crates} {origins : List String} {now : ℤ} {j : Jar}
    {m : Mutation} : FailsWith NotConflict (m.apply x origins now j) := by
  have hcodes : ∀ e, JarError e → NotConflict e := by
    rintro e (h | h) <;> simp [NotConflict, h]
  intro e he
  apply hcodes
  cases m with
  | set u cookies => exact apply_fails e he
  | importSnapshot snapshot => exact importSnapshot_fails e he
  | absorb u headers => exact absorb_fails e he

/-- A command that expects revision `k` passes `check_revision` exactly when it is `r`. -/
private theorem checkRevision_cases (r k : ℕ) :
    (r = k ∧ checkRevision r k = .ok ()) ∨
      (r ≠ k ∧ ∃ e, checkRevision r k = .error e ∧ e.code = .contextConflict) := by
  by_cases hrk : r = k
  · exact .inl ⟨hrk, by simp [checkRevision, hrk]⟩
  · exact .inr ⟨hrk, _, by simp [checkRevision, rejectIf, hrk]; rfl, rfl⟩

private theorem plan_error {x : Crates} {origins : List String} {r : ℕ} {c : Command}
    {e : TransportError} (h : plan x origins r c = .error e) :
    e.code = .contextConflict ↔ ∃ k ∈ (Work.command c).expected, k ≠ r := by
  cases c with
  | select url =>
    have hne : NotConflict e :=
      FailsWith.bind validateOrigin_fails (fun _ => FailsWith.ok _) e h
    simpa [Work.expected, NotConflict] using hne
  | exportSnapshot => cases h
  | set url cookies k =>
    simp only [plan] at h
    rcases checkRevision_cases r k with ⟨rfl, hok⟩ | ⟨hrk, found, hfound, hcode⟩
    · rw [hok] at h
      have hne : NotConflict e := FailsWith.bind nextRevision_fails
        (fun _ => FailsWith.bind validateOrigin_fails fun _ => FailsWith.ok _) e h
      simpa [Work.expected, NotConflict] using hne
    · rw [hfound] at h
      cases h
      simp [Work.expected, hcode, Ne.symm hrk]
  | importSnapshot snapshot k =>
    simp only [plan] at h
    rcases checkRevision_cases r k with ⟨rfl, hok⟩ | ⟨hrk, found, hfound, hcode⟩
    · rw [hok] at h
      have hne : NotConflict e :=
        FailsWith.bind nextRevision_fails (fun _ => FailsWith.ok _) e h
      simpa [Work.expected, NotConflict] using hne
    · rw [hfound] at h
      cases h
      simp [Work.expected, hcode, Ne.symm hrk]

private theorem plan_mutate {x : Crates} {origins : List String} {r r' : ℕ} {c : Command}
    {m : Mutation} (h : plan x origins r c = .ok (.mutate m r')) :
    r' = r + 1 ∧ (Work.command c).mutates = true ∧ (∀ k ∈ (Work.command c).expected, k = r) ∧
      (Work.command c).Carries m := by
  cases c with
  | select url =>
    obtain ⟨u, _, hu⟩ := bind_ok.mp h
    cases hu
  | exportSnapshot => cases h
  | set url cookies k =>
    simp only [plan, bind_ok, checkRevision, rejectIf_ok] at h
    obtain ⟨_, hk, next, hnext, u, _, hout⟩ := h
    cases hout
    refine ⟨nextRevision_ok hnext, rfl, ?_, rfl⟩
    have hrk : r = k := by simpa using hk
    simp [Work.expected, hrk]
  | importSnapshot snapshot k =>
    simp only [plan, bind_ok, checkRevision, rejectIf_ok] at h
    obtain ⟨_, hk, next, hnext, hout⟩ := h
    cases hout
    refine ⟨nextRevision_ok hnext, rfl, ?_, rfl⟩
    have hrk : r = k := by simpa using hk
    simp [Work.expected, hrk]

private theorem plan_read {x : Crates} {origins : List String} {r : ℕ} {c : Command} {p : Plan}
    (h : plan x origins r c = .ok p) (hread : ∀ m r', p ≠ .mutate m r') :
    (Work.command c).mutates = false := by
  cases c with
  | select url => rfl
  | exportSnapshot => rfl
  | set url cookies k =>
    simp only [plan, bind_ok] at h
    obtain ⟨_, _, _, _, _, _, hout⟩ := h
    cases hout
    exact absurd rfl (hread _ _)
  | importSnapshot snapshot k =>
    simp only [plan, bind_ok] at h
    obtain ⟨_, _, _, _, hout⟩ := h
    cases hout
    exact absurd rfl (hread _ _)

section Checks

variable {x : Crates} {origins : List String} {start : Jar} {w : World} {n : ℕ}

private theorem afterCheck_ok (now : ℤ) (c : Command) (habsent : Absent w n) :
    LocalOk w n (afterCheck x origins now w.jar c w.revision) ∧
      (afterCheck x origins now w.jar c w.revision).holds = true ∧
      (afterCheck x origins now w.jar c w.revision).storing? = false := by
  unfold afterCheck
  split
  · next e he => exact ⟨⟨habsent, plan_error he⟩, rfl, rfl⟩
  · next u hu =>
    refine ⟨?_, rfl, rfl⟩
    have hread := plan_read hu (by simp)
    simp only [LocalOk, ResultOk, hread, Bool.false_eq_true, if_false]
    exact ⟨habsent, trivial⟩
  · next hexport =>
    refine ⟨?_, rfl, rfl⟩
    have hread := plan_read hexport (by simp)
    simp only [LocalOk, ResultOk, hread, Bool.false_eq_true, if_false]
    exact ⟨habsent, trivial⟩
  · next m r' hm =>
    obtain ⟨hr', hmutates, hexpected, hcarries⟩ := plan_mutate hm
    exact ⟨⟨habsent, rfl, hr', hmutates, hexpected, hcarries, rfl⟩, rfl, rfl⟩

private theorem afterAbsorb_ok (u : Url) (headers : List HeaderValue) (habsent : Absent w n) :
    LocalOk w n (afterAbsorb w.revision u w.jar headers) ∧
      (afterAbsorb w.revision u w.jar headers).holds = true ∧
      (afterAbsorb w.revision u w.jar headers).storing? = false := by
  unfold afterAbsorb
  split
  · next hempty =>
    refine ⟨?_, rfl, rfl⟩
    simp only [LocalOk, ResultOk, Work.mutates, hempty, Bool.not_true, Bool.false_eq_true,
      if_false]
    exact ⟨habsent, trivial⟩
  · next hsome =>
    split
    · next e he =>
      refine ⟨⟨habsent, ?_⟩, rfl, rfl⟩
      have hne : NotConflict e := nextRevision_fails e he
      simpa [Work.expected, NotConflict] using hne
    · next r' hr' =>
      refine ⟨⟨habsent, rfl, nextRevision_ok hr', ?_, by simp [Work.expected], ⟨rfl, rfl⟩, rfl⟩,
        rfl, rfl⟩
      simpa [Work.mutates] using hsome

/-- The step lemma, one case for each event. -/
theorem invariant_step {v : World} {e : Event} (h : Invariant x origins start w)
    (hn : next x origins w e = some v) : Invariant x origins start v := by
  cases e with
  | call n c =>
    simp only [next] at hn
    split at hn
    · next hpc =>
      cases hn
      exact invariant_move h hpc rfl rfl id
    · cases hn
  | request n url =>
    simp only [next] at hn
    split at hn
    · next hpc _ =>
      cases hn
      exact invariant_move h hpc rfl rfl id
    · cases hn
  | lock n =>
    have hlocal := h.locals n
    simp only [next] at hn
    split at hn
    · next job hpc hfree =>
      cases hn
      rw [hpc] at hlocal
      exact invariant_acquire h hfree rfl rfl hlocal
    · cases hn
  | abandon n =>
    simp only [next] at hn
    split at hn
    · next job hpc =>
      cases hn
      exact invariant_move h hpc rfl rfl id
    · next u chosen hpc =>
      cases hn
      exact invariant_release h hpc rfl rfl rfl And.left
    · cases hn
  | load n =>
    simp only [next] at hn
    split at hn
    · next c hpc =>
      cases hn
      exact invariant_move h hpc rfl rfl fun habsent => ⟨habsent, rfl⟩
    · cases hn
  | check n now =>
    have hlocal := h.locals n
    simp only [next] at hn
    split at hn
    · next c revision hpc =>
      cases hn
      rw [hpc] at hlocal
      obtain ⟨habsent, rfl⟩ := hlocal
      obtain ⟨hnew, hholds, hstoring⟩ := afterCheck_ok now c habsent
      exact invariant_move h hpc hholds hstoring fun _ => hnew
    · cases hn
  | header n =>
    simp only [next] at hn
    split at hn
    · next u hpc =>
      cases hn
      exact invariant_move h hpc rfl rfl fun habsent => ⟨habsent, rfl⟩
    · cases hn
  | absorb n headers =>
    have hlocal := h.locals n
    simp only [next] at hn
    split at hn
    · next u chosen hpc =>
      cases hn
      rw [hpc] at hlocal
      obtain ⟨habsent, rfl⟩ := hlocal
      obtain ⟨hnew, hholds, hstoring⟩ := afterAbsorb_ok u headers habsent
      exact invariant_move h hpc hholds hstoring fun _ => hnew
    · cases hn
  | update n now =>
    simp only [next] at hn
    split at hn
    · next work m chosen revision next hpc =>
      split at hn
      · next e he =>
        cases hn
        have hne : NotConflict e := mutation_fails e he
        refine invariant_move h hpc rfl rfl ?_
        rintro ⟨habsent, -, -, -, hexpected, -⟩
        refine ⟨habsent, fun hcode => absurd hcode hne, ?_⟩
        rintro ⟨k, hk, hkr⟩
        exact absurd (hexpected k hk) hkr
      · next jar hjar =>
        cases hn
        exact invariant_update h hpc hjar
    · cases hn
  | store n =>
    simp only [next] at hn
    split at hn
    · next work revision next hpc =>
      cases hn
      exact invariant_store h hpc
    · cases hn
  | leave n =>
    simp only [next] at hn
    split at hn
    · next work revision result hpc =>
      cases hn
      exact invariant_release h hpc rfl rfl rfl id
    · cases hn

end Checks

structure StepSpec (w : World) (e : Event) (v : World) : Prop where
  revision : v.revision = w.revision ∨
    ∃ n work, e = .store n ∧ v.revision = w.revision + 1 ∧ Moves w n work w.revision
  jar : v.jar = w.jar ∨
    ∃ n now f, e = .update n now ∧ v.writes = w.writes ++ [f] ∧ f.task = n
  writes : ∃ es, v.writes = w.writes ++ es

theorem step_spec {x : Crates} {origins : List String} {start : Jar} {w v : World} {e : Event}
    (h : Invariant x origins start w) (hn : next x origins w e = some v) : StepSpec w e v := by
  have quiet : ∀ n pc holder, v = { w with holder := holder }.goto n pc → StepSpec w e v := by
    rintro n pc holder rfl
    exact ⟨.inl rfl, .inl rfl, [], (List.append_nil _).symm⟩
  cases e with
  | update n now =>
    simp only [next] at hn
    split at hn
    · next work m chosen revision next hpc =>
      split at hn
      · cases hn
        exact quiet n _ w.holder rfl
      · cases hn
        exact ⟨.inl rfl, .inr ⟨n, now, _, rfl, rfl, rfl⟩, _, rfl⟩
    · cases hn
  | store n =>
    simp only [next] at hn
    split at hn
    · next work revision next hpc =>
      cases hn
      have hlocal := h.locals n
      rw [hpc] at hlocal
      obtain ⟨hmoves, rfl, rfl, _⟩ := hlocal
      exact ⟨.inr ⟨n, work, rfl, rfl, hmoves⟩, .inl rfl, [], (List.append_nil _).symm⟩
    · cases hn
  | lock n =>
    simp only [next] at hn
    split at hn <;> cases hn
    exact quiet n _ (some n) rfl
  | abandon n =>
    simp only [next] at hn
    split at hn <;> cases hn
    · exact quiet n _ w.holder rfl
    · exact quiet n _ none rfl
  | leave n =>
    simp only [next] at hn
    split at hn <;> cases hn
    exact quiet n _ none rfl
  | call n _ | request n _ | load n | check n _ | header n | absorb n _ =>
    simp only [next] at hn
    split at hn <;> cases hn
    exact quiet n _ w.holder rfl

section Runs

variable {x : Crates} {origins : List String} {start : Jar} {w v : World} {es : List Event}

theorem run_invariant (h : Invariant x origins start w)
    (hrun : (machine x origins start).run w es = some v) : Invariant x origins start v :=
  Machine.run_preserves (P := Invariant x origins start)
    (fun _ _ _ hs hn => invariant_step hs hn) h hrun

/-- A run only appends to the writes. -/
theorem run_writes (h : Invariant x origins start w)
    (hrun : (machine x origins start).run w es = some v) :
    ∃ fs, v.writes = w.writes ++ fs := by
  have hboth : Invariant x origins start v ∧ ∃ fs, v.writes = w.writes ++ fs := by
    apply Machine.run_preserves
      (P := fun v => Invariant x origins start v ∧ ∃ fs, v.writes = w.writes ++ fs) _ _ hrun
    · rintro s e t ⟨hs, fs, hfs⟩ hn
      obtain ⟨gs, hgs⟩ := (step_spec hs hn).writes
      exact ⟨invariant_step hs hn, fs ++ gs, by rw [hgs, hfs, List.append_assoc]⟩
    · exact ⟨h, [], (List.append_nil _).symm⟩
  exact hboth.2

theorem settled_count (h : Invariant x origins start w) (hs : Settled w) :
    w.revision = w.writes.length := by
  have hpending : w.pending = 0 := by
    unfold World.pending
    split
    · next n _ => simp [hs n]
    · rfl
  rw [h.count, hpending, Nat.add_zero]

theorem settled_jar (hw : Invariant x origins start w)
    (hrun : (machine x origins start).run w es = some v) (hsw : Settled w) (hsv : Settled v)
    (hrev : w.revision = v.revision) : w.jar = v.jar := by
  have hv := run_invariant hw hrun
  obtain ⟨fs, hfs⟩ := run_writes hw hrun
  have hlength : v.writes.length = w.writes.length := by
    rw [← settled_count hv hsv, ← hrev, settled_count hw hsw]
  have hnil : fs = [] := by
    rw [hfs, List.length_append] at hlength
    exact List.eq_nil_of_length_eq_zero (by omega)
  rw [hnil, List.append_nil] at hfs
  have hchain := hv.chain
  rw [hfs] at hchain
  exact chain_unique hw.chain hchain

end Runs

/-- The writes of a state are one sequential history, counted by the revision, and every
finished call is answered accordingly. -/
structure Linearised (x : Crates) (origins : List String) (start : Jar) (w : World) : Prop where
  chain : Chain start w.writes w.jar
  applied : ∀ e ∈ w.writes, Applied x origins e
  distinct : (w.writes.map Write.task).Nodup
  counted : Settled w → w.revision = w.writes.length
  answered : ∀ n work r result, w.pc n = .done work r result → ResultOk w n work r result

/-- For every interleaving on a live context, and every two states `w` and `v` of its run. -/
theorem mutations_linearised (x : Crates) (origins : List String) (start : Jar)
    (es fs : List Event) (w v : World)
    (hw : (machine x origins start).run (.initial start) es = some w)
    (hv : (machine x origins start).run w fs = some v) :
    (World.initial start).revision = 0 ∧
      (∀ e u, next x origins w e = some u → StepSpec w e u) ∧
      Linearised x origins start w ∧
      (Settled w → Settled v → w.revision = v.revision → w.jar = v.jar) := by
  have hinv := run_invariant Invariant.initial hw
  refine ⟨rfl, fun e u hu => step_spec hinv hu, ⟨hinv.chain, hinv.applied, hinv.distinct,
    settled_count hinv, ?_⟩, settled_jar hinv hv⟩
  intro n work r result hpc
  have hlocal := hinv.locals n
  rw [hpc] at hlocal
  exact hlocal

def competingSets : List Event :=
  [.call 0 (.set "https://example.com" ["sid=1"] 0), .call 1 (.set "https://example.com" [] 0),
    .lock 0, .load 0, .check 0 0, .update 0 0, .store 0, .leave 0,
    .lock 1, .load 1, .check 1 0, .leave 1]

theorem mutations_linearised_competing :
    ∃ w, (machine sampleCrates ["https://example.com"] emptyJar).run (.initial emptyJar)
        competingSets = some w ∧ w.revision = 1 ∧
      Linearised sampleCrates ["https://example.com"] emptyJar w := by
  refine ⟨_, rfl, rfl, ?_⟩
  exact (mutations_linearised sampleCrates ["https://example.com"] emptyJar competingSets [] _ _
    rfl rfl).2.2.1

/-- A set with the current revision fails for another reason than a conflict when its cookie
is invalid, and between the update of the jar and the store of the revision one revision
goes with two jars. -/
theorem failed_set_without_conflict :
    (¬ ∀ es w n url cookies k r e,
        (machine sampleCrates ["https://example.com"] emptyJar).run (.initial emptyJar) es =
          some w →
        w.pc n = .done (.command (.set url cookies k)) r (.error e) →
        e.code = .contextConflict) ∧
      ¬ ∀ es fs w v,
        (machine sampleCrates ["https://example.com"] emptyJar).run (.initial emptyJar) es =
          some w →
        (machine sampleCrates ["https://example.com"] emptyJar).run w fs = some v →
        w.revision = v.revision → w.jar = v.jar := by
  constructor
  · intro h
    have hcode := h [.call 0 (.set "https://example.com" ["sid"] 0), .lock 0, .load 0, .check 0 0,
      .update 0 0, .leave 0] _ 0 "https://example.com" ["sid"] 0 0
      (invalid "Ein Cookie-Header ist ungültig.") rfl rfl
    cases hcode
  · intro h
    have hjar := h [.call 0 (.set "https://example.com" ["sid=1"] 0), .lock 0, .load 0, .check 0 0]
      [.update 0 0] _ _ rfl rfl rfl
    revert hjar
    decide

end CookieRevision
