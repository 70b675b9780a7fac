import Ja3Proxy.CookieRevision
import Ja3Proxy.SessionRebind

/-! A managed session of the SDK (`sessions.ts`) together with its contexts at the service
(`contexts.rs`). What a call posts arrives later or never, the service works on everything that has
arrived in any order, and a call may give up on its reply at any time. Contexts stay alive. -/
namespace SessionRevisions

open AsciiText (HeaderValue)
open CookieModel CookieRevision ExceptRules ManagedJar SdkErrors SdkExchange TransitionRuns
  TransportErrors
open SessionRebind (Failure Rebind Request Session Untouched Value)

variable {ι : Type}

inductive Message where
  | command (c : Command)
  | request (url : String)
  deriving DecidableEq

def Message.event (t : ℕ) : Message → CookieRevision.Event
  | .command c => .call t c
  | .request url => .request t url

def Message.expected : Message → Option ℕ
  | .command c => (Work.command c).expected
  | .request _ => none

def posts (revision : ℕ) : Request ι → Message → Bool
  | .stream, .request _ => true
  | .command false, .command (.select _) => true
  | .command false, .command .exportSnapshot => true
  | .command true, .command (.set _ _ expected) => expected == revision
  | .command true, .command (.importSnapshot _ expected) => expected == revision
  | .rebind _ _, .command .exportSnapshot => true
  | _, _ => false

/-- The fields that a cookie reply must have, and those that it must not have. -/
def shaped : Command → CookieReply → Bool
  | .select _, reply => reply.cookies.isSome && reply.snapshot.isNone
  | .exportSnapshot, reply => reply.snapshot.isSome && reply.cookies.isNone
  | _, reply => reply.cookies.isNone && reply.snapshot.isNone

def awaited : SessionRebind.Task ι → Option String
  | .streaming current => some current.contextId
  | .commanding id _ => some id
  | .exporting r => some r.id
  | .importing _ staged => some staged.contextId
  | _ => none

def posted : SessionRebind.Task ι → Option ℕ
  | .commanding _ expected => expected
  | .importing _ staged => some staged.revision
  | _ => none

/-- `sent` are the messages on their way, and `abandoned` the calls that have failed while they
waited for a reply about cookies. -/
structure State (ι : Type) where
  session : Session ι
  contexts : String → World
  sent : ℕ × String → Option Message
  abandoned : List ℕ

/-- `alone` are the steps of the session that neither post nor read a message. -/
inductive Event (ι : Type) where
  | alone (e : SessionRebind.Event ι)
  | grant (t : ℕ) (message : Message)
  | arrive (t : ℕ) (id : String)
  | serve (id : String) (e : CookieRevision.Event)
  | response (t : ℕ) (metadata : ResponseMetadata)
  | reply (t : ℕ) (aborted : Bool)
  | created (t : ℕ) (id : String)
  | removed (t : ℕ)
  | fail (t : ℕ) (failure : Failure)

def State.initial (start : Jar) (contextId : String) (connection : ι) : State ι :=
  ⟨.initial ⟨contextId, 0⟩ connection, fun _ => .initial start, fun _ => none, []⟩

namespace State

variable (w : State ι)

def Awaits (t : ℕ) (id : String) : Prop := awaited (w.session.tasks t) = some id

def served (t : ℕ) : Pc :=
  match awaited (w.session.tasks t) with
  | some id => (w.contexts id).pc t
  | none => .idle

def onSession (s : Option (Session ι)) : Option (State ι) := s.map fun s => { w with session := s }

def grant (t : ℕ) (message : Message) : Option (State ι) :=
  match w.session.tasks t with
  | .queued request =>
    if posts w.session.info.revision request message then
      (SessionRebind.next w.session (.grant t)).map fun s =>
        { w with
          session := s
          sent := if s.holder = some t then
              Function.update w.sent (t, w.session.info.contextId) (some message)
            else w.sent }
    else none
  | _ => none

def onContext (x : Crates) (origins : List String) (id : String) (e : CookieRevision.Event) :
    Option (State ι) :=
  (CookieRevision.next x origins (w.contexts id) e).map fun c =>
    { w with contexts := Function.update w.contexts id c }

def arrive (x : Crates) (origins : List String) (t : ℕ) (id : String) : Option (State ι) :=
  (w.sent (t, id)).bind fun message =>
    { w with sent := Function.update w.sent (t, id) none }.onContext x origins id (message.event t)

/-- The metadata of a response, written after its cookies have been absorbed. -/
def response (t : ℕ) (metadata : ResponseMetadata) : Option (State ι) :=
  match w.served t with
  | .done (.absorb _ _) _ (.ok reply) =>
    if metadata.cookieRevision = some reply.revision ∧
        metadata.diagnostics.contextId = awaited (w.session.tasks t) then
      w.onSession (w.session.answer t (.exchange metadata) false)
    else none
  | _ => none

def reply (t : ℕ) (aborted : Bool) : Option (State ι) :=
  match w.served t with
  | .done (.command c) _ (.ok reply) =>
    w.onSession (w.session.answer t (.cookies reply.revision (shaped c reply)) aborted)
  | _ => none

def exported (t : ℕ) : Option CookieSnapshot :=
  match w.session.tasks t with
  | .creating r =>
    match (w.contexts r.id).pc t with
    | .done (.command .exportSnapshot) _ (.ok reply) => reply.snapshot
    | _ => none
  | _ => none

def created (t : ℕ) (id : String) : Option (State ι) :=
  (w.exported t).bind fun snapshot =>
    let command := Message.command (.importSnapshot snapshot 0)
    { w with sent := Function.update w.sent (t, id) (some command) }.onSession
      (w.session.answer t (.created id 0) false)

/-- Only the service answers that a revision conflicts. Exchanges have other conflicts. -/
def failing (t : ℕ) (failure : Failure) : Bool :=
  match w.session.tasks t, failure with
  | .streaming _, _ => true
  | _, .answered .contextConflict =>
    match w.served t with
    | .done (.command _) _ (.error e) => e.code == .contextConflict
    | _ => false
  | _, _ => true

def fail (t : ℕ) (failure : Failure) : Option (State ι) :=
  if w.failing t failure then
    { w with
      abandoned := if (awaited (w.session.tasks t)).isSome then t :: w.abandoned
        else w.abandoned }.onSession (w.session.fail t failure)
  else none

end State

def isLocal : SessionRebind.Event ι → Bool
  | .grant _ | .answer _ _ _ | .fail _ _ => false
  | _ => true

def isInternal : CookieRevision.Event → Bool
  | .call _ _ | .request _ _ => false
  | _ => true

def next (x : Crates) (origins : List String) (w : State ι) : Event ι → Option (State ι)
  | .alone e => if isLocal e then w.onSession (SessionRebind.next w.session e) else none
  | .grant t message => w.grant t message
  | .arrive t id => w.arrive x origins t id
  | .serve id e => if isInternal e then w.onContext x origins id e else none
  | .response t metadata => w.response t metadata
  | .reply t aborted => w.reply t aborted
  | .created t id => w.created t id
  | .removed t => w.onSession (w.session.answer t .removed false)
  | .fail t failure => w.fail t failure

def machine (x : Crates) (origins : List String) (start : Jar) (contextId : String)
    (connection : ι) : Machine (State ι) (Event ι) :=
  ⟨.initial start contextId connection, next x origins⟩

def running : Pc → Bool
  | .idle | .done _ _ _ | .gone => false
  | _ => true

def Expects (expected : Option ℕ) : Pc → Prop
  | .idle | .gone => True
  | .waiting (.command c) | .locked (.command c) | .loaded c _ =>
    (Work.command c).expected = expected
  | .waiting (.access _) | .locked (.access _) | .exchanging _ _ => expected = none
  | .updating work _ _ _ _ | .storing work _ _ | .leaving work _ _ | .done work _ _ =>
    work.expected = expected

def made : Pc → Option (Work × CookieReply)
  | .leaving work _ (.ok reply) | .done work _ (.ok reply) => some (work, reply)
  | _ => none

def read : Pc → Option ℕ
  | .leaving _ revision _ | .done _ revision _ => some revision
  | _ => none

def wellShaped : Work → CookieReply → Bool
  | .command c, reply => shaped c reply
  | .absorb _ _, _ => true

structure Served (n : ℕ) (c d : World) : Prop where
  others : ∀ m, m ≠ n → d.pc m = c.pc m
  running : running (c.pc n) = true
  expects : ∀ expected, Expects expected (c.pc n) → Expects expected (d.pc n)
  revision : c.revision ≤ d.revision
  writes : d.writes = c.writes ∨ ∃ e, e.task = n ∧ d.writes = c.writes ++ [e]
  made : ∀ work reply, made (d.pc n) = some (work, reply) → made (c.pc n) = some (work, reply) ∨
    c.revision ≤ reply.revision ∧ reply.revision ≤ d.revision ∧ wellShaped work reply = true
  read : ∀ r, read (d.pc n) = some r → read (c.pc n) = some r ∨ c.revision ≤ r ∧ r ≤ d.revision

variable {x : Crates} {origins : List String} {start : Jar} {c d : World} {n : ℕ}

theorem expects_afterCheck (now : ℤ) (j : Jar) (cmd : Command) (revision : ℕ) :
    Expects (Work.command cmd).expected (afterCheck x origins now j cmd revision) := by
  unfold afterCheck
  split <;> rfl

/-- Only a command that reads is answered at once. -/
theorem plan_shape {revision : ℕ} {cmd : Command} {p : Plan}
    (h : plan x origins revision cmd = .ok p) :
    match p with
    | .select _ => ∃ url, cmd = .select url
    | .exportSnapshot => cmd = .exportSnapshot
    | .mutate _ _ => True := by
  cases cmd with
  | select url =>
    obtain ⟨u, -, hout⟩ := bind_ok.mp h
    cases hout
    exact ⟨url, rfl⟩
  | exportSnapshot =>
    cases h
    rfl
  | set url cookies k =>
    simp only [plan, bind_ok] at h
    obtain ⟨_, _, _, _, _, _, hout⟩ := h
    cases hout
    trivial
  | importSnapshot snapshot k =>
    simp only [plan, bind_ok] at h
    obtain ⟨_, _, _, _, hout⟩ := h
    cases hout
    trivial

theorem made_afterCheck {now : ℤ} {j : Jar} {cmd : Command} {revision : ℕ} {work : Work}
    {reply : CookieReply}
    (h : made (afterCheck x origins now j cmd revision) = some (work, reply)) :
    reply.revision = revision ∧ wellShaped work reply = true := by
  unfold afterCheck at h
  split at h
  · cases h
  · next u hplan =>
    cases h
    obtain ⟨url, rfl⟩ := plan_shape hplan
    exact ⟨rfl, rfl⟩
  · next hplan =>
    cases h
    have hcmd : cmd = .exportSnapshot := plan_shape hplan
    subst hcmd
    exact ⟨rfl, rfl⟩
  · cases h

theorem read_afterCheck {now : ℤ} {j : Jar} {cmd : Command} {revision r : ℕ}
    (h : read (afterCheck x origins now j cmd revision) = some r) : revision = r := by
  unfold afterCheck at h
  split at h
  · exact Option.some.inj h
  · exact Option.some.inj h
  · exact Option.some.inj h
  · cases h

theorem expects_afterAbsorb (revision : ℕ) (u : Url) (j : Jar) (headers : List HeaderValue) :
    Expects none (afterAbsorb revision u j headers) := by
  unfold afterAbsorb
  split
  · rfl
  · split <;> rfl

theorem made_afterAbsorb {revision : ℕ} {u : Url} {j : Jar} {headers : List HeaderValue}
    {work : Work} {reply : CookieReply}
    (h : made (afterAbsorb revision u j headers) = some (work, reply)) :
    reply.revision = revision ∧ wellShaped work reply = true := by
  unfold afterAbsorb at h
  split at h
  · cases h
    exact ⟨rfl, rfl⟩
  · split at h <;> cases h

theorem read_afterAbsorb {revision r : ℕ} {u : Url} {j : Jar} {headers : List HeaderValue}
    (h : read (afterAbsorb revision u j headers) = some r) : revision = r := by
  unfold afterAbsorb at h
  split at h
  · exact Option.some.inj h
  · split at h
    · exact Option.some.inj h
    · cases h

/-- A step that leaves the revision and the writes alone. -/
theorem served_goto {pc : Pc} {holder : Option ℕ} (hrunning : running (c.pc n) = true)
    (hexpects : ∀ expected, Expects expected (c.pc n) → Expects expected pc)
    (hmade : ∀ work reply, made pc = some (work, reply) → made (c.pc n) = some (work, reply) ∨
      c.revision = reply.revision ∧ wellShaped work reply = true)
    (hread : ∀ r, read pc = some r → read (c.pc n) = some r ∨ c.revision = r) :
    Served n c ({ c with holder := holder }.goto n pc) where
  others m hm := by simp [World.goto, hm]
  running := hrunning
  expects expected h := by
    simpa [World.goto] using hexpects expected h
  revision := Nat.le_refl _
  writes := .inl rfl
  made work reply h := by
    have hpc : made pc = some (work, reply) := by simpa [World.goto] using h
    rcases hmade work reply hpc with hold | ⟨hrevision, hshape⟩
    · exact .inl hold
    · exact .inr ⟨hrevision.le, hrevision.ge, hshape⟩
  read r h := by
    have hpc : SessionRevisions.read pc = some r := by simpa [World.goto] using h
    rcases hread r hpc with hold | hrevision
    · exact .inl hold
    · exact .inr ⟨hrevision.le, hrevision.ge⟩

/-- The jar has been updated. -/
theorem served_updating {work : Work} {m : Mutation} {chosen : Option Jar} {r following : ℕ}
    (hpc : c.pc n = .updating work m chosen r following) (e : Write) (he : e.task = n) :
    Served n c ({ c with jar := e.after, writes := c.writes ++ [e] }.goto n
      (.storing work r following)) where
  others m hm := by simp [World.goto, hm]
  running := by rw [hpc]; rfl
  expects expected h := by
    rw [hpc] at h
    simpa [World.goto, Expects] using h
  revision := Nat.le_refl _
  writes := .inr ⟨e, he, rfl⟩
  made work reply h := by simp [World.goto, SessionRevisions.made] at h
  read r h := by simp [World.goto, SessionRevisions.read] at h

/-- The revision has been stored. -/
theorem served_storing {work : Work} (hpc : c.pc n = .storing work c.revision (c.revision + 1))
    (hmutates : work.mutates = true) :
    Served n c ({ c with revision := c.revision + 1 }.goto n
      (.leaving work c.revision (.ok ⟨c.revision + 1, none, none⟩))) where
  others m hm := by simp [World.goto, hm]
  running := by rw [hpc]; rfl
  expects expected h := by
    rw [hpc] at h
    simpa [World.goto, Expects] using h
  revision := Nat.le_succ _
  writes := .inl rfl
  made work' reply h := by
    have hreply : work = work' ∧ ⟨c.revision + 1, none, none⟩ = reply := by
      simpa [World.goto, SessionRevisions.made] using h
    obtain ⟨rfl, rfl⟩ := hreply
    refine .inr ⟨Nat.le_succ _, Nat.le_refl _, ?_⟩
    cases work with
    | absorb u headers => rfl
    | command cmd =>
      cases cmd with
      | select url => cases hmutates
      | exportSnapshot => cases hmutates
      | _ => rfl
  read r h := by
    obtain rfl : c.revision = r := by simpa [World.goto, SessionRevisions.read] using h
    exact .inr ⟨Nat.le_refl _, Nat.le_succ _⟩

/-- Every internal step of a context serves one call. -/
theorem served_step (h : Invariant x origins start c) {e : CookieRevision.Event}
    (he : isInternal e = true) (hn : CookieRevision.next x origins c e = some d) :
    ∃ n, Served n c d := by
  cases e with
  | call n _ => cases he
  | request n _ => cases he
  | lock n =>
    simp only [CookieRevision.next] at hn
    split at hn
    · next job hpc hfree =>
      cases hn
      refine ⟨n, served_goto (by rw [hpc]; rfl) ?_ (fun _ _ hmade => by cases hmade)
        (fun _ hread => by cases hread)⟩
      rw [hpc]
      cases job <;> exact fun _ hexpects => hexpects
    · cases hn
  | abandon n =>
    simp only [CookieRevision.next] at hn
    split at hn
    · next job hpc =>
      cases hn
      exact ⟨n, served_goto (by rw [hpc]; rfl) (fun _ _ => trivial)
        (fun _ _ hmade => by cases hmade) (fun _ hread => by cases hread)⟩
    · next u chosen hpc =>
      cases hn
      exact ⟨n, served_goto (by rw [hpc]; rfl) (fun _ _ => trivial)
        (fun _ _ hmade => by cases hmade) (fun _ hread => by cases hread)⟩
    · cases hn
  | load n =>
    simp only [CookieRevision.next] at hn
    split at hn
    · next cmd hpc =>
      cases hn
      refine ⟨n, served_goto (by rw [hpc]; rfl) ?_ (fun _ _ hmade => by cases hmade)
        (fun _ hread => by cases hread)⟩
      rw [hpc]
      exact fun _ hexpects => hexpects
    · cases hn
  | check n now =>
    have hlocal := h.locals n
    simp only [CookieRevision.next] at hn
    split at hn
    · next cmd revision hpc =>
      cases hn
      rw [hpc] at hlocal
      obtain ⟨-, rfl⟩ := hlocal
      refine ⟨n, served_goto (by rw [hpc]; rfl) ?_ ?_ (fun _ hread => .inr (read_afterCheck hread))⟩
      · rw [hpc]
        rintro expected rfl
        exact expects_afterCheck now c.jar cmd c.revision
      · intro work reply hmade
        obtain ⟨hrevision, hshape⟩ := made_afterCheck hmade
        exact .inr ⟨hrevision.symm, hshape⟩
    · cases hn
  | header n =>
    simp only [CookieRevision.next] at hn
    split at hn
    · next u hpc =>
      cases hn
      refine ⟨n, served_goto (by rw [hpc]; rfl) ?_ (fun _ _ hmade => by cases hmade)
        (fun _ hread => by cases hread)⟩
      rw [hpc]
      exact fun _ hexpects => hexpects
    · cases hn
  | absorb n headers =>
    simp only [CookieRevision.next] at hn
    split at hn
    · next u chosen hpc =>
      cases hn
      refine ⟨n, served_goto (by rw [hpc]; rfl) ?_ ?_
        (fun _ hread => .inr (read_afterAbsorb hread))⟩
      · rw [hpc]
        rintro expected rfl
        exact expects_afterAbsorb c.revision u chosen headers
      · intro work reply hmade
        obtain ⟨hrevision, hshape⟩ := made_afterAbsorb hmade
        exact .inr ⟨hrevision.symm, hshape⟩
    · cases hn
  | update n now =>
    have hlocal := h.locals n
    simp only [CookieRevision.next] at hn
    split at hn
    · next work m chosen revision following hpc =>
      rw [hpc] at hlocal
      obtain ⟨-, rfl, -⟩ := hlocal
      split at hn
      · cases hn
        refine ⟨n, served_goto (by rw [hpc]; rfl) ?_ (fun _ _ hmade => by cases hmade)
          (fun _ hread => .inr (Option.some.inj hread))⟩
        rw [hpc]
        exact fun _ hexpects => hexpects
      · next jar hjar =>
        cases hn
        exact ⟨n, served_updating hpc ⟨n, work, m, chosen, now, c.jar, jar⟩ rfl⟩
    · cases hn
  | store n =>
    have hlocal := h.locals n
    simp only [CookieRevision.next] at hn
    split at hn
    · next work revision following hpc =>
      cases hn
      rw [hpc] at hlocal
      obtain ⟨-, rfl, rfl, hmutates, -⟩ := hlocal
      exact ⟨n, served_storing hpc hmutates⟩
    · cases hn
  | leave n =>
    simp only [CookieRevision.next] at hn
    split at hn
    · next work revision result hpc =>
      cases hn
      refine ⟨n, served_goto (by rw [hpc]; rfl) ?_ ?_ ?_⟩
      · rw [hpc]
        exact fun _ hexpects => hexpects
      · intro work' reply hmade
        rw [hpc]
        cases result with
        | ok reply' => exact .inl hmade
        | error e => cases hmade
      · intro r hread
        rw [hpc]
        exact .inl hread
    · cases hn

variable {s u v : Session ι} {t : ℕ} {task : SessionRebind.Task ι}

def fresh : SessionRebind.Task ι → Bool
  | .idle | .queued _ => true
  | _ => false

def Own (info : Info) (used : List String) : SessionRebind.Task ι → Prop
  | .streaming current => current = info
  | .commanding id expected => id = info.contextId ∧ ∀ k ∈ expected, k = info.revision
  | .exporting r => r.id = info.contextId
  | .importing _ staged => staged.contextId ≠ info.contextId ∧ staged.contextId ∈ used
  | _ => True

structure Seated (s : Session ι) : Prop where
  turn : ∀ t, (s.tasks t).working = true → s.holder = some t
  held : ∀ t, s.holder = some t → (s.tasks t).working = true
  own : ∀ t, Own s.info s.used (s.tasks t)
  used : s.info.contextId ∈ s.used

theorem awaited_of_resting (h : task.working = false) : awaited task = none := by
  cases task <;> first | rfl | cases h

theorem own_of_unawaited {info : Info} {used : List String} (h : awaited task = none) :
    Own info used task := by
  cases task with
  | streaming current => cases h
  | commanding id expected => cases h
  | exporting r => cases h
  | importing r staged => cases h
  | _ => trivial

theorem Seated.others (h : Seated s) (hheld : s.holder = some t) {i : ℕ} (hi : i ≠ t) :
    (s.tasks i).working = false := by
  rw [Bool.eq_false_iff]
  intro hworking
  exact hi (Option.some.inj ((h.turn i hworking).symm.trans hheld))

theorem Seated.awaiting (h : Seated s) {id : String} (ht : awaited (s.tasks t) = some id) :
    s.holder = some t := by
  apply h.turn t
  rw [← Bool.not_eq_false]
  intro hresting
  rw [awaited_of_resting hresting] at ht
  cases ht

/-- Only the call with the permit waits. -/
theorem Seated.only (h : Seated s) (hheld : s.holder = some t) {n : ℕ} {id : String}
    (hn : awaited (s.tasks n) = some id) : n = t :=
  Option.some.inj ((h.awaiting hn).symm.trans hheld)

structure Alike (s u : Session ι) (info : Info) : Prop where
  info : u.info = info
  holder : u.holder = s.holder
  tasks : u.tasks = s.tasks
  used : u.used = s.used

theorem alike_of_untouched (h : Untouched s u) : Alike s u s.info :=
  ⟨h.info, h.holder, h.tasks, h.used⟩

structure Rests (s v : Session ι) : Prop where
  info : v.info = s.info
  used : v.used = s.used
  holder : v.holder = s.holder
  tasks : ∀ i, v.tasks i = s.tasks i ∨ (s.tasks i).working = false ∧
    (v.tasks i).working = false ∧ (fresh (v.tasks i) = true → fresh (s.tasks i) = true)

theorem Rests.awaited (h : Rests s v) (i : ℕ) : awaited (v.tasks i) = awaited (s.tasks i) := by
  rcases h.tasks i with hsame | ⟨hbefore, hafter, -⟩
  · rw [hsame]
  · rw [awaited_of_resting hbefore, awaited_of_resting hafter]

theorem Rests.working (h : Rests s v) (i : ℕ) : (v.tasks i).working = (s.tasks i).working := by
  rcases h.tasks i with hsame | ⟨hbefore, hafter, -⟩
  · rw [hsame]
  · rw [hbefore, hafter]

theorem Rests.seated (h : Rests s v) (hs : Seated s) : Seated v where
  turn i hworking := by
    rw [h.working] at hworking
    exact h.holder.trans (hs.turn i hworking)
  held i hheld := by
    rw [h.working]
    exact hs.held i (h.holder.symm.trans hheld)
  own i := by
    rw [h.info, h.used]
    rcases h.tasks i with hsame | ⟨-, hafter, -⟩
    · rw [hsame]
      exact hs.own i
    · exact own_of_unawaited (awaited_of_resting hafter)
  used := by
    rw [h.info, h.used]
    exact hs.used

theorem rests_set (hbefore : (s.tasks t).working = false) (hafter : task.working = false)
    (hfresh : fresh task = true → fresh (s.tasks t) = true) (hsame : Untouched s u) :
    Rests s (u.set t task) where
  info := hsame.info
  used := hsame.used
  holder := hsame.holder
  tasks i := by
    by_cases hi : i = t
    · subst hi
      rw [SessionRebind.set_self]
      exact .inr ⟨hbefore, hafter, hfresh⟩
    · simp [Session.set, hi, hsame.tasks]

theorem rests_refuse (h : Seated s) (hbefore : (s.tasks t).working = false) (request : Request ι)
    (code : ErrorCode) : Rests s (s.refuse t request code) := by
  have hfree : s.holder ≠ some t := by
    intro hheld
    rw [h.held t hheld] at hbefore
    cases hbefore
  have hfinish : ∀ task : SessionRebind.Task ι, s.finish t task = s.set t task := by
    intro task
    simp [Session.finish, hfree, Session.set]
  unfold Session.refuse
  rw [hfinish]
  cases request with
  | rebind connection valid => exact rests_set hbefore rfl (fun h => by cases h) (.refl s)
  | _ => exact rests_set hbefore rfl (fun h => by cases h) (.refl s)

theorem rests_local (h : Seated s) {e : SessionRebind.Event ι} (he : isLocal e = true)
    (hv : SessionRebind.next s e = some v) : Rests s v := by
  cases e with
  | call t request =>
    simp only [SessionRebind.next] at hv
    split at hv
    · next hidle =>
      cases hv
      have hbefore : (s.tasks t).working = false := by rw [hidle]; rfl
      unfold Session.call
      split
      · exact rests_refuse h hbefore request .cancelled
      · split
        · exact rests_refuse h hbefore request .contextNotFound
        · exact rests_set hbefore rfl (fun _ => by rw [hidle]; rfl) (.refl s)
    · cases hv
  | reject t failure =>
    simp only [SessionRebind.next] at hv
    split at hv
    · cases hv
    · next request hqueued _ =>
      cases hv
      exact rests_refuse h (by rw [hqueued]; rfl) request _
    · cases hv
  | complete t failure =>
    simp only [SessionRebind.next, Session.complete] at hv
    split at hv
    · next current hhanded =>
      cases hv
      exact rests_set (by rw [hhanded]; rfl) rfl (fun h => by cases h) (.refl s)
    · next current failure hhanded =>
      cases hv
      exact rests_set (by rw [hhanded]; rfl) rfl (fun h => by cases h)
        ((SessionRebind.note_untouched s failure _).trans (SessionRebind.markLost_untouched _ _ _))
    · cases hv
  | stopAccepting =>
    cases hv
    exact ⟨rfl, rfl, rfl, fun i => .inl rfl⟩
  | grant t => cases he
  | answer t value aborted => cases he
  | fail t failure => cases he

structure Starts (s v : Session ι) (t : ℕ) (message : Message) : Prop where
  info : v.info = s.info
  used : v.used = s.used
  free : s.holder = none
  holder : v.holder = some t
  others : ∀ i, i ≠ t → v.tasks i = s.tasks i
  working : (v.tasks t).working = true
  awaited : awaited (v.tasks t) = some s.info.contextId
  posted : message.expected = posted (v.tasks t)
  own : Own s.info s.used (v.tasks t)

/-- One call works, and the others rest. -/
theorem seated_alone (hothers : ∀ i, i ≠ t → (v.tasks i).working = false)
    (hholder : v.holder = if (v.tasks t).working then some t else none)
    (hown : Own v.info v.used (v.tasks t)) (hused : v.info.contextId ∈ v.used) : Seated v where
  turn i hworking := by
    by_cases hi : i = t
    · subst hi
      rw [hholder, if_pos hworking]
    · rw [hothers i hi] at hworking
      cases hworking
  held i hheld := by
    rw [hholder] at hheld
    split at hheld
    · next hworking =>
      cases hheld
      exact hworking
    · cases hheld
  own i := by
    by_cases hi : i = t
    · subst hi
      exact hown
    · exact own_of_unawaited (awaited_of_resting (hothers i hi))
  used := hused

theorem Starts.seated {message : Message} (h : Starts s v t message) (hs : Seated s) :
    Seated v := by
  apply seated_alone (t := t)
  · intro i hi
    rw [h.others i hi, Bool.eq_false_iff]
    intro hworking
    have hheld := hs.turn i hworking
    rw [h.free] at hheld
    cases hheld
  · rw [h.holder, if_pos h.working]
  · rw [h.info, h.used]
    exact h.own
  · rw [h.info, h.used]
    exact hs.used

theorem posts_expected {revision : ℕ} {request : Request ι} {message : Message}
    (h : posts revision request message = true) :
    message.expected = match request with
      | .command true => some revision
      | _ => none := by
  unfold posts at h
  split at h
  · rfl
  · rfl
  · rfl
  · exact congrArg some (beq_iff_eq.mp h)
  · exact congrArg some (beq_iff_eq.mp h)
  · rfl
  · cases h

theorem starts_given {message : Message} (hfree : s.holder = none) (hworking : task.working = true)
    (hawaited : awaited task = some s.info.contextId) (hposted : message.expected = posted task)
    (hown : Own s.info s.used task) :
    Starts s { s.set t task with holder := some t } t message := by
  have hself : ({ s.set t task with holder := some t } : Session ι).tasks t = task :=
    SessionRebind.set_self s t task
  refine ⟨rfl, rfl, hfree, rfl, fun i hi => by simp [Session.set, hi], ?_, ?_, ?_, ?_⟩ <;>
    rwa [hself]

theorem rests_or_starts (h : Seated s) {request : Request ι} (hqueued : s.tasks t = .queued request)
    {message : Message} (hposts : posts s.info.revision request message = true)
    (hv : SessionRebind.next s (.grant t) = some v) :
    Rests s v ∧ v.holder ≠ some t ∨ Starts s v t message := by
  have hbefore : (s.tasks t).working = false := by rw [hqueued]; rfl
  have hexpected := posts_expected hposts
  simp only [SessionRebind.next, hqueued] at hv
  split at hv
  · next request' hrequest hfree =>
    cases hrequest
    cases hv
    have hrefuse : ∀ code, Rests s (s.refuse t request code) ∧
        (s.refuse t request code).holder ≠ some t := by
      intro code
      have hrests := rests_refuse h hbefore request code
      refine ⟨hrests, ?_⟩
      rw [hrests.holder, hfree]
      intro hheld
      cases hheld
    unfold Session.grant
    split
    · exact .inl (hrefuse .contextNotFound)
    · cases request with
      | stream => exact .inr (starts_given hfree rfl rfl hexpected rfl)
      | command mutating =>
        refine .inr (starts_given hfree rfl rfl ?_ ⟨rfl, ?_⟩)
        · cases mutating <;> exact hexpected
        · cases mutating
          · exact fun k hk => by cases hk
          · exact fun k hk => (Option.some.inj hk).symm
      | rebind connection valid =>
        cases valid with
        | true => exact .inr (starts_given hfree rfl rfl hexpected rfl)
        | false => exact .inl (hrefuse .invalidRequest)
  · cases hv

structure Leaves (s v : Session ι) (t : ℕ) (info : Info) : Prop where
  held : s.holder = some t
  info : v.info = info
  used : v.used = s.used
  others : ∀ i, i ≠ t → v.tasks i = s.tasks i
  holder : v.holder = if (v.tasks t).working then some t else none
  awaited : awaited (v.tasks t) = none
  fresh : fresh (v.tasks t) = false

theorem Leaves.seated {info : Info} (h : Leaves s v t info) (hs : Seated s)
    (hused : info.contextId ∈ s.used) : Seated v := by
  apply seated_alone (t := t)
  · intro i hi
    rw [h.others i hi]
    exact hs.others h.held hi
  · exact h.holder
  · exact own_of_unawaited h.awaited
  · rw [h.info, h.used]
    exact hused

theorem leaves_finish {info : Info} (hheld : s.holder = some t) (hsame : Alike s u info)
    (hresting : task.working = false) (hfresh : fresh task = false) :
    Leaves s (u.finish t task) t info := by
  have hself := SessionRebind.finish_self u t task
  refine ⟨hheld, hsame.info, hsame.used, ?_, ?_, ?_, ?_⟩
  · intro i hi
    simp [Session.finish, Session.set, hi, hsame.tasks]
  · rw [hself, hresting]
    simp [Session.finish, hsame.holder, hheld]
  · rw [hself]
    exact awaited_of_resting hresting
  · rw [hself]
    exact hfresh

theorem leaves_set {info : Info} (hheld : s.holder = some t) (hsame : Alike s u info)
    (hworking : task.working = true) (hawaited : awaited task = none)
    (hfresh : fresh task = false) :
    Leaves s (u.set t task) t info := by
  have hself := SessionRebind.set_self u t task
  refine ⟨hheld, hsame.info, hsame.used, ?_, ?_, ?_, ?_⟩
  · intro i hi
    simp [Session.set, hi, hsame.tasks]
  · rw [hself, if_pos hworking]
    exact hsame.holder.trans hheld
  · rw [hself]
    exact hawaited
  · rw [hself]
    exact hfresh

theorem leaves_thrown (hheld : s.holder = some t) (hsame : Untouched s u) (r : Rebind ι)
    (code : ErrorCode) : Leaves s (u.throwRebind t r code) t s.info :=
  leaves_finish hheld
    (alike_of_untouched (hsame.trans (SessionRebind.markLost_untouched u code r.id))) rfl rfl

theorem leaves_fail (h : Seated s) {failure : Failure} (hv : s.fail t failure = some v) :
    Leaves s v t s.info := by
  have hheld : (s.tasks t).working = true → s.holder = some t := h.turn t
  unfold Session.fail at hv
  split at hv
  next current htask =>
    cases hv
    exact leaves_finish (hheld (by rw [htask]; rfl)) (alike_of_untouched
      ((SessionRebind.note_untouched s failure _).trans (SessionRebind.markLost_untouched _ _ _)))
      rfl rfl
  next id expected htask =>
    cases hv
    exact leaves_finish (hheld (by rw [htask]; rfl)) (alike_of_untouched
      ((SessionRebind.note_untouched s failure _).trans (SessionRebind.markLost_untouched _ _ _)))
      rfl rfl
  next r htask =>
    cases hv
    exact leaves_thrown (hheld (by rw [htask]; rfl))
      (SessionRebind.note_untouched s failure r.id) r _
  next r htask =>
    cases hv
    exact leaves_thrown (hheld (by rw [htask]; rfl)) (.refl s) r _
  next r staged htask =>
    cases hv
    exact leaves_set (hheld (by rw [htask]; rfl)) (alike_of_untouched
      ((SessionRebind.note_untouched s failure _).trans (SessionRebind.remember_untouched _ _)))
      rfl rfl rfl
  next r staged code htask =>
    cases hv
    exact leaves_thrown (hheld (by rw [htask]; rfl))
      (SessionRebind.removeContext_untouched s _ _) r _
  next r previous staged htask =>
    cases hv
    exact leaves_finish (hheld (by rw [htask]; rfl))
      (alike_of_untouched (SessionRebind.removeContext_untouched s _ _)) rfl rfl
  next => cases hv

theorem leaves_removed (h : Seated s) (hv : s.answer t .removed false = some v) :
    Leaves s v t s.info ∧ awaited (s.tasks t) = none := by
  have hheld : (s.tasks t).working = true → s.holder = some t := h.turn t
  cases htask : s.tasks t with
  | discarding r staged code =>
    simp only [Session.answer, htask] at hv
    cases hv
    exact ⟨leaves_thrown (hheld (by rw [htask]; rfl))
      (SessionRebind.removeContext_untouched s _ _) r _, rfl⟩
  | deleting r previous staged =>
    simp only [Session.answer, htask] at hv
    cases hv
    exact ⟨leaves_finish (hheld (by rw [htask]; rfl))
      (alike_of_untouched (SessionRebind.removeContext_untouched s _ _)) rfl rfl, rfl⟩
  | _ => simp [Session.answer, htask] at hv

theorem applyRevision_newer {info : Info} {revision : ℕ} (h : info.revision ≤ revision) :
    applyRevision info revision info.contextId = .ok ⟨info.contextId, revision⟩ := by
  unfold applyRevision
  rw [if_neg (by simp), if_neg (by omega)]

theorem absorb_accepts {revision : ℕ} {expected : Option ℕ}
    (hexpected : ∀ k ∈ expected, revision = k + 1) (h : s.info.revision ≤ revision) :
    s.absorb revision true expected = .ok ⟨s.info.contextId, revision⟩ := by
  have hall : (expected.all (revision == · + 1)) = true := by
    cases expected with
    | none => rfl
    | some k => simpa using hexpected k rfl
  unfold Session.absorb
  rw [hall, applyRevision_newer h]
  rfl

theorem sessionCheck_accepts {info : Info} {metadata : ResponseMetadata} {revision : ℕ}
    (hrevision : metadata.cookieRevision = some revision)
    (hid : metadata.diagnostics.contextId = some info.contextId) (h : info.revision ≤ revision) :
    sessionCheck info metadata (.session true info.contextId info.revision) =
      .ok ⟨info.contextId, revision⟩ := by
  unfold sessionCheck
  simp only [hid, hrevision, Option.any_some, h, decide_true, not_true, and_false, or_false, ne_eq]
  rw [if_neg (by simp), applyRevision_newer h]

end SessionRevisions
