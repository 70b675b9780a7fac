import Ja3Proxy.JarPolicy
import Ja3Proxy.SessionRevisions

/-! What a managed session knows of its context in every run, although the replies to its calls may
be given up. -/
namespace SessionRevisionRuns

open CookieModel ExceptRules ManagedJar SdkErrors SessionRevisions TransitionRuns TransportErrors
open CookieRevision (Command CookieReply Job Pc ResultOk Work World Write)
open SdkExchange (Info)
open SessionRebind (Failure Rebind Request Session Untouched Value)

variable {ι : Type} {x : Crates} {origins : List String} {start : Jar} {c d : World}

structure Sound (x : Crates) (origins : List String) (start : Jar) (c : World) : Prop where
  invariant : CookieRevision.Invariant x origins start c
  made : ∀ n work reply, made (c.pc n) = some (work, reply) →
    reply.revision ≤ c.revision ∧ wellShaped work reply = true
  read : ∀ n r, read (c.pc n) = some r → r ≤ c.revision

theorem sound_initial : Sound x origins start (.initial start) :=
  ⟨.initial, fun _ _ _ h => (by cases h), fun _ _ h => (by cases h)⟩

theorem Sound.served (h : Sound x origins start c) {n : ℕ} (hserved : Served n c d)
    (hd : CookieRevision.Invariant x origins start d) : Sound x origins start d where
  invariant := hd
  made m work reply hmade := by
    have hold : SessionRevisions.made (c.pc m) = some (work, reply) →
        reply.revision ≤ d.revision ∧ wellShaped work reply = true := by
      intro hbefore
      obtain ⟨hrevision, hshape⟩ := h.made m work reply hbefore
      exact ⟨hrevision.trans hserved.revision, hshape⟩
    by_cases hm : m = n
    · subst hm
      rcases hserved.made work reply hmade with hbefore | ⟨-, hrevision, hshape⟩
      · exact hold hbefore
      · exact ⟨hrevision, hshape⟩
    · rw [hserved.others m hm] at hmade
      exact hold hmade
  read m r hread := by
    by_cases hm : m = n
    · subst hm
      rcases hserved.read r hread with hbefore | ⟨-, hrevision⟩
      · exact (h.read m r hbefore).trans hserved.revision
      · exact hrevision
    · rw [hserved.others m hm] at hread
      exact (h.read m r hread).trans hserved.revision

structure Arrived (t : ℕ) (message : Message) (c d : World) : Prop where
  before : c.pc t = .idle
  others : ∀ m, m ≠ t → d.pc m = c.pc m
  revision : d.revision = c.revision
  writes : d.writes = c.writes
  running : running (d.pc t) = true
  expects : Expects message.expected (d.pc t)
  made : made (d.pc t) = none
  read : read (d.pc t) = none

theorem arrived_goto {t : ℕ} {message : Message} {job : Job} (hbefore : c.pc t = .idle)
    (hjob : Expects message.expected (.waiting job)) :
    Arrived t message c (c.goto t (.waiting job)) where
  before := hbefore
  others m hm := by simp [World.goto, hm]
  revision := rfl
  writes := rfl
  running := by simp [World.goto, running]
  expects := by simpa [World.goto] using hjob
  made := by simp [World.goto, SessionRevisions.made]
  read := by simp [World.goto, SessionRevisions.read]

theorem arrived_event {t : ℕ} {message : Message}
    (hn : CookieRevision.next x origins c (message.event t) = some d) : Arrived t message c d := by
  cases message with
  | command cmd =>
    simp only [Message.event, CookieRevision.next] at hn
    split at hn
    · next hidle =>
      cases hn
      exact arrived_goto hidle rfl
    · cases hn
  | request url =>
    simp only [Message.event, CookieRevision.next] at hn
    split at hn
    · next hidle _ =>
      cases hn
      exact arrived_goto hidle rfl
    · cases hn

theorem Sound.arrived (h : Sound x origins start c) {t : ℕ} {message : Message}
    (harrived : Arrived t message c d) (hd : CookieRevision.Invariant x origins start d) :
    Sound x origins start d where
  invariant := hd
  made m work reply hmade := by
    by_cases hm : m = t
    · subst hm
      rw [harrived.made] at hmade
      cases hmade
    · rw [harrived.others m hm] at hmade
      rw [harrived.revision]
      exact h.made m work reply hmade
  read m r hread := by
    by_cases hm : m = t
    · subst hm
      rw [harrived.read] at hread
      cases hread
    · rw [harrived.others m hm] at hread
      rw [harrived.revision]
      exact h.read m r hread

theorem mutates_of_expected {work : Work} {k : ℕ} (h : work.expected = some k) :
    work.mutates = true := by
  cases work with
  | absorb u headers => cases h
  | command cmd =>
    cases cmd with
    | select url => cases h
    | exportSnapshot => cases h
    | _ => rfl

section Done

variable {t : ℕ} {work : Work} {r : ℕ} {reply : CookieReply}

theorem Sound.result (h : Sound x origins start c) (hpc : c.pc t = .done work r (.ok reply)) :
    ResultOk c t work r (.ok reply) := by
  have hlocal := h.invariant.locals t
  rw [hpc] at hlocal
  exact hlocal

theorem Sound.replied (h : Sound x origins start c) (hpc : c.pc t = .done work r (.ok reply)) :
    reply.revision ≤ c.revision ∧ wellShaped work reply = true :=
  h.made t work reply (by rw [hpc]; rfl)

/-- A command that expects a revision is answered with the next one, and it has made the write
between the two. -/
theorem Sound.acknowledged (h : Sound x origins start c)
    (hpc : c.pc t = .done work r (.ok reply)) {k : ℕ} (hk : work.expected = some k) :
    reply.revision = k + 1 ∧ ∃ e, c.writes[k]? = some e ∧ e.task = t ∧ e.work = work := by
  have hresult := h.result hpc
  simp only [ResultOk, mutates_of_expected hk, if_true] at hresult
  obtain ⟨⟨e, he⟩, hrevision, hexpected⟩ := hresult
  obtain rfl := hexpected k hk
  exact ⟨hrevision, e, he⟩

/-- The revision that a call is told counts what it has written. -/
theorem Sound.told (h : Sound x origins start c) (hpc : c.pc t = .done work r (.ok reply)) {i : ℕ}
    {e : Write} (he : c.writes[i]? = some e) (htask : e.task = t) : i < reply.revision := by
  have hresult := h.result hpc
  simp only [ResultOk] at hresult
  split at hresult
  · obtain ⟨⟨f, hf, hfirst, -⟩, hrevision, -⟩ := hresult
    have hi : (c.writes.map Write.task)[i]? = some t := by
      rw [List.getElem?_map, he, ← htask]
      rfl
    have hr : (c.writes.map Write.task)[r]? = some t := by
      rw [List.getElem?_map, hf, ← hfirst]
      rfl
    have hlt : i < (c.writes.map Write.task).length := (List.getElem?_eq_some_iff.mp hi).1
    have hsame : i = r := (List.getElem?_inj hlt h.invariant.distinct).mp (hi.trans hr.symm)
    omega
  · exact absurd htask (hresult.1 e (List.mem_of_getElem? he))

end Done

structure Followed (w : State ι) (id : String) (known : ℕ) : Prop where
  behind : known ≤ (w.contexts id).revision
  counted : ∀ i e, (w.contexts id).writes[i]? = some e →
    i < known ∨ e.task ∈ w.abandoned ∨ w.Awaits e.task id
  owed : ∀ t, running ((w.contexts id).pc t) = true ∨ (w.sent (t, id)).isSome = true →
    t ∈ w.abandoned ∨ w.Awaits t id
  newer : ∀ t work reply, w.Awaits t id → made ((w.contexts id).pc t) = some (work, reply) →
    known ≤ reply.revision
  read : ∀ t r, w.Awaits t id → read ((w.contexts id).pc t) = some r → known ≤ r
  expects : ∀ t, w.Awaits t id → Expects (posted (w.session.tasks t)) ((w.contexts id).pc t)
  sends : ∀ t message, w.Awaits t id → w.sent (t, id) = some message →
    message.expected = posted (w.session.tasks t)

variable {w v : State ι} {id : String} {known t : ℕ}

/-- Calls may give up, and nothing else changes for the context. -/
theorem Followed.frame (h : Followed w id known) (hcontext : v.contexts id = w.contexts id)
    (hsent : ∀ t, v.sent (t, id) = w.sent (t, id)) (habandoned : ∀ t ∈ w.abandoned, t ∈ v.abandoned)
    (hkept : ∀ t, w.Awaits t id → t ∈ v.abandoned ∨ v.Awaits t id)
    (hsame : ∀ t, v.Awaits t id →
      w.Awaits t id ∧ posted (v.session.tasks t) = posted (w.session.tasks t)) :
    Followed v id known where
  behind := by
    rw [hcontext]
    exact h.behind
  counted i e he := by
    rw [hcontext] at he
    rcases h.counted i e he with hcounted | hgiven | hawaits
    · exact .inl hcounted
    · exact .inr (.inl (habandoned _ hgiven))
    · exact .inr (hkept _ hawaits)
  owed t ht := by
    rw [hcontext, hsent] at ht
    rcases h.owed t ht with hgiven | hawaits
    · exact .inl (habandoned t hgiven)
    · exact hkept t hawaits
  newer t work reply hawaits hmade := by
    rw [hcontext] at hmade
    exact h.newer t work reply (hsame t hawaits).1 hmade
  read t r hawaits hread := by
    rw [hcontext] at hread
    exact h.read t r (hsame t hawaits).1 hread
  expects t hawaits := by
    rw [hcontext, (hsame t hawaits).2]
    exact h.expects t (hsame t hawaits).1
  sends t message hawaits hmessage := by
    rw [hsent] at hmessage
    rw [(hsame t hawaits).2]
    exact h.sends t message (hsame t hawaits).1 hmessage

theorem Followed.served (h : Followed w id known) {n : ℕ} (hserved : Served n (w.contexts id) d) :
    Followed { w with contexts := Function.update w.contexts id d } id known := by
  have hcontext : (Function.update w.contexts id d) id = d := Function.update_self id d w.contexts
  have hn : n ∈ w.abandoned ∨ w.Awaits n id := h.owed n (.inl hserved.running)
  refine ⟨?_, ?_, ?_, ?_, ?_, ?_, h.sends⟩
  · simp only [hcontext]
    exact h.behind.trans hserved.revision
  · intro i e he
    simp only [hcontext] at he
    rcases hserved.writes with hwrites | ⟨f, rfl, hwrites⟩
    · rw [hwrites] at he
      exact h.counted i e he
    · rw [hwrites] at he
      by_cases hi : i < (w.contexts id).writes.length
      · rw [List.getElem?_append_left hi] at he
        exact h.counted i e he
      · rw [List.getElem?_append_right (Nat.le_of_not_lt hi)] at he
        obtain rfl := List.mem_singleton.mp (List.mem_of_getElem? he)
        exact .inr hn
  · intro t ht
    simp only [hcontext] at ht
    by_cases hne : t = n
    · subst hne
      exact hn
    · rw [hserved.others t hne] at ht
      exact h.owed t ht
  · intro t work reply hawaits hmade
    simp only [hcontext] at hmade
    by_cases hne : t = n
    · subst hne
      rcases hserved.made work reply hmade with hbefore | ⟨hrevision, -, -⟩
      · exact h.newer t work reply hawaits hbefore
      · exact h.behind.trans hrevision
    · rw [hserved.others t hne] at hmade
      exact h.newer t work reply hawaits hmade
  · intro t r hawaits hread
    simp only [hcontext] at hread
    by_cases hne : t = n
    · subst hne
      rcases hserved.read r hread with hbefore | ⟨hrevision, -⟩
      · exact h.read t r hawaits hbefore
      · exact h.behind.trans hrevision
    · rw [hserved.others t hne] at hread
      exact h.read t r hawaits hread
  · intro t hawaits
    simp only [hcontext]
    by_cases hne : t = n
    · subst hne
      exact hserved.expects _ (h.expects t hawaits)
    · rw [hserved.others t hne]
      exact h.expects t hawaits

theorem Followed.arrived (h : Followed w id known) {message : Message}
    (hmessage : w.sent (t, id) = some message) (harrived : Arrived t message (w.contexts id) d) :
    Followed { w with
      contexts := Function.update w.contexts id d
      sent := Function.update w.sent (t, id) none } id known := by
  have hcontext : (Function.update w.contexts id d) id = d := Function.update_self id d w.contexts
  have ht : t ∈ w.abandoned ∨ w.Awaits t id := h.owed t (.inr (by rw [hmessage]; rfl))
  refine ⟨?_, ?_, ?_, ?_, ?_, ?_, ?_⟩
  · simp only [hcontext, harrived.revision]
    exact h.behind
  · intro i e he
    simp only [hcontext, harrived.writes] at he
    exact h.counted i e he
  · intro n hn
    by_cases hne : n = t
    · subst hne
      exact ht
    · simp only [hcontext, harrived.others n hne] at hn
      rw [Function.update_of_ne (by simp [hne])] at hn
      exact h.owed n hn
  · intro n work reply hawaits hmade
    simp only [hcontext] at hmade
    by_cases hne : n = t
    · subst hne
      rw [harrived.made] at hmade
      cases hmade
    · rw [harrived.others n hne] at hmade
      exact h.newer n work reply hawaits hmade
  · intro n r hawaits hread
    simp only [hcontext] at hread
    by_cases hne : n = t
    · subst hne
      rw [harrived.read] at hread
      cases hread
    · rw [harrived.others n hne] at hread
      exact h.read n r hawaits hread
  · intro n hawaits
    simp only [hcontext]
    by_cases hne : n = t
    · subst hne
      have hexpected := h.sends n message hawaits hmessage
      show Expects (posted (w.session.tasks n)) (d.pc n)
      rw [← hexpected]
      exact harrived.expects
    · rw [harrived.others n hne]
      exact h.expects n hawaits
  · intro n message' hawaits hmessage'
    by_cases hne : n = t
    · subst hne
      simp at hmessage'
    · have hkey : (n, id) ≠ (t, id) := by simp [hne]
      simp only [Function.update_of_ne hkey] at hmessage'
      exact h.sends n message' hawaits hmessage'

/-- The call reads its reply: the session now knows the revision in it. -/
theorem Followed.answered {s : Session ι} {work : Work} {r : ℕ}
    {reply : CookieReply} (h : Followed w id known) (hseated : Seated w.session)
    (hsound : Sound x origins start (w.contexts id)) (hawaits : w.Awaits t id)
    (hpc : (w.contexts id).pc t = .done work r (.ok reply)) (hsent : w.sent (t, id) = none)
    (hleaves : ∀ i id, awaited (s.tasks i) ≠ some id) :
    Followed { w with session := s } id reply.revision := by
  have hnewer : known ≤ reply.revision := h.newer t work reply hawaits (by rw [hpc]; rfl)
  have honly : ∀ n, w.Awaits n id → n = t := by
    intro n hn
    exact hseated.only (hseated.awaiting hawaits) hn
  refine ⟨(hsound.replied hpc).1, ?_, ?_, ?_, ?_, ?_, ?_⟩
  · intro i e he
    rcases h.counted i e he with hcounted | hgiven | hwaiting
    · exact .inl (hcounted.trans_le hnewer)
    · exact .inr (.inl hgiven)
    · exact .inl (hsound.told hpc he (honly _ hwaiting))
  · intro n hn
    rcases h.owed n hn with hgiven | hwaiting
    · exact .inl hgiven
    · obtain rfl := honly n hwaiting
      simp [hpc, running, hsent] at hn
  · exact fun n _ _ hn => absurd hn (hleaves n id)
  · exact fun n _ hn => absurd hn (hleaves n id)
  · exact fun n hn => absurd hn (hleaves n id)
  · exact fun n _ hn => absurd hn (hleaves n id)

/-- The call has the permit, and it posts its message to the context. -/
theorem Followed.started {s : Session ι} {message : Message}
    (h : Followed w w.session.info.contextId known) (hseated : Seated w.session)
    (hstarts : Starts w.session s t message)
    (hidle : (w.contexts w.session.info.contextId).pc t = .idle) :
    Followed { w with
      session := s
      sent := Function.update w.sent (t, w.session.info.contextId) (some message) }
      w.session.info.contextId known := by
  have hnone : ∀ n id, ¬ w.Awaits n id := by
    intro n id hn
    have hheld := hseated.awaiting hn
    rw [hstarts.free] at hheld
    cases hheld
  have honly : ∀ n id, awaited (s.tasks n) = some id → n = t := by
    intro n id hn
    exact (hstarts.seated hseated).only hstarts.holder hn
  refine ⟨h.behind, ?_, ?_, ?_, ?_, ?_, ?_⟩
  · intro i e he
    rcases h.counted i e he with hcounted | hgiven | hwaiting
    · exact .inl hcounted
    · exact .inr (.inl hgiven)
    · exact absurd hwaiting (hnone _ _)
  · intro n hn
    by_cases hne : n = t
    · subst hne
      exact .inr hstarts.awaited
    · have hkey : (n, w.session.info.contextId) ≠ (t, w.session.info.contextId) := by simp [hne]
      simp only [Function.update_of_ne hkey] at hn
      rcases h.owed n hn with hgiven | hwaiting
      · exact .inl hgiven
      · exact absurd hwaiting (hnone _ _)
  · intro n work reply hawaits hmade
    obtain rfl := honly n _ hawaits
    simp only [hidle] at hmade
    cases hmade
  · intro n r hawaits hread
    obtain rfl := honly n _ hawaits
    simp only [hidle] at hread
    cases hread
  · intro n hawaits
    obtain rfl := honly n _ hawaits
    simp only [hidle]
    trivial
  · intro n message' hawaits hmessage
    obtain rfl := honly n _ hawaits
    simp only [Function.update_self, Option.some.injEq] at hmessage
    subst hmessage
    exact hstarts.posted

/-- A new context, to which only the import of one call has been posted. -/
theorem followed_new {cmd : Command} (hnew : w.contexts id = .initial start)
    (hunsent : ∀ n, w.sent (n, id) = none) {s : Session ι}
    (hawaited : awaited (s.tasks t) = some id) (hseated : Seated s)
    (hexpected : (Work.command cmd).expected = posted (s.tasks t)) :
    Followed { w with
      session := s
      sent := Function.update w.sent (t, id) (some (.command cmd)) } id 0 := by
  have honly : ∀ n, awaited (s.tasks n) = some id → n = t := by
    intro n hn
    exact hseated.only (hseated.awaiting hawaited) hn
  refine ⟨Nat.zero_le _, ?_, ?_, ?_, ?_, ?_, ?_⟩
  · intro i e he
    simp [hnew, World.initial] at he
  · intro n hn
    by_cases hne : n = t
    · subst hne
      exact .inr hawaited
    · have hkey : (n, id) ≠ (t, id) := by simp [hne]
      simp only [Function.update_of_ne hkey, hnew, hunsent n] at hn
      simp [World.initial, running] at hn
  · exact fun _ _ _ _ _ => Nat.zero_le _
  · exact fun _ _ _ _ => Nat.zero_le _
  · intro n hn
    simp only [hnew]
    trivial
  · intro n message hawaits hmessage
    obtain rfl := honly n hawaits
    simp only [Function.update_self, Option.some.injEq] at hmessage
    subst hmessage
    exact hexpected

structure Joint (x : Crates) (origins : List String) (start : Jar) (w : State ι) : Prop where
  sound : ∀ id, Sound x origins start (w.contexts id)
  seated : Seated w.session
  unsent : ∀ t, fresh (w.session.tasks t) = true →
    ∀ id, (w.contexts id).pc t = .idle ∧ w.sent (t, id) = none
  unused : ∀ id, id ∉ w.session.used →
    w.contexts id = .initial start ∧ ∀ t, w.sent (t, id) = none
  flying : ∀ t id, (w.sent (t, id)).isSome = true → (w.contexts id).pc t = .idle
  current : Followed w w.session.info.contextId w.session.info.revision
  staged : ∀ t r staged, w.session.tasks t = .importing r staged →
    Followed w staged.contextId staged.revision

theorem seated_initial (info : Info) (connection : ι) :
    Seated (Session.initial info connection) := by
  refine ⟨?_, ?_, fun _ => trivial, List.mem_singleton_self _⟩
  · intro t hworking
    cases hworking
  · intro t hheld
    cases hheld

theorem joint_initial (contextId : String) (connection : ι) :
    Joint x origins start (.initial start contextId connection) where
  sound _ := sound_initial
  seated := seated_initial ⟨contextId, 0⟩ connection
  unsent _ _ _ := ⟨rfl, rfl⟩
  unused _ _ := ⟨rfl, fun _ => rfl⟩
  flying _ _ h := by cases h
  current := by
    refine ⟨Nat.zero_le _, ?_, ?_, ?_, ?_, ?_, ?_⟩
    · intro i e he
      simp [State.initial, World.initial] at he
    · rintro t (ht | ht) <;> cases ht
    · exact fun _ _ _ h => by cases h
    · exact fun _ _ h => by cases h
    · exact fun _ h => by cases h
    · exact fun _ _ h => by cases h
  staged _ _ _ h := by cases h

theorem rests_posted {s u : Session ι} (h : Rests s u) {i : ℕ} {id : String}
    (hi : awaited (u.tasks i) = some id) : posted (u.tasks i) = posted (s.tasks i) := by
  rcases h.tasks i with hsame | ⟨-, hafter, -⟩
  · rw [hsame]
  · rw [awaited_of_resting hafter] at hi
    cases hi

theorem Joint.rests (h : Joint x origins start w) {s : Session ι} (hrests : Rests w.session s) :
    Joint x origins start { w with session := s } := by
  have hframe : ∀ id known, Followed w id known → Followed { w with session := s } id known := by
    intro id known hfollowed
    refine Followed.frame (v := { w with session := s }) hfollowed rfl (fun _ => rfl)
      (fun _ hgiven => hgiven) ?_ ?_
    · intro t hawaits
      exact .inr ((hrests.awaited t).trans hawaits)
    · intro t hawaits
      exact ⟨(hrests.awaited t).symm.trans hawaits, rests_posted hrests hawaits⟩
  refine ⟨h.sound, hrests.seated h.seated, ?_, ?_, h.flying, ?_, ?_⟩
  · intro t ht
    apply h.unsent t
    rcases hrests.tasks t with hsame | ⟨-, -, hfresh⟩
    · exact hsame ▸ ht
    · exact hfresh ht
  · intro id hid
    exact h.unused id (hrests.used ▸ hid)
  · simp only [hrests.info]
    exact hframe _ _ h.current
  · intro t r staged ht
    apply hframe
    rcases hrests.tasks t with hsame | ⟨-, hafter, -⟩
    · exact h.staged t r staged (hsame ▸ ht)
    · rw [show s.tasks t = .importing r staged from ht] at hafter
      cases hafter

/-- Nobody waits for cookies behind a call that has stopped waiting. -/
theorem leaves_unawaited {s u : Session ι} {info : Info} (h : Leaves s u t info) (hs : Seated s)
    (i : ℕ) (id : String) : awaited (u.tasks i) ≠ some id := by
  intro hi
  by_cases hne : i = t
  · subst hne
    rw [h.awaited] at hi
    cases hi
  · rw [h.others i hne, awaited_of_resting (hs.others h.held hne)] at hi
    cases hi

/-- A call stops waiting: with its reply read, with its reply given up, or without any. -/
theorem Joint.leaves (h : Joint x origins start w) {s : Session ι} {info : Info}
    {abandoned : List ℕ} (hleaves : Leaves w.session s t info)
    (hused : info.contextId ∈ w.session.used)
    (hcurrent : Followed { w with session := s, abandoned := abandoned } info.contextId
      info.revision) :
    Joint x origins start { w with session := s, abandoned := abandoned } := by
  refine ⟨h.sound, hleaves.seated h.seated hused, ?_, ?_, h.flying, ?_, ?_⟩
  · intro i hi
    apply h.unsent i
    by_cases hne : i = t
    · subst hne
      rw [show fresh (s.tasks i) = false from hleaves.fresh] at hi
      cases hi
    · exact hleaves.others i hne ▸ hi
  · intro id hid
    exact h.unused id (hleaves.used ▸ hid)
  · simp only [hleaves.info]
    exact hcurrent
  · intro i r staged hi
    have hi' : s.tasks i = .importing r staged := hi
    exact absurd (by rw [hi']; rfl) (leaves_unawaited hleaves h.seated i staged.contextId)

/-- The context that the session is bound to, when a call has stopped waiting for another one. -/
theorem Joint.kept (h : Joint x origins start w) {s : Session ι} {abandoned : List ℕ}
    (hleaves : Leaves w.session s t w.session.info) (hgrows : ∀ n ∈ w.abandoned, n ∈ abandoned)
    (hgiven : w.Awaits t w.session.info.contextId → t ∈ abandoned) :
    Followed { w with session := s, abandoned := abandoned } w.session.info.contextId
      w.session.info.revision := by
  refine Followed.frame (v := { w with session := s, abandoned := abandoned }) h.current rfl
    (fun _ => rfl) hgrows ?_ ?_
  · intro n hawaits
    obtain rfl := h.seated.only hleaves.held hawaits
    exact .inl (hgiven hawaits)
  · intro n hawaits
    exact absurd hawaits (leaves_unawaited hleaves h.seated n _)

theorem onSession_some {s : Option (Session ι)} (h : w.onSession s = some v) :
    ∃ u, s = some u ∧ v = { w with session := u } := by
  obtain ⟨u, hu, rfl⟩ := Option.map_eq_some_iff.mp h
  exact ⟨u, hu, rfl⟩

theorem Joint.alone (h : Joint x origins start w) {e : SessionRebind.Event ι}
    (he : isLocal e = true) (hv : w.onSession (SessionRebind.next w.session e) = some v) :
    Joint x origins start v := by
  obtain ⟨s, hs, rfl⟩ := onSession_some hv
  exact h.rests (rests_local h.seated he hs)

theorem Joint.grant (h : Joint x origins start w) {message : Message}
    (hv : w.grant t message = some v) : Joint x origins start v := by
  unfold State.grant at hv
  split at hv
  · next request hqueued =>
    split at hv
    · next hposts =>
      obtain ⟨s, hs, rfl⟩ := Option.map_eq_some_iff.mp hv
      have hunsent := h.unsent t (by rw [hqueued]; rfl)
      rcases rests_or_starts h.seated hqueued hposts hs with ⟨hrests, hholder⟩ | hstarts
      · rw [if_neg hholder]
        exact h.rests hrests
      · rw [if_pos hstarts.holder]
        have hseated := hstarts.seated h.seated
        refine ⟨h.sound, hseated, ?_, ?_, ?_, ?_, ?_⟩
        · intro i hi id
          have hne : i ≠ t := by
            rintro rfl
            have hworking := hstarts.working
            rw [show s.tasks i = _ from rfl] at hworking
            revert hi hworking
            cases s.tasks i <;> simp [fresh, SessionRebind.Task.working]
          have hold := h.unsent i (hstarts.others i hne ▸ hi) id
          exact ⟨hold.1, by simp [hne, hold.2]⟩
        · intro id hid
          have hid' : id ∉ w.session.used := hstarts.used ▸ hid
          obtain ⟨hcontext, hsent⟩ := h.unused id hid'
          refine ⟨hcontext, fun i => ?_⟩
          have hne : id ≠ w.session.info.contextId := by
            rintro rfl
            exact hid' h.seated.used
          simp [hne, hsent i]
        · intro i id hi
          by_cases hkey : (i, id) = (t, w.session.info.contextId)
          · cases hkey
            exact (hunsent _).1
          · simp only [Function.update_of_ne hkey] at hi
            exact h.flying i id hi
        · simp only [hstarts.info]
          exact h.current.started h.seated hstarts (hunsent _).1
        · intro i r staged hi
          have hi' : s.tasks i = .importing r staged := hi
          have hi'' : i = t := by
            have hheld := hseated.turn i (by rw [hi']; rfl)
            exact Option.some.inj (hheld.symm.trans hstarts.holder)
          subst hi''
          have hawaited := hstarts.awaited
          have hown := hstarts.own
          rw [hi'] at hawaited hown
          exact absurd (Option.some.inj hawaited) hown.1
    · cases hv
  · cases hv

theorem Joint.onContext (h : Joint x origins start w) {e : CookieRevision.Event}
    (he : isInternal e = true) (hv : w.onContext x origins id e = some v) :
    Joint x origins start v := by
  obtain ⟨c, hc, rfl⟩ := Option.map_eq_some_iff.mp hv
  obtain ⟨n, hserved⟩ := served_step (h.sound id).invariant he hc
  have hsame : ∀ i, i ≠ id → Function.update w.contexts id c i = w.contexts i := fun i hi =>
    Function.update_of_ne hi c w.contexts
  have hfollowed : ∀ i known, Followed w i known →
      Followed { w with contexts := Function.update w.contexts id c } i known := by
    intro i known hi
    by_cases hne : i = id
    · subst hne
      exact hi.served hserved
    · refine Followed.frame (v := { w with contexts := Function.update w.contexts id c }) hi
        (hsame i hne) (fun _ => rfl) (fun _ hgiven => hgiven) (fun _ hawaits => .inr hawaits)
        (fun _ hawaits => ⟨hawaits, rfl⟩)
  have hidle : ∀ i t, (w.contexts i).pc t = .idle →
      (Function.update w.contexts id c i).pc t = .idle := by
    intro i t hpc
    by_cases hne : i = id
    · subst hne
      rw [Function.update_self]
      have htn : t ≠ n := by
        rintro rfl
        have hrunning := hserved.running
        rw [hpc] at hrunning
        cases hrunning
      rw [hserved.others t htn]
      exact hpc
    · rw [hsame i hne]
      exact hpc
  refine ⟨?_, h.seated, ?_, ?_, ?_, hfollowed _ _ h.current, ?_⟩
  · refine (Function.forall_update_iff w.contexts fun _ c => Sound x origins start c).mpr
      ⟨?_, fun i _ => h.sound i⟩
    exact (h.sound id).served hserved (CookieRevision.invariant_step (h.sound id).invariant hc)
  · intro t ht i
    obtain ⟨hpc, hsent⟩ := h.unsent t ht i
    exact ⟨hidle i t hpc, hsent⟩
  · intro i hi
    obtain ⟨hcontext, hsent⟩ := h.unused i hi
    refine ⟨?_, hsent⟩
    have hne : i ≠ id := by
      rintro rfl
      have hrunning := hserved.running
      rw [hcontext] at hrunning
      cases hrunning
    exact (hsame i hne).trans hcontext
  · intro t i hi
    exact hidle i t (h.flying t i hi)
  · intro t r staged ht
    exact hfollowed _ _ (h.staged t r staged ht)

theorem Joint.arrive (h : Joint x origins start w) (hv : w.arrive x origins t id = some v) :
    Joint x origins start v := by
  obtain ⟨message, hmessage, hv⟩ := Option.bind_eq_some_iff.mp hv
  obtain ⟨c, hc, rfl⟩ := Option.map_eq_some_iff.mp hv
  have hc' : CookieRevision.next x origins (w.contexts id) (message.event t) = some c := hc
  have harrived := arrived_event hc'
  have hsame : ∀ i, i ≠ id → Function.update w.contexts id c i = w.contexts i := fun i hi =>
    Function.update_of_ne hi c w.contexts
  have hsent : ∀ n i, (n, i) ≠ (t, id) →
      Function.update w.sent (t, id) none (n, i) = w.sent (n, i) :=
    fun n i hkey => Function.update_of_ne hkey none w.sent
  have hfollowed : ∀ i known, Followed w i known → Followed { w with
      contexts := Function.update w.contexts id c
      sent := Function.update w.sent (t, id) none } i known := by
    intro i known hi
    by_cases hne : i = id
    · subst hne
      exact hi.arrived hmessage harrived
    · refine Followed.frame (v := { w with
        contexts := Function.update w.contexts id c
        sent := Function.update w.sent (t, id) none }) hi (hsame i hne)
        (fun n => hsent n i (by simp [hne])) (fun _ hgiven => hgiven)
        (fun _ hawaits => .inr hawaits) (fun _ hawaits => ⟨hawaits, rfl⟩)
  have hidle : ∀ i n, (n, i) ≠ (t, id) → (w.contexts i).pc n = .idle →
      (Function.update w.contexts id c i).pc n = .idle := by
    intro i n hkey hpc
    by_cases hne : i = id
    · subst hne
      rw [Function.update_self, harrived.others n (fun heq => hkey (by rw [heq]))]
      exact hpc
    · rw [hsame i hne]
      exact hpc
  refine ⟨?_, h.seated, ?_, ?_, ?_, hfollowed _ _ h.current, ?_⟩
  · refine (Function.forall_update_iff w.contexts fun _ c => Sound x origins start c).mpr
      ⟨?_, fun i _ => h.sound i⟩
    exact (h.sound id).arrived harrived (CookieRevision.invariant_step (h.sound id).invariant hc')
  · intro n hn i
    obtain ⟨hpc, hnone⟩ := h.unsent n hn i
    have hkey : (n, i) ≠ (t, id) := by
      rintro heq
      rw [heq, hmessage] at hnone
      cases hnone
    exact ⟨hidle i n hkey hpc, (hsent n i hkey).trans hnone⟩
  · intro i hi
    obtain ⟨hcontext, hnone⟩ := h.unused i hi
    have hne : i ≠ id := by
      rintro rfl
      rw [hnone t] at hmessage
      cases hmessage
    exact ⟨(hsame i hne).trans hcontext, fun n => (hsent n i (by simp [hne])).trans (hnone n)⟩
  · intro n i hn
    by_cases hkey : (n, i) = (t, id)
    · simp [hkey] at hn
    · simp only [hsent n i hkey] at hn
      exact hidle i n hkey (h.flying n i hn)
  · intro n r staged hn
    exact hfollowed _ _ (h.staged n r staged hn)

theorem Joint.removed (h : Joint x origins start w)
    (hv : w.onSession (w.session.answer t .removed false) = some v) : Joint x origins start v := by
  obtain ⟨s, hs, rfl⟩ := onSession_some hv
  obtain ⟨hleaves, hawaited⟩ := leaves_removed h.seated hs
  refine h.leaves hleaves h.seated.used
    (h.kept hleaves (fun _ hn => hn) ?_)
  intro hawaits
  rw [State.Awaits, hawaited] at hawaits
  cases hawaits

theorem Joint.fail (h : Joint x origins start w) {failure : Failure}
    (hv : w.fail t failure = some v) : Joint x origins start v := by
  unfold State.fail at hv
  split at hv
  · obtain ⟨s, hs, rfl⟩ := onSession_some hv
    have hleaves := leaves_fail h.seated hs
    refine h.leaves hleaves h.seated.used (h.kept hleaves ?_ ?_)
    · intro n hn
      split
      · exact List.mem_cons_of_mem _ hn
      · exact hn
    · intro hawaits
      rw [State.Awaits] at hawaits
      simp [hawaits]
  · cases hv

def Accepted (w v : State ι) (t revision : ℕ) (aborted : Bool) : Prop :=
  match w.session.tasks t with
  | .streaming current =>
    v.session.info = ⟨current.contextId, revision⟩ ∧ v.session.tasks t = .handed current
  | .commanding id expected =>
    w.session.absorb revision true expected = .ok ⟨id, revision⟩ ∧
      v.session.info = ⟨id, revision⟩ ∧ v.session.tasks t = .ended
  | .exporting r => v.session.info = ⟨r.id, revision⟩ ∧ v.session.tasks t = .creating r
  | .importing r staged =>
    if aborted then
      v.session.info = w.session.info ∧ v.session.tasks t = .discarding r staged .cancelled
    else v.session.info = ⟨staged.contextId, revision⟩ ∧
      v.session.tasks t = .deleting r w.session.info.contextId ⟨staged.contextId, revision⟩
  | _ => False

structure Replied (w v : State ι) (t : ℕ) (aborted : Bool) (id : String) (revision : ℕ) : Prop where
  awaits : w.Awaits t id
  newer : w.session.info.contextId = id → w.session.info.revision ≤ revision
  written : ∀ k ∈ posted (w.session.tasks t), revision = k + 1 ∧
    ∃ e, (w.contexts id).writes[k]? = some e ∧ e.task = t
  accepted : Accepted w v t revision aborted

theorem served_done {work : Work} {r : ℕ} {reply : CookieReply}
    (h : w.served t = .done work r (.ok reply)) :
    ∃ id, w.Awaits t id ∧ (w.contexts id).pc t = .done work r (.ok reply) := by
  unfold State.served at h
  split at h
  · next id hid => exact ⟨id, hid, h⟩
  · cases h

/-- The reply to the call that waits for a context which the session follows. -/
theorem Joint.reading (h : Joint x origins start w) (hawaits : w.Awaits t id) {work : Work} {r : ℕ}
    {reply : CookieReply} (hpc : (w.contexts id).pc t = .done work r (.ok reply))
    (hfollowed : Followed w id known) :
    known ≤ reply.revision ∧ w.sent (t, id) = none ∧
      ∀ k ∈ posted (w.session.tasks t), reply.revision = k + 1 ∧
        ∃ e, (w.contexts id).writes[k]? = some e ∧ e.task = t := by
  refine ⟨hfollowed.newer t work reply hawaits (by rw [hpc]; rfl), ?_, ?_⟩
  · rw [Option.eq_none_iff_forall_ne_some]
    intro message hmessage
    have hidle := h.flying t id (by rw [hmessage]; rfl)
    rw [hpc] at hidle
    cases hidle
  · intro k hk
    have hexpects := hfollowed.expects t hawaits
    rw [hpc] at hexpects
    have hwork : work.expected = some k := by
      rw [show work.expected = posted (w.session.tasks t) from hexpects]
      exact hk
    obtain ⟨hrevision, e, he, htask, -⟩ := (h.sound id).acknowledged hpc hwork
    exact ⟨hrevision, e, he, htask⟩

/-- The session follows the revision of the reply from now on. -/
theorem Joint.answered (h : Joint x origins start w) {s : Session ι} {work : Work} {r : ℕ}
    {reply : CookieReply} (hawaits : w.Awaits t id)
    (hpc : (w.contexts id).pc t = .done work r (.ok reply)) (hfollowed : Followed w id known)
    (hused : id ∈ w.session.used) (hleaves : Leaves w.session s t ⟨id, reply.revision⟩) :
    Joint x origins start { w with session := s } :=
  h.leaves hleaves hused
    (hfollowed.answered h.seated (h.sound id) hawaits hpc
      (h.reading hawaits hpc hfollowed).2.1 (leaves_unawaited hleaves h.seated))

theorem Joint.response (h : Joint x origins start w) {metadata : ResponseMetadata}
    (hv : w.response t metadata = some v) :
    Joint x origins start v ∧ ∃ id revision, metadata.cookieRevision = some revision ∧
      Replied w v t false id revision := by
  unfold State.response at hv
  split at hv
  · next u headers r reply hserved =>
    split at hv
    · next hmetadata =>
      obtain ⟨id, hawaits, hpc⟩ := served_done hserved
      obtain ⟨s, hs, rfl⟩ := onSession_some hv
      have hheld := h.seated.awaiting hawaits
      cases htask : w.session.tasks t with
      | streaming current =>
        have hown := h.seated.own t
        rw [htask] at hown
        obtain rfl : current = w.session.info := hown
        have hid : w.session.info.contextId = id := by
          rw [State.Awaits, htask] at hawaits
          exact Option.some.inj hawaits
        subst hid
        obtain ⟨hnewer, -, hwritten⟩ := h.reading hawaits hpc h.current
        have hcontext : metadata.diagnostics.contextId = some w.session.info.contextId := by
          rw [hmetadata.2]
          exact hawaits
        simp only [Session.answer, htask, sessionCheck_accepts hmetadata.1 hcontext hnewer] at hs
        cases hs
        have hleaves : Leaves w.session
            ({ w.session with info := ⟨w.session.info.contextId, reply.revision⟩ }.finish t
              (.handed w.session.info)) t ⟨w.session.info.contextId, reply.revision⟩ :=
          leaves_finish hheld ⟨rfl, rfl, rfl, rfl⟩ rfl rfl
        refine ⟨h.answered hawaits hpc h.current h.seated.used hleaves, _, reply.revision,
          hmetadata.1, hawaits, fun _ => hnewer, hwritten, ?_⟩
        simp only [Accepted, htask]
        exact ⟨rfl, SessionRebind.finish_self _ _ _⟩
      | _ => simp [Session.answer, htask] at hs
    · cases hv
  · cases hv

section Answers

variable {s : Session ι} {aborted : Bool} {work : Work} {r : ℕ} {reply : CookieReply}

theorem Joint.commanded (h : Joint x origins start w) {i : String} {expected : Option ℕ}
    (htask : w.session.tasks t = .commanding i expected) (hawaits : w.Awaits t id)
    (hpc : (w.contexts id).pc t = .done work r (.ok reply))
    (hs : w.session.answer t (.cookies reply.revision true) aborted = some s) :
    Joint x origins start { w with session := s } ∧
      ∃ id revision, Replied w { w with session := s } t aborted id revision := by
  have hheld := h.seated.awaiting hawaits
  have hown := h.seated.own t
  rw [htask] at hown
  obtain ⟨rfl, -⟩ := hown
  have hid : w.session.info.contextId = id := by
    rw [State.Awaits, htask] at hawaits
    exact Option.some.inj hawaits
  subst hid
  obtain ⟨hnewer, -, hwritten⟩ := h.reading hawaits hpc h.current
  have hexpected : ∀ k ∈ expected, reply.revision = k + 1 := by
    intro k hk
    exact (hwritten k (by rw [htask]; exact hk)).1
  simp only [Session.answer, htask, absorb_accepts hexpected hnewer] at hs
  cases hs
  have hleaves : Leaves w.session
      ({ w.session with info := ⟨w.session.info.contextId, reply.revision⟩ }.finish t .ended) t
      ⟨w.session.info.contextId, reply.revision⟩ :=
    leaves_finish hheld ⟨rfl, rfl, rfl, rfl⟩ rfl rfl
  refine ⟨h.answered hawaits hpc h.current h.seated.used hleaves, _, reply.revision,
    hawaits, fun _ => hnewer, hwritten, ?_⟩
  simp only [Accepted, htask]
  exact ⟨absorb_accepts hexpected hnewer, rfl, SessionRebind.finish_self _ _ _⟩

theorem Joint.exported (h : Joint x origins start w) {rebind : Rebind ι}
    (htask : w.session.tasks t = .exporting rebind) (hawaits : w.Awaits t id)
    (hpc : (w.contexts id).pc t = .done work r (.ok reply))
    (hs : w.session.answer t (.cookies reply.revision true) aborted = some s) :
    Joint x origins start { w with session := s } ∧
      ∃ id revision, Replied w { w with session := s } t aborted id revision := by
  have hheld := h.seated.awaiting hawaits
  have hown := h.seated.own t
  rw [htask] at hown
  have hid : w.session.info.contextId = id := by
    rw [State.Awaits, htask] at hawaits
    exact hown.symm.trans (Option.some.inj hawaits)
  subst hid
  obtain ⟨hnewer, -, hwritten⟩ := h.reading hawaits hpc h.current
  have hnone : ∀ k ∈ (none : Option ℕ), reply.revision = k + 1 := fun k hk => by cases hk
  simp only [Session.answer, htask, absorb_accepts hnone hnewer] at hs
  cases hs
  have hleaves : Leaves w.session
      ({ w.session with info := ⟨w.session.info.contextId, reply.revision⟩ }.set t
        (.creating rebind)) t ⟨w.session.info.contextId, reply.revision⟩ :=
    leaves_set hheld ⟨rfl, rfl, rfl, rfl⟩ rfl rfl rfl
  refine ⟨h.answered hawaits hpc h.current h.seated.used hleaves, _, reply.revision,
    hawaits, fun _ => hnewer, hwritten, ?_⟩
  simp only [Accepted, htask]
  exact ⟨by rw [show rebind.id = _ from hown]; rfl, SessionRebind.set_self _ _ _⟩

theorem Joint.imported (h : Joint x origins start w) {rebind : Rebind ι} {staged : Info}
    (htask : w.session.tasks t = .importing rebind staged) (hawaits : w.Awaits t id)
    (hpc : (w.contexts id).pc t = .done work r (.ok reply))
    (hs : w.session.answer t (.cookies reply.revision true) aborted = some s) :
    Joint x origins start { w with session := s } ∧
      ∃ id revision, Replied w { w with session := s } t aborted id revision := by
  have hheld := h.seated.awaiting hawaits
  have hown := h.seated.own t
  rw [htask] at hown
  obtain ⟨hother, hstaged⟩ := hown
  have hid : staged.contextId = id := by
    rw [State.Awaits, htask] at hawaits
    exact Option.some.inj hawaits
  subst hid
  have hfollowed := h.staged t rebind staged htask
  obtain ⟨hnewer, -, hwritten⟩ := h.reading hawaits hpc hfollowed
  have hnext := (hwritten staged.revision (by rw [htask]; rfl)).1
  simp only [Session.answer, htask] at hs
  rw [if_neg (by simp [hnext])] at hs
  have hfree : w.session.info.contextId = staged.contextId →
      w.session.info.revision ≤ reply.revision := fun heq => absurd heq.symm hother
  cases aborted with
  | true =>
    rw [if_pos rfl] at hs
    cases hs
    have hleaves : Leaves w.session
        ((w.session.remember staged.contextId).set t (.discarding rebind staged .cancelled)) t
        w.session.info :=
      leaves_set hheld
        (alike_of_untouched (SessionRebind.remember_untouched _ _)) rfl rfl rfl
    refine ⟨?_, _, reply.revision, hawaits, hfree, hwritten, ?_⟩
    · refine h.leaves hleaves h.seated.used
        (h.kept hleaves (fun _ hn => hn) ?_)
      intro hcurrent
      rw [State.Awaits, htask] at hcurrent
      exact absurd (Option.some.inj hcurrent) hother
    · simp only [Accepted, htask, if_true]
      exact ⟨(SessionRebind.remember_untouched _ _).info, SessionRebind.set_self _ _ _⟩
  | false =>
    rw [if_neg (by simp)] at hs
    cases hs
    have hsame := SessionRebind.remember_untouched { w.session with
      info := ⟨staged.contextId, reply.revision⟩
      connection := rebind.connection
      retired := w.session.info.contextId :: w.session.retired } w.session.info.contextId
    have hleaves : Leaves w.session
        (w.session.commit t rebind ⟨staged.contextId, reply.revision⟩) t
        ⟨staged.contextId, reply.revision⟩ :=
      leaves_set hheld ⟨hsame.info, hsame.holder, hsame.tasks, hsame.used⟩ rfl rfl rfl
    refine ⟨h.answered hawaits hpc hfollowed hstaged hleaves, _, reply.revision, hawaits,
      hfree, hwritten, ?_⟩
    simp only [Accepted, htask, Bool.false_eq_true, if_false]
    exact ⟨hsame.info, SessionRebind.set_self _ _ _⟩

end Answers

theorem Joint.reply (h : Joint x origins start w) {aborted : Bool}
    (hv : w.reply t aborted = some v) :
    Joint x origins start v ∧ ∃ id revision, Replied w v t aborted id revision := by
  unfold State.reply at hv
  split at hv
  · next cmd r reply hserved =>
    obtain ⟨id, hawaits, hpc⟩ := served_done hserved
    obtain ⟨s, hs, rfl⟩ := onSession_some hv
    have hshape : shaped cmd reply = true := ((h.sound id).replied hpc).2
    rw [hshape] at hs
    cases htask : w.session.tasks t with
    | commanding i expected => exact h.commanded htask hawaits hpc hs
    | exporting rebind => exact h.exported htask hawaits hpc hs
    | importing rebind staged => exact h.imported htask hawaits hpc hs
    | _ => simp [Session.answer, htask] at hs
  · cases hv

/-- A rebind has created a context, and posts its snapshot there. -/
theorem Joint.stages (h : Joint x origins start w) {r : Rebind ι} {u : Session ι} {cmd : Command}
    (htask : w.session.tasks t = .creating r) (hfresh : id ∉ w.session.used)
    (hsame : Untouched { w.session with used := id :: w.session.used } u)
    (hexpected : (Work.command cmd).expected = some 0) :
    Joint x origins start { w with
      session := u.set t (.importing r ⟨id, 0⟩)
      sent := Function.update w.sent (t, id) (some (.command cmd)) } := by
  have hheld : w.session.holder = some t := h.seated.turn t (by rw [htask]; rfl)
  have hinfo : u.info = w.session.info := hsame.info
  have hholder : u.holder = some t := hsame.holder.trans hheld
  have htasks : u.tasks = w.session.tasks := hsame.tasks
  have hused : u.used = id :: w.session.used := hsame.used
  have hself : (u.set t (.importing r ⟨id, 0⟩)).tasks t = .importing r ⟨id, 0⟩ :=
    SessionRebind.set_self u t _
  have hothers : ∀ n, n ≠ t → (u.set t (.importing r ⟨id, 0⟩)).tasks n = w.session.tasks n := by
    intro n hn
    simp [Session.set, hn, htasks]
  have hother : id ≠ w.session.info.contextId := by
    rintro rfl
    exact hfresh h.seated.used
  obtain ⟨hcontext, hunsent⟩ := h.unused id hfresh
  have hseated : Seated (u.set t (.importing r ⟨id, 0⟩)) := by
    apply seated_alone (t := t)
    · intro n hn
      rw [hothers n hn]
      exact h.seated.others hheld hn
    · rw [hself]
      exact hholder
    · rw [hself]
      refine ⟨fun heq => hother (heq.trans (congrArg Info.contextId hinfo)), ?_⟩
      show id ∈ u.used
      rw [hused]
      exact List.mem_cons_self
    · show u.info.contextId ∈ u.used
      rw [hused, hinfo]
      exact List.mem_cons_of_mem _ h.seated.used
  have hawaited : awaited ((u.set t (.importing r ⟨id, 0⟩)).tasks t) = some id := by
    rw [hself]
    rfl
  have halone : ∀ n i, awaited ((u.set t (.importing r ⟨id, 0⟩)).tasks n) = some i →
      n = t ∧ i = id := by
    intro n i hn
    obtain rfl := hseated.only hholder hn
    exact ⟨rfl, Option.some.inj (hn.symm.trans hawaited)⟩
  have hnobody : ∀ n i, ¬ w.Awaits n i := by
    intro n i hn
    obtain rfl := h.seated.only hheld hn
    rw [State.Awaits, htask] at hn
    cases hn
  have hkey : ∀ n i, (n, i) ≠ (t, id) →
      Function.update w.sent (t, id) (some (.command cmd)) (n, i) = w.sent (n, i) :=
    fun n i hne => Function.update_of_ne hne _ w.sent
  refine ⟨h.sound, hseated, ?_, ?_, ?_, ?_, ?_⟩
  · intro n hn i
    have hne : n ≠ t := by
      rintro rfl
      simp only [hself] at hn
      cases hn
    simp only [hothers n hne] at hn
    obtain ⟨hpc, hnone⟩ := h.unsent n hn i
    exact ⟨hpc, (hkey n i (by simp [hne])).trans hnone⟩
  · intro i hi
    have hi' : i ∉ id :: w.session.used := hused ▸ hi
    obtain ⟨hne, hnew⟩ := not_or.mp (List.mem_cons.not.mp hi')
    obtain ⟨hinitial, hnone⟩ := h.unused i hnew
    exact ⟨hinitial, fun n => (hkey n i (by simp [hne])).trans (hnone n)⟩
  · intro n i hn
    by_cases hat : (n, i) = (t, id)
    · cases hat
      show (w.contexts id).pc t = .idle
      rw [hcontext]
      rfl
    · simp only [hkey n i hat] at hn
      exact h.flying n i hn
  · show Followed _ u.info.contextId u.info.revision
    rw [hinfo]
    refine Followed.frame (v := State.mk _ w.contexts _ w.abandoned) h.current rfl
      (fun n => hkey n _ (by simp [hother.symm])) (fun _ hgiven => hgiven)
      (fun n hn => absurd hn (hnobody n _)) ?_
    intro n hn
    exact absurd (halone n _ hn).2.symm hother
  · intro n r' staged hn
    have hstaging : awaited ((u.set t (.importing r ⟨id, 0⟩)).tasks n) =
        some staged.contextId := congrArg awaited hn
    obtain ⟨rfl, -⟩ := halone n staged.contextId hstaging
    simp only [hself] at hn
    cases hn
    exact followed_new hcontext hunsent hawaited hseated (by rw [hself]; exact hexpected)

theorem Joint.created (h : Joint x origins start w) (hv : w.created t id = some v) :
    Joint x origins start v := by
  obtain ⟨snapshot, hsnapshot, hv⟩ := Option.bind_eq_some_iff.mp hv
  obtain ⟨s, hs, rfl⟩ := onSession_some hv
  cases htask : w.session.tasks t with
  | creating r =>
    simp only [Session.answer, htask] at hs
    split at hs
    · cases hs
    · next hfresh =>
      cases hs
      exact h.stages htask hfresh (SessionRebind.remember_untouched { w.session with
        used := id :: w.session.used } id) rfl
  | _ => simp [Session.answer, htask] at hs

theorem joint_step (h : Joint x origins start w) {e : Event ι}
    (hv : next x origins w e = some v) : Joint x origins start v := by
  cases e with
  | alone e =>
    simp only [next] at hv
    split at hv
    · next he => exact h.alone he hv
    · cases hv
  | grant t message => exact h.grant hv
  | arrive t id => exact h.arrive hv
  | serve id e =>
    simp only [next] at hv
    split at hv
    · next he => exact h.onContext he hv
    · cases hv
  | response t metadata => exact (h.response hv).1
  | reply t aborted => exact (h.reply hv).1
  | created t id => exact h.created hv
  | removed t => exact h.removed hv
  | fail t failure => exact h.fail hv

theorem joint_run {contextId : String} {connection : ι} {es : List (Event ι)}
    (hrun : (machine x origins start contextId connection).run
      (.initial start contextId connection) es = some w) : Joint x origins start w :=
  Machine.run_preserves (P := Joint x origins start) (fun _ _ _ h hv => joint_step h hv)
    (joint_initial contextId connection) hrun

/-- The context of a call that has posted a revision is one that the session follows from there. -/
theorem Joint.expecting (h : Joint x origins start w) {k : ℕ}
    (hk : posted (w.session.tasks t) = some k) :
    ∃ id, w.Awaits t id ∧ Followed w id k := by
  have hown := h.seated.own t
  cases htask : w.session.tasks t with
  | commanding id expected =>
    rw [htask] at hk hown
    obtain ⟨rfl, hexpected⟩ := hown
    refine ⟨_, by rw [State.Awaits, htask]; rfl, ?_⟩
    rw [hexpected k hk]
    exact h.current
  | importing r staged =>
    rw [htask] at hk
    cases hk
    exact ⟨_, by rw [State.Awaits, htask]; rfl, h.staged t r staged htask⟩
  | _ => rw [htask] at hk; cases hk

theorem failing_conflict {k : ℕ} (hk : posted (w.session.tasks t) = some k)
    (hfailing : w.failing t (.answered .contextConflict) = true) :
    ∃ cmd r e, w.served t = .done (.command cmd) r (.error e) ∧ e.code = .contextConflict := by
  unfold State.failing at hfailing
  split at hfailing
  · next htask =>
    rw [htask] at hk
    cases hk
  · split at hfailing
    · next cmd r e hserved => exact ⟨cmd, r, e, hserved, beq_iff_eq.mp hfailing⟩
    · cases hfailing
  · next hother => exact absurd rfl hother

/-- Another call has made the write that was to follow the posted revision, and the session does not
know, since that call has failed. -/
theorem Joint.conflict (h : Joint x origins start w) {k : ℕ}
    (hk : posted (w.session.tasks t) = some k)
    (hv : w.fail t (.answered .contextConflict) = some v) :
    ∃ id e, w.Awaits t id ∧ (w.contexts id).writes[k]? = some e ∧ e.task ∈ w.abandoned ∧
      e.task ≠ t := by
  have hfailing : w.failing t (.answered .contextConflict) = true := by
    by_contra hnot
    simp [State.fail, hnot] at hv
  obtain ⟨cmd, r, e, hserved, hcode⟩ := failing_conflict hk hfailing
  obtain ⟨id, hawaits, hfollowed⟩ := h.expecting hk
  have hpc : (w.contexts id).pc t = .done (.command cmd) r (.error e) := by
    rw [State.served, show awaited (w.session.tasks t) = some id from hawaits] at hserved
    exact hserved
  have hresult := (h.sound id).invariant.locals t
  have hexpects := hfollowed.expects t hawaits
  rw [hpc] at hresult hexpects
  obtain ⟨habsent, hconflict⟩ := hresult
  obtain ⟨k', hk', hne⟩ := hconflict.mp hcode
  have hsame : k = k' := by
    have hposted : (Work.command cmd).expected = posted (w.session.tasks t) := hexpects
    exact Option.some.inj (hk.symm.trans (hposted.symm.trans hk'))
  subst hsame
  have hlow : k ≤ r := hfollowed.read t r hawaits (by rw [hpc]; rfl)
  have hhigh : r ≤ (w.contexts id).revision := (h.sound id).read t r (by rw [hpc]; rfl)
  have hlength : k < (w.contexts id).writes.length := by
    have hcount := (h.sound id).invariant.count
    omega
  have hwrite : (w.contexts id).writes[k]? = some ((w.contexts id).writes[k]) :=
    List.getElem?_eq_getElem hlength
  have hdistinct : ((w.contexts id).writes[k]).task ≠ t := habsent _ (List.getElem_mem hlength)
  refine ⟨id, _, hawaits, hwrite, ?_, hdistinct⟩
  rcases hfollowed.counted k _ hwrite with hcounted | hgiven | hwaiting
  · exact absurd hcounted (lt_irrefl k)
  · exact hgiven
  · exact absurd (h.seated.only (h.seated.awaiting hawaits) hwaiting) hdistinct

structure Consistent (w : State ι) : Prop where
  behind : w.session.info.revision ≤ (w.contexts w.session.info.contextId).revision
  uncounted : ∀ i e, (w.contexts w.session.info.contextId).writes[i]? = some e →
    w.session.info.revision ≤ i → e.task ∈ w.abandoned ∨ w.Awaits e.task w.session.info.contextId
  quiet : w.session.holder = none →
    (∀ e ∈ (w.contexts w.session.info.contextId).writes, e.task ∉ w.abandoned) →
    (w.contexts w.session.info.contextId).revision = w.session.info.revision ∧
      (w.contexts w.session.info.contextId).writes.length = w.session.info.revision
  once : ∀ id, ((w.contexts id).writes.map Write.task).Nodup

theorem Joint.consistent (h : Joint x origins start w) : Consistent w where
  behind := h.current.behind
  uncounted i e he hi := by
    rcases h.current.counted i e he with hcounted | hrest
    · omega
    · exact hrest
  quiet hfree hkept := by
    have hlength :
        (w.contexts w.session.info.contextId).writes.length ≤ w.session.info.revision := by
      by_contra hlong
      have hlt := Nat.lt_of_not_le hlong
      rcases h.current.counted _ _ (List.getElem?_eq_getElem hlt) with hcounted | hgiven | hwaiting
      · exact lt_irrefl _ hcounted
      · exact hkept _ (List.getElem_mem hlt) hgiven
      · have hheld := h.seated.awaiting hwaiting
        rw [hfree] at hheld
        cases hheld
    have hcount := (h.sound w.session.info.contextId).invariant.count
    have hbehind := h.current.behind
    omega
  once id := (h.sound id).invariant.distinct

/-- For every order of the steps of both parties: the session is never ahead of its context, its
checks accept every reply, a mutation that is acknowledged is the write that follows the posted
revision, and a conflict is due to the late write of a call that has failed. -/
theorem session_revisions (x : Crates) (origins : List String) (start : Jar) (contextId : String)
    (connection : ι) (es : List (Event ι)) (w : State ι)
    (hrun : (machine x origins start contextId connection).run
      (.initial start contextId connection) es = some w) :
    Consistent w ∧
      (∀ t metadata v, next x origins w (.response t metadata) = some v →
        ∃ id revision, metadata.cookieRevision = some revision ∧ Replied w v t false id revision) ∧
      (∀ t aborted v, next x origins w (.reply t aborted) = some v →
        ∃ id revision, Replied w v t aborted id revision) ∧
      ∀ t k v, posted (w.session.tasks t) = some k →
        next x origins w (.fail t (.answered .contextConflict)) = some v →
        ∃ id e, w.Awaits t id ∧ (w.contexts id).writes[k]? = some e ∧ e.task ∈ w.abandoned ∧
          e.task ≠ t := by
  have hjoint := joint_run hrun
  refine ⟨hjoint.consistent, ?_, ?_, ?_⟩
  · intro t metadata v hv
    exact (hjoint.response hv).2
  · intro t aborted v hv
    exact (hjoint.reply hv).2
  · intro t k v hk hv
    exact hjoint.conflict hk hv

open JarPolicy (emptyJar sampleCrates)

/-- A request is given up, and its cookies are stored later. The next set has posted the revision
of before. -/
def lateWrite : List (Event Unit) :=
  [.alone (.call 0 .stream), .grant 0 (.request "https://example.com"), .arrive 0 "c",
    .serve "c" (.lock 0), .serve "c" (.header 0), .fail 0 .timedOut,
    .alone (.call 1 (.command true)),
    .grant 1 (.command (.set "https://example.com" ["a=1"] 0)), .arrive 1 "c",
    -- `sid=1`
    .serve "c" (.absorb 0 [[115, 105, 100, 61, 49]]), .serve "c" (.update 0 0),
    .serve "c" (.store 0), .serve "c" (.leave 0), .serve "c" (.lock 1), .serve "c" (.load 1),
    .serve "c" (.check 1 0), .serve "c" (.leave 1)]

theorem session_revisions_late :
    ∃ w v, (machine sampleCrates ["https://example.com"] emptyJar "c" ()).run
        (.initial emptyJar "c" ()) lateWrite = some w ∧
      next sampleCrates ["https://example.com"] w (.fail 1 (.answered .contextConflict)) = some v ∧
      Consistent w ∧ ∃ id e, w.Awaits 1 id ∧ (w.contexts id).writes[0]? = some e ∧
        e.task ∈ w.abandoned ∧ e.task ≠ 1 := by
  have hfails : (((machine sampleCrates ["https://example.com"] emptyJar "c" ()).run
      (.initial emptyJar "c" ()) lateWrite).bind fun w =>
        if posted (w.session.tasks 1) = some 0 then
          next sampleCrates ["https://example.com"] w (.fail 1 (.answered .contextConflict))
        else none).isSome = true := by decide +kernel
  obtain ⟨v, hv⟩ := Option.isSome_iff_exists.mp hfails
  obtain ⟨w, hw, hv⟩ := Option.bind_eq_some_iff.mp hv
  obtain ⟨hposted, hv⟩ := Option.ite_none_right_eq_some.mp hv
  obtain ⟨hconsistent, -, -, hconflict⟩ := session_revisions sampleCrates ["https://example.com"]
    emptyJar "c" () lateWrite w hw
  exact ⟨w, v, hw, hv, hconsistent, hconflict 1 0 v hposted hv⟩

end SessionRevisionRuns
