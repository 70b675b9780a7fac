import Ja3Proxy.ContextService

/-! Owners of contexts do not see each other.
The operations of other owners can do one thing to the contexts of an owner: a `create` sweeps
those that have expired. An expired context answers like a missing one, and the owner's own
`create` sweeps before it counts, so that the replies to the owner do not depend on it. -/
namespace OwnerIsolation

open ContextLifetime ContextService CookieModel FiniteMaps ManagedJar TransitionRuns
  TransportErrors
open ContextStore (Owner notFound contextLimit)
open CookieRevision (Command)

theorem expired_mono {c : Context} {now later : ℕ} (hle : now ≤ later)
    (h : c.expired now = true) : c.expired later = true := by
  simp only [Context.expired, Lifetime.dead, Bool.or_eq_true, decide_eq_true_eq] at h ⊢
  rcases h with hclosed | hdeadline
  · exact .inl hclosed
  · right
    omega

theorem touch_eq_none {c : Context} {now : ℕ} (h : c.expired now = true) :
    c.life.touch c.ages now = none := by
  simp only [Context.expired] at h
  simp [Lifetime.touch, h]

def SameFor (a : Owner) (r s : Registry) : Prop :=
  ∀ id c, c.owner = a → (s.lookup id = some c ↔ r.lookup id = some c)

structure Similar (a : Owner) (now : ℕ) (r s : Registry) : Prop where
  kept : ∀ id c, r.lookup id = some c → c.owner = a → s.lookup id = some c
  only : ∀ id c, s.lookup id = some c →
    c.owner = a ∧ (r.lookup id = some c ∨ c.expired now = true)

section Relation

variable {a : Owner} {now : ℕ} {r s t : Registry} {id : String} {c : Context}

theorem Similar.mono {later : ℕ} (h : Similar a now r s) (hle : now ≤ later) :
    Similar a later r s where
  kept := h.kept
  only id c hc := by
    obtain ⟨howner, hsame | hexpired⟩ := h.only id c hc
    · exact ⟨howner, .inl hsame⟩
    · exact ⟨howner, .inr (expired_mono hle hexpired)⟩

theorem Similar.sameFor (h : Similar a now r s) (ht : SameFor a r t) : Similar a now t s where
  kept id c hc howner := h.kept id c ((ht id c howner).mp hc) howner
  only id c hc := by
    obtain ⟨howner, hsame | hexpired⟩ := h.only id c hc
    · exact ⟨howner, .inl ((ht id c howner).mpr hsame)⟩
    · exact ⟨howner, .inr hexpired⟩

theorem SameFor.insert (hold : ∀ d, r.lookup id = some d → d.owner ≠ a) (hnew : c.owner ≠ a) :
    SameFor a r (r.insert id c) := by
  intro id' d hd
  by_cases hid : id' = id
  · subst hid
    rw [AList.lookup_insert]
    constructor
    · rintro h
      cases h
      exact absurd hd hnew
    · intro h
      exact absurd hd (hold d h)
  · rw [AList.lookup_insert_ne hid]

theorem SameFor.erase (hold : ∀ d, r.lookup id = some d → d.owner ≠ a) :
    SameFor a r (r.erase id) := by
  intro id' d hd
  by_cases hid : id' = id
  · subst hid
    rw [AList.lookup_erase]
    constructor
    · intro h
      cases h
    · intro h
      exact absurd hd (hold d h)
  · rw [AList.lookup_erase_ne hid]

theorem Similar.swept (h : Similar a now r s) : Similar a now (cleanup r now) s where
  kept id c hc howner := h.kept id c (lookup_retain.mp hc).1 howner
  only id c hc := by
    obtain ⟨howner, hsame | hexpired⟩ := h.only id c hc
    · refine ⟨howner, ?_⟩
      cases hexpired : c.expired now with
      | true => exact .inr rfl
      | false => exact .inl (lookup_retain.mpr ⟨hsame, by simp [hexpired]⟩)
    · exact ⟨howner, .inr hexpired⟩

/-- After a sweep of both nothing is left over. -/
theorem Similar.exact (h : Similar a now r s) (id : String) (c : Context) :
    (cleanup s now).lookup id = some c ↔
      (cleanup r now).lookup id = some c ∧ c.owner = a := by
  rw [cleanup, cleanup, lookup_retain, lookup_retain]
  constructor
  · rintro ⟨hs, halive⟩
    obtain ⟨howner, hsame | hexpired⟩ := h.only id c hs
    · exact ⟨⟨hsame, halive⟩, howner⟩
    · simp [hexpired] at halive
  · rintro ⟨⟨hr, halive⟩, howner⟩
    exact ⟨h.kept id c hr howner, halive⟩

theorem similar_of_exact
    (h : ∀ id c, s.lookup id = some c ↔ r.lookup id = some c ∧ c.owner = a) :
    Similar a now r s where
  kept id c hc howner := (h id c).mpr ⟨hc, howner⟩
  only id c hc := ⟨((h id c).mp hc).2, .inl ((h id c).mp hc).1⟩

theorem Similar.insert (h : Similar a now r s) (howner : c.owner = a) :
    Similar a now (r.insert id c) (s.insert id c) where
  kept id' d hd hda := by
    by_cases hid : id' = id
    · subst hid
      rw [AList.lookup_insert] at hd ⊢
      exact hd
    · rw [AList.lookup_insert_ne hid] at hd ⊢
      exact h.kept id' d hd hda
  only id' d hd := by
    by_cases hid : id' = id
    · subst hid
      rw [AList.lookup_insert] at hd ⊢
      cases hd
      exact ⟨howner, .inl rfl⟩
    · rw [AList.lookup_insert_ne hid] at hd ⊢
      exact h.only id' d hd

theorem Similar.erase (h : Similar a now r s) : Similar a now (r.erase id) (s.erase id) where
  kept id' d hd hda := by
    by_cases hid : id' = id
    · subst hid
      rw [AList.lookup_erase] at hd
      cases hd
    · rw [AList.lookup_erase_ne hid] at hd ⊢
      exact h.kept id' d hd hda
  only id' d hd := by
    by_cases hid : id' = id
    · subst hid
      rw [AList.lookup_erase] at hd
      cases hd
    · rw [AList.lookup_erase_ne hid] at hd ⊢
      exact h.only id' d hd

/-- The second registry may drop what the first one does not have. -/
theorem Similar.forget (h : Similar a now r s)
    (hnone : ∀ d, r.lookup id = some d → d.owner ≠ a) : Similar a now r (s.erase id) where
  kept id' d hd hda := by
    by_cases hid : id' = id
    · subst hid
      exact absurd hda (hnone d hd)
    · rw [AList.lookup_erase_ne hid]
      exact h.kept id' d hd hda
  only id' d hd := by
    by_cases hid : id' = id
    · subst hid
      rw [AList.lookup_erase] at hd
      cases hd
    · rw [AList.lookup_erase_ne hid] at hd
      exact h.only id' d hd

end Relation

def face (c : Context) : String × String × CreateContext := (c.id, c.principal, c.spec)

theorem perform_face (x : Crates) (now : ℕ) (c : Context) (jar : Jar) (command : Command) :
    face (c.perform x now jar command).1 = face c := by
  unfold Context.perform
  split
  · rfl
  · rfl
  · rfl
  · split <;> rfl

theorem unlock_face (c : Context) (now : ℕ) : face (c.unlock now) = face c := by
  unfold Context.unlock
  split <;> rfl

theorem command_face (x : Crates) (now : ℕ) (c : Context) (command : Command) :
    face (c.command x now command).1 = face c := by
  unfold Context.command
  split
  · rfl
  · next jar _ =>
    split
    · rfl
    · next life _ =>
      have hface := perform_face x now { c with life := life } jar command
      split
      · next d e hperform =>
        rw [hperform] at hface
        exact (unlock_face d now).trans hface
      · next d reply hperform =>
        rw [hperform] at hface
        split
        · exact hface
        · exact (unlock_face d now).trans hface

theorem command_owner (x : Crates) (now : ℕ) (c : Context) (command : Command) :
    (c.command x now command).1.owner = c.owner := by
  have hface := command_face x now c command
  simp only [face, Prod.mk.injEq] at hface
  rw [Context.owner, Context.owner, hface.2.1, hface.2.2]

section Foreign

variable {a b : Owner} {now : ℕ} {r : Registry} {id : String}

def owned (r : Registry) (owner : Owner) (id : String) : Option Context :=
  (r.lookup id).filter fun c => c.owner = owner

theorem owned_eq_some {c : Context} :
    owned r b id = some c ↔ r.lookup id = some c ∧ c.owner = b := by
  simp [owned, Option.filter_eq_some_iff]

theorem not_owner_of_owned {c : Context} (hb : b ≠ a) (h : owned r b id = some c) :
    ∀ d, r.lookup id = some d → d.owner ≠ a := by
  intro d hd hda
  obtain ⟨hc, hcb⟩ := owned_eq_some.mp h
  obtain rfl := Option.some.inj (hc.symm.trans hd)
  exact hb (hcb.symm.trans hda)

theorem sameFor_refl (a : Owner) (r : Registry) : SameFor a r r := fun _ _ _ => Iff.rfl

def touchedAt (c : Context) (now : ℕ) : Context :=
  { c with life := { c.life with touched := now } }

theorem get_missing (h : owned r b id = none) :
    ContextService.get r now b id = (r, .error notFound) := by
  rw [owned] at h
  simp [ContextService.get, h]

theorem get_expired {c : Context} (h : owned r b id = some c) (hexpired : c.expired now = true) :
    ContextService.get r now b id = (r.erase id, .error notFound) := by
  rw [owned] at h
  simp [ContextService.get, h, touch_eq_none hexpired]

theorem get_alive {c : Context} (h : owned r b id = some c) (halive : c.expired now = false) :
    ContextService.get r now b id = (r.insert id (touchedAt c now), .ok (touchedAt c now)) := by
  rw [owned] at h
  have htouch : c.life.touch c.ages now = some { c.life with touched := now } := by
    rw [Context.expired] at halive
    simp [Lifetime.touch, halive]
  simp [ContextService.get, h, htouch, touchedAt]

theorem get_sameFor (hb : b ≠ a) : SameFor a r (ContextService.get r now b id).1 := by
  cases howned : owned r b id with
  | none =>
    rw [get_missing howned]
    exact sameFor_refl a r
  | some c =>
    have hothers := not_owner_of_owned hb howned
    have howner : (touchedAt c now).owner = b := (owned_eq_some.mp howned).2
    cases hexpired : c.expired now with
    | true =>
      rw [get_expired howned hexpired]
      exact SameFor.erase hothers
    | false =>
      rw [get_alive howned hexpired]
      exact SameFor.insert hothers (howner ▸ hb)

theorem close_sameFor (hb : b ≠ a) : SameFor a r (ContextService.close r b id) := by
  unfold ContextService.close
  split
  · rename_i hsome
    obtain ⟨c, hc⟩ := Option.isSome_iff_exists.mp hsome
    exact SameFor.erase (not_owner_of_owned hb hc)
  · exact sameFor_refl a r

theorem SameFor.trans {s t : Registry} (h : SameFor a r s) (k : SameFor a s t) : SameFor a r t :=
  fun id c hc => (k id c hc).trans (h id c hc)

/-- The context that `get` returns is the owner's and is in the registry. -/
theorem get_ok {s : Registry} {c : Context} (h : ContextService.get r now b id = (s, .ok c)) :
    s.lookup id = some c ∧ c.owner = b := by
  cases howned : owned r b id with
  | none =>
    rw [get_missing howned] at h
    cases h
  | some d =>
    have howner : (touchedAt d now).owner = b := (owned_eq_some.mp howned).2
    cases hexpired : d.expired now with
    | true =>
      rw [get_expired howned hexpired] at h
      cases h
    | false =>
      rw [get_alive howned hexpired] at h
      cases h
      exact ⟨AList.lookup_insert r, howner⟩

theorem cookies_sameFor {x : Crates} {command : Command} (hb : b ≠ a) :
    SameFor a r (ContextService.cookies x r now b id command).1 := by
  have hsame : SameFor a r (ContextService.get r now b id).1 := get_sameFor hb
  unfold ContextService.cookies
  rcases hget : ContextService.get r now b id with ⟨s, e | c⟩
  · rw [hget] at hsame
    exact hsame
  · rw [hget] at hsame
    obtain ⟨hc, howner⟩ := get_ok hget
    apply hsame.trans
    apply SameFor.insert
    · intro d hd
      obtain rfl := Option.some.inj (hc.symm.trans hd)
      exact howner ▸ hb
    · rw [command_owner, howner]
      exact hb

theorem enroll_sameFor {l : ContextLimits} {principal : String} {p : Prepared}
    {client : Except TransportError String} {s : Registry}
    {result : Except TransportError ContextInfo} (hb : (⟨principal, p.spec.partition⟩ : Owner) ≠ a)
    (h : enroll l r now principal p client id = some (s, result)) : SameFor a r s := by
  unfold enroll at h
  split at h
  · cases h
    exact sameFor_refl a r
  · split at h
    · cases h
      exact sameFor_refl a r
    · split at h
      · cases h
      · rename_i hfree
        cases h
        apply SameFor.insert
        · intro d hd
          simp [hd] at hfree
        · exact hb

theorem prepare_partition {x : Crates} {l : ContextLimits} {principal : String}
    {spec : CreateContext} {p : Prepared} (h : prepare x l principal spec = .ok p) :
    p.spec.partition = spec.partition := by
  simp only [prepare, ExceptRules.bind_ok] at h
  obtain ⟨_, _, _, _, _, _, _, _, hp⟩ := h
  cases hp
  rfl

/-- Another owner leaves the contexts of this one, or sweeps the expired ones. -/
theorem operate_foreign {x : Crates} {l : ContextLimits} {op : Op} {s t : Registry} {reply : Reply}
    (hop : op.owner = some b) (hb : b ≠ a) (h : operate x l r now op = some (s, reply))
    (hsim : Similar a now r t) : Similar a now s t := by
  cases op with
  | create principal spec client id =>
    cases hop
    simp only [operate, Option.map_eq_some_iff, Prod.mk.injEq] at h
    obtain ⟨⟨s', result⟩, hcreate, rfl, _⟩ := h
    unfold create at hcreate
    cases hprepare : prepare x l principal spec with
    | error e =>
      rw [hprepare] at hcreate
      cases hcreate
      exact hsim
    | ok p =>
      rw [hprepare] at hcreate
      apply hsim.swept.sameFor
      apply enroll_sameFor _ hcreate
      rwa [prepare_partition hprepare]
  | get owner id =>
    cases hop
    cases h
    exact hsim.sameFor (get_sameFor hb)
  | close owner id =>
    cases hop
    cases h
    exact hsim.sameFor (close_sameFor hb)
  | cookies owner id command =>
    cases hop
    cases h
    exact hsim.sameFor (cookies_sameFor hb)
  | cleanup => cases hop

end Foreign

section Own

variable {a : Owner} {now : ℕ} {r s : Registry} {id : String}

/-- What the owner reaches in the second registry only has expired. -/
theorem Similar.owned_cases (h : Similar a now r s) (id : String) :
    owned s a id = owned r a id ∨
      (owned r a id = none ∧ ∃ c, owned s a id = some c ∧ c.expired now = true) := by
  cases hr : owned r a id with
  | some c =>
    obtain ⟨hc, howner⟩ := owned_eq_some.mp hr
    exact .inl (owned_eq_some.mpr ⟨h.kept id c hc howner, howner⟩)
  | none =>
    cases hs : owned s a id with
    | none => exact .inl rfl
    | some c =>
      right
      obtain ⟨hc, howner⟩ := owned_eq_some.mp hs
      refine ⟨rfl, c, rfl, ?_⟩
      rcases (h.only id c hc).2 with hsame | hexpired
      · have hsome := owned_eq_some.mpr ⟨hsame, howner⟩
        exact absurd (hr.symm.trans hsome) (Option.some_ne_none c).symm
      · exact hexpired

theorem not_owner_of_none (h : owned r a id = none) :
    ∀ d, r.lookup id = some d → d.owner ≠ a := by
  intro d hd hda
  exact Option.some_ne_none d ((owned_eq_some.mpr ⟨hd, hda⟩).symm.trans h)

theorem get_similar (h : Similar a now r s) :
    (ContextService.get s now a id).2 = (ContextService.get r now a id).2 ∧
      Similar a now (ContextService.get r now a id).1 (ContextService.get s now a id).1 := by
  rcases h.owned_cases id with hsame | ⟨hnone, c, hsome, hexpired⟩
  · cases hr : owned r a id with
    | none =>
      rw [get_missing hr, get_missing (hsame.trans hr)]
      exact ⟨rfl, h⟩
    | some c =>
      have howner : (touchedAt c now).owner = a := (owned_eq_some.mp hr).2
      cases hexpired : c.expired now with
      | true =>
        rw [get_expired hr hexpired, get_expired (hsame.trans hr) hexpired]
        exact ⟨rfl, h.erase⟩
      | false =>
        rw [get_alive hr hexpired, get_alive (hsame.trans hr) hexpired]
        exact ⟨rfl, h.insert howner⟩
  · rw [get_missing hnone, get_expired hsome hexpired]
    exact ⟨rfl, h.forget (not_owner_of_none hnone)⟩

theorem close_similar (h : Similar a now r s) :
    Similar a now (ContextService.close r a id) (ContextService.close s a id) := by
  have hclose : ∀ t : Registry, ContextService.close t a id =
      if (owned t a id).isSome then t.erase id else t := fun t => rfl
  rw [hclose, hclose]
  rcases h.owned_cases id with hsame | ⟨hnone, c, hsome, _⟩
  · rw [hsame]
    split
    · exact h.erase
    · exact h
  · rw [hnone, hsome]
    exact h.forget (not_owner_of_none hnone)

theorem cookies_similar {x : Crates} {command : Command} (h : Similar a now r s) :
    (ContextService.cookies x s now a id command).2 =
        (ContextService.cookies x r now a id command).2 ∧
      Similar a now (ContextService.cookies x r now a id command).1
        (ContextService.cookies x s now a id command).1 := by
  obtain ⟨hreply, hsim⟩ := @get_similar a now r s id h
  unfold ContextService.cookies
  rcases hr : ContextService.get r now a id with ⟨r', e | c⟩
  · rcases hs : ContextService.get s now a id with ⟨s', e' | c'⟩
    · rw [hr, hs] at hreply hsim
      cases hreply
      exact ⟨rfl, hsim⟩
    · rw [hr, hs] at hreply
      cases hreply
  · rcases hs : ContextService.get s now a id with ⟨s', e' | c'⟩
    · rw [hr, hs] at hreply
      cases hreply
    · rw [hr, hs] at hreply hsim
      cases hreply
      refine ⟨rfl, hsim.insert ?_⟩
      rw [command_owner]
      exact (get_ok hr).2

theorem cleanup_similar (h : Similar a now r s) :
    Similar a now (cleanup r now) (cleanup s now) :=
  similar_of_exact h.exact

/-- A sweep leaves both registries with the same number of contexts of the owner, and the
second with no others. -/
theorem total_exact
    (h : ∀ id c, s.lookup id = some c ↔ r.lookup id = some c ∧ c.owner = a) :
    total (ownedBy a) s = total (ownedBy a) r ∧ s.entries.length = total (ownedBy a) r := by
  have hperm := entries_perm (p := fun c : Context => c.owner = a) h
  have hr : total (ownedBy a) r = (r.entries.filter fun e => e.2.owner = a).length :=
    total_indicator (fun c : Context => c.owner = a) r
  have hs : total (ownedBy a) s = (s.entries.filter fun e => e.2.owner = a).length :=
    total_indicator (fun c : Context => c.owner = a) s
  have hall : s.entries.filter (fun e => e.2.owner = a) = s.entries := by
    rw [List.filter_eq_self]
    intro e he
    exact (List.mem_filter.mp (hperm.mem_iff.mp he)).2
  rw [hr, hs, hall]
  exact ⟨hperm.length_eq, hperm.length_eq⟩

def refusedGlobally (x : Crates) (l : ContextLimits) (r : Registry) (now : ℕ) : Op → Bool
  | .create principal spec _ _ =>
    match prepare x l principal spec with
    | .error _ => false
    | .ok _ => Nat.ble l.maxContexts (cleanup r now).entries.length &&
        !Nat.ble l.maxContextsPerPartition
          (total (ownedBy ⟨principal, spec.partition⟩) (cleanup r now))
  | _ => false

theorem enroll_similar {l : ContextLimits} {principal : String} {p : Prepared}
    {client : Except TransportError String} {r' : Registry}
    {result : Except TransportError ContextInfo} (hp : (⟨principal, p.spec.partition⟩ : Owner) = a)
    (hexact : ∀ id c, s.lookup id = some c ↔ r.lookup id = some c ∧ c.owner = a)
    (hroom : l.maxContexts ≤ r.entries.length →
      l.maxContextsPerPartition ≤ total (ownedBy a) r)
    (h : enroll l r now principal p client id = some (r', result)) :
    ∃ s', enroll l s now principal p client id = some (s', result) ∧ Similar a now r' s' := by
  obtain ⟨htotal, hlength⟩ := total_exact hexact
  have hle : total (ownedBy a) r ≤ r.entries.length := by
    rw [← total_one]
    apply total_mono
    intro c
    simp only [ownedBy]
    split <;> omega
  have hfull : (l.maxContexts ≤ s.entries.length ∨
      l.maxContextsPerPartition ≤ total (ownedBy a) s) ↔
      (l.maxContexts ≤ r.entries.length ∨ l.maxContextsPerPartition ≤ total (ownedBy a) r) := by
    rw [htotal, hlength]
    constructor
    · rintro (hglobal | hpartition)
      · exact .inl (hglobal.trans hle)
      · exact .inr hpartition
    · rintro (hglobal | hpartition)
      · exact .inr (hroom hglobal)
      · exact .inr hpartition
  unfold enroll at h ⊢
  rw [hp] at h ⊢
  by_cases hrefused : l.maxContexts ≤ r.entries.length ∨
      l.maxContextsPerPartition ≤ total (ownedBy a) r
  · rw [if_pos hrefused] at h
    cases h
    exact ⟨s, if_pos (hfull.mpr hrefused), similar_of_exact hexact⟩
  · rw [if_neg hrefused] at h
    rw [if_neg (hfull.not.mpr hrefused)]
    cases client with
    | error e =>
      cases h
      exact ⟨s, rfl, similar_of_exact hexact⟩
    | ok profile =>
      simp only at h ⊢
      split at h
      · cases h
      · rename_i hfree
        have hfree' : ¬(s.lookup id).isSome = true := by
          intro hsome
          obtain ⟨c, hc⟩ := Option.isSome_iff_exists.mp hsome
          exact hfree (Option.isSome_iff_exists.mpr ⟨c, ((hexact id c).mp hc).1⟩)
        cases h
        rw [if_neg hfree']
        refine ⟨_, rfl, (similar_of_exact hexact).insert ?_⟩
        exact hp

theorem operate_own {x : Crates} {l : ContextLimits} {op : Op} {r' : Registry} {reply : Reply}
    (hop : op.owner = some a) (hroom : refusedGlobally x l r now op = false)
    (h : operate x l r now op = some (r', reply)) (hsim : Similar a now r s) :
    ∃ s', operate x l s now op = some (s', reply) ∧ Similar a now r' s' := by
  cases op with
  | create principal spec client id =>
    cases hop
    simp only [operate, Option.map_eq_some_iff, Prod.mk.injEq] at h ⊢
    obtain ⟨⟨r'', result⟩, hcreate, rfl, rfl⟩ := h
    unfold create at hcreate ⊢
    cases hprepare : prepare x l principal spec with
    | error e =>
      rw [hprepare] at hcreate
      cases hcreate
      exact ⟨s, ⟨(s, .error e), rfl, rfl, rfl⟩, hsim⟩
    | ok p =>
      rw [hprepare] at hcreate
      have hpartition := prepare_partition hprepare
      have hlimits : l.maxContexts ≤ (cleanup r now).entries.length →
          l.maxContextsPerPartition ≤
            total (ownedBy ⟨principal, spec.partition⟩) (cleanup r now) := by
        simp only [refusedGlobally, hprepare, Bool.and_eq_false_iff, Bool.not_eq_false'] at hroom
        intro hglobal
        rcases hroom with hsmall | hpartition
        · rw [Nat.ble_eq_true_of_le hglobal] at hsmall
          cases hsmall
        · exact Nat.le_of_ble_eq_true hpartition
      obtain ⟨s', henroll, hsim'⟩ := enroll_similar (by rw [hpartition]) hsim.exact hlimits hcreate
      exact ⟨s', ⟨(s', result), henroll, rfl, rfl⟩, hsim'⟩
  | get owner id =>
    cases hop
    cases h
    obtain ⟨hreply, hsim'⟩ := @get_similar _ now r s id hsim
    exact ⟨_, by rw [operate, hreply], hsim'⟩
  | close owner id =>
    cases hop
    cases h
    exact ⟨_, rfl, close_similar hsim⟩
  | cookies owner id command =>
    cases hop
    cases h
    obtain ⟨hreply, hsim'⟩ := @cookies_similar _ now r s id x command hsim
    exact ⟨_, by rw [operate, hreply], hsim'⟩
  | cleanup => cases hop

end Own

def concerns (a : Owner) (e : Event) : Bool := e.op.owner.all (· == a)

def repliesTo (a : Owner) (log : List (Event × Reply)) : List (Event × Reply) :=
  log.filter fun entry => entry.1.op.owner == some a

theorem repliesTo_snoc (a : Owner) (log : List (Event × Reply)) (e : Event) (reply : Reply) :
    repliesTo a (log ++ [(e, reply)]) =
      repliesTo a log ++ if e.op.owner = some a then [(e, reply)] else [] := by
  rw [repliesTo, List.filter_append]
  by_cases h : e.op.owner = some a
  · simp [h, repliesTo]
  · simp [h, repliesTo]

/-- No `create` of the owner is refused for the limit of the whole store alone. -/
def HasRoom (x : Crates) (l : ContextLimits) (a : Owner) (w : World) (e : Event) (_ : World) :
    Prop :=
  e.op.owner = some a → refusedGlobally x l w.contexts e.now e.op = false

instance (x : Crates) (l : ContextLimits) (a : Owner) (w : World) (e : Event) (v : World) :
    Decidable (HasRoom x l a w e v) :=
  inferInstanceAs (Decidable (e.op.owner = some a → _ = false))

structure Alike (a : Owner) (w v : World) : Prop where
  clock : v.clock ≤ w.clock
  contexts : Similar a w.clock w.contexts v.contexts
  replies : repliesTo a v.log = repliesTo a w.log

section Runs

variable {x : Crates} {l : ContextLimits} {a : Owner} {w w' v : World} {e : Event}

/-- An operation that the clock allows. -/
theorem next_eq_some : next x l w e = some w' ↔
    w.clock ≤ e.now ∧ ∃ r reply, operate x l w.contexts e.now e.op = some (r, reply) ∧
      w' = ⟨r, e.now, w.log ++ [(e, reply)]⟩ := by
  unfold next
  split
  · rename_i hback
    constructor
    · intro h
      cases h
    · rintro ⟨hle, _⟩
      omega
  · rename_i hforth
    simp only [Option.map_eq_some_iff, Prod.exists]
    constructor
    · rintro ⟨r, reply, hoperate, rfl⟩
      exact ⟨Nat.not_lt.mp hforth, r, reply, hoperate, rfl⟩
    · rintro ⟨_, r, reply, hoperate, rfl⟩
      exact ⟨r, reply, hoperate, rfl⟩

theorem next_deleted (h : Alike a w v) (hdeleted : concerns a e = false)
    (hnext : next x l w e = some w') : Alike a w' v := by
  obtain ⟨hclock, r, reply, hoperate, rfl⟩ := next_eq_some.mp hnext
  obtain ⟨b, hb, hne⟩ : ∃ b, e.op.owner = some b ∧ b ≠ a := by
    cases howner : e.op.owner with
    | none => simp [concerns, howner] at hdeleted
    | some b => exact ⟨b, rfl, by simpa [concerns, howner] using hdeleted⟩
  refine ⟨h.clock.trans hclock, ?_, ?_⟩
  · exact operate_foreign hb hne hoperate (h.contexts.mono hclock)
  · have hother : e.op.owner ≠ some a := by simpa [hb] using hne
    rw [repliesTo_snoc, if_neg hother, List.append_nil, h.replies]

theorem next_kept (h : Alike a w v) (hroom : HasRoom x l a w e w') (hkept : concerns a e = true)
    (hnext : next x l w e = some w') : ∃ v', next x l v e = some v' ∧ Alike a w' v' := by
  obtain ⟨hclock, r, reply, hoperate, rfl⟩ := next_eq_some.mp hnext
  have hsim := h.contexts.mono hclock
  have hoperated : ∃ s reply', operate x l v.contexts e.now e.op = some (s, reply') ∧
      Similar a e.now r s ∧ (e.op.owner = some a → reply' = reply) := by
    cases howner : e.op.owner with
    | none =>
      obtain ⟨now, op⟩ := e
      cases op with
      | cleanup =>
        cases hoperate
        exact ⟨_, _, rfl, cleanup_similar hsim, fun _ => rfl⟩
      | _ => cases howner
    | some b =>
      have hba : b = a := by simpa [concerns, howner] using hkept
      subst hba
      obtain ⟨s, hs, hsim'⟩ := operate_own howner (hroom howner) hoperate hsim
      exact ⟨s, reply, hs, hsim', fun _ => rfl⟩
  obtain ⟨s, reply', hs, hsim', hreply⟩ := hoperated
  refine ⟨_, next_eq_some.mpr ⟨h.clock.trans hclock, s, reply', hs, rfl⟩, le_rfl, hsim', ?_⟩
  rw [repliesTo_snoc, repliesTo_snoc, h.replies]
  by_cases hown : e.op.owner = some a
  · rw [hreply hown]
  · rw [if_neg hown, if_neg hown]

end Runs

/-- Deleting the operations of all other owners from a run leaves every reply to an owner as
it is. -/
theorem owner_isolation (x : Crates) (l : ContextLimits) (a : Owner) (events : List Event)
    (w : World) (hrun : (machine x l).run .initial events = some w)
    (hroom : (machine x l).Along (HasRoom x l a) .initial events) :
    ∃ v, (machine x l).run .initial (events.filter (concerns a)) = some v ∧
      repliesTo a v.log = repliesTo a w.log := by
  have hstart : Alike a World.initial World.initial := by
    refine ⟨le_rfl, ⟨?_, ?_⟩, rfl⟩
    · intro id c hc
      cases hc
    · intro id c hc
      cases hc
  obtain ⟨v, hv, halike⟩ := Machine.run_filter (M := machine x l) (R := Alike a)
    (fun _ _ _ _ h hroom hkept hnext => next_kept h hroom hkept hnext)
    (fun _ _ _ _ h _ hdeleted hnext => next_deleted h hdeleted hnext) hstart hroom hrun
  exact ⟨v, hv, halike.replies⟩

def sampleLimits : ContextLimits :=
  ⟨⟨2, 1⟩, 300000, 1800000, 7200000, 32, JarPolicy.sampleLimits⟩

def sampleSpec (partition : String) : CreateContext :=
  ⟨partition, ⟨"chrome_120", true, none⟩, .managed, ["https://example.com"], some 1⟩

def intrusion : List Event :=
  [⟨0, .create "a" (sampleSpec "p") (.ok "chrome_120") "x"⟩,
    ⟨1, .get ⟨"b", "p"⟩ "x"⟩,
    ⟨2, .close ⟨"a", "q"⟩ "x"⟩,
    ⟨3, .cookies ⟨"b", "p"⟩ "x" (.set "https://example.com/shop/cart" ["sid=1"] 0)⟩,
    ⟨4, .cookies ⟨"a", "p"⟩ "x" (.set "https://example.com/shop/cart" ["sid=1"] 0)⟩,
    ⟨5, .cookies ⟨"a", "p"⟩ "x" .exportSnapshot⟩,
    ⟨2000000, .create "b" (sampleSpec "p") (.ok "chrome_120") "y"⟩,
    ⟨2000001, .get ⟨"a", "p"⟩ "x"⟩,
    ⟨2000002, .create "a" (sampleSpec "p") (.ok "chrome_120") "z"⟩]

theorem owner_isolation_intruded :
    ∃ w v, (machine JarPolicy.sampleCrates sampleLimits).run .initial intrusion = some w ∧
      (machine JarPolicy.sampleCrates sampleLimits).run .initial
        (intrusion.filter (concerns ⟨"a", "p"⟩)) = some v ∧
      repliesTo ⟨"a", "p"⟩ v.log = repliesTo ⟨"a", "p"⟩ w.log ∧
      (repliesTo ⟨"a", "p"⟩ v.log).length = 5 := by
  obtain ⟨w, hw⟩ : ∃ w, (machine JarPolicy.sampleCrates sampleLimits).run .initial intrusion =
      some w := ⟨_, rfl⟩
  obtain ⟨v, hv, hreplies⟩ := owner_isolation JarPolicy.sampleCrates sampleLimits ⟨"a", "p"⟩
    intrusion w hw (by decide +kernel)
  refine ⟨w, v, hw, hv, hreplies, ?_⟩
  have hcount : ((machine JarPolicy.sampleCrates sampleLimits).run .initial intrusion).any
      (fun w => (repliesTo ⟨"a", "p"⟩ w.log).length = 5) = true := by decide +kernel
  rw [hw] at hcount
  rw [hreplies]
  simpa using hcount

end OwnerIsolation
