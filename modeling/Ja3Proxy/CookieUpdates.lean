import Ja3Proxy.JarRoundTrip

/-! Updates of the managed jar as a fold over its contents.
The methods take `&mut self`, so what they have written before an error stays written; they
write once, at the end. The contents are a function from the slot of a cookie, which is its
store, domain, path and name, to the unexpired cookie there. -/
namespace CookieUpdates

open AsciiText (HeaderValue toStr)
open CookieModel ExceptRules JarPolicy JarRoundTrip JarUpdates ManagedJar SnapshotImport
  TransportErrors

abbrev Method := ExceptT TransportError (StateM Jar)

/-- The `?` operator. -/
def attempt {α : Type} (r : Except TransportError α) : Method α := ExceptT.mk (pure r)

def Method.call (m : Method Unit) (j : Jar) : Except TransportError Unit × Jar :=
  Id.run (StateT.run (ExceptT.run m) j)

def apply (x : Crates) (now : ℤ) (u : Url) (cookies : List String) (ignoreInvalid : Bool) :
    Method Unit := do
  if cookies.isEmpty then return ()
  let self ← get
  let candidate ← attempt
    (applyLoop x self.limits now u ignoreInvalid cookies 0 0 (self.stores.liveCopy now))
  attempt (checkBounds self.limits now candidate)
  modify fun self => { self with stores := candidate }

def set (x : Crates) (now : ℤ) (u : Url) (cookies : List String) : Method Unit :=
  apply x now u cookies false

def absorb (x : Crates) (now : ℤ) (u : Url) (headers : List HeaderValue) : Method Unit := do
  let self ← get
  let strings ← attempt (absorbLoop self.limits headers 0 0)
  apply x now u strings true

def importSnapshot (x : Crates) (now : ℤ) (snapshot : CookieSnapshot) (origins : List String) :
    Method Unit := do
  let self ← get
  attempt (rejectIf (snapshot.partitionKey ≠ self.partitionKey)
    (invalid "Die Cookie-Partition gehört zu einer anderen First-Party-Site."))
  attempt (rejectIf (self.limits.maxCookies < snapshot.cookies.length) limit)
  let origins ← attempt (parseOrigins x origins)
  let candidate ← attempt (importLoop x self.limits now origins snapshot.cookies [] 0 .empty)
  attempt (checkBounds self.limits now candidate)
  modify fun self => { self with stores := candidate }

def clear : Method Unit := modify Jar.clear

@[simp] theorem call_modify (f : Jar → Jar) (j : Jar) :
    Method.call (modify f) j = (.ok (), f j) := by
  rfl

@[simp] theorem call_get_bind (f : Jar → Method Unit) (j : Jar) :
    Method.call (get >>= f) j = (f j).call j := by
  rfl

@[simp] theorem call_attempt_bind {α : Type} (r : Except TransportError α) (f : α → Method Unit)
    (j : Jar) : Method.call (attempt r >>= f) j =
      match r with
      | .ok a => (f a).call j
      | .error e => (.error e, j) := by
  cases r <;> rfl

def settled (j : Jar) : Except TransportError Jar → Except TransportError Unit × Jar
  | .ok after => (.ok (), after)
  | .error e => (.error e, j)

@[simp] theorem settled_ok (j after : Jar) : settled j (.ok after) = (.ok (), after) := rfl

@[simp] theorem settled_bind {α : Type} (j : Jar) (r : Except TransportError α)
    (f : α → Except TransportError Jar) : settled j (r.bind f) =
      match r with
      | .ok a => settled j (f a)
      | .error e => (.error e, j) := by
  cases r <;> rfl

theorem apply_call (x : Crates) (now : ℤ) (u : Url) (cookies : List String)
    (ignoreInvalid : Bool) (j : Jar) :
    (apply x now u cookies ignoreInvalid).call j =
      settled j (j.apply x now u cookies ignoreInvalid) := by
  unfold apply Jar.apply
  split
  · rfl
  · simp only [call_get_bind, call_attempt_bind, settled_bind, call_modify, settled_ok]

theorem absorb_call (x : Crates) (now : ℤ) (u : Url) (headers : List HeaderValue) (j : Jar) :
    (absorb x now u headers).call j = settled j (j.absorb x now u headers) := by
  unfold absorb Jar.absorb
  simp only [call_get_bind, call_attempt_bind, settled_bind, apply_call]

theorem importSnapshot_call (x : Crates) (now : ℤ) (snapshot : CookieSnapshot)
    (origins : List String) (j : Jar) :
    (importSnapshot x now snapshot origins).call j =
      settled j (j.importSnapshot x now snapshot origins) := by
  unfold importSnapshot Jar.importSnapshot
  simp only [call_get_bind, call_attempt_bind, settled_bind, call_modify, settled_ok]

inductive Reached (x : Crates) : Jar → Prop where
  | new (limits : Limits) (partitionKey : String) : Reached x (.new limits partitionKey)
  | set {j : Jar} (now : ℤ) (u : Url) (cookies : List String) (h : Reached x j) :
      Reached x ((set x now u cookies).call j).2
  | absorb {j : Jar} (now : ℤ) (u : Url) (headers : List HeaderValue) (h : Reached x j) :
      Reached x ((absorb x now u headers).call j).2
  | importSnapshot {j : Jar} (now : ℤ) (snapshot : CookieSnapshot) (origins : List String)
      (h : Reached x j) : Reached x ((importSnapshot x now snapshot origins).call j).2
  | clear {j : Jar} (h : Reached x j) : Reached x (clear.call j).2

structure Kept (j : Jar) : Prop where
  sorted : Sorted j.stores
  within : Within j.limits (contents j.stores)

theorem kept_empty (limits : Limits) (partitionKey : String) :
    Kept ⟨.empty, partitionKey, limits⟩ where
  sorted p c hc := absurd hc mem_empty
  within := by
    have hnone : contents .empty = [] := rfl
    rw [hnone]
    exact ⟨Nat.zero_le _, by simp, Nat.zero_le _, Nat.two_pow_pos 64⟩

/-- The limits have been checked on everything that is stored. -/
theorem within_of_alive {l : Limits} {now : ℤ} {s : Stores} (hbounds : checkBounds l now s = .ok ())
    (halive : ∀ p, ∀ c ∈ (s.get p).cookies, c.expired now = false) : Within l (contents s) := by
  rw [checkBounds_ok_iff, unexpired_eq] at hbounds
  · exact hbounds
  · intro c hc
    obtain ⟨p, hp⟩ := mem_contents.mp hc
    exact halive p c hp

section Calls

variable {x : Crates} {now : ℤ} {u : Url} {j after : Jar}

theorem Kept.apply {texts : List String} {ignoreInvalid : Bool} (hj : Kept j)
    (h : j.apply x now u texts ignoreInvalid = .ok after) : Kept after := by
  constructor
  · rcases apply_cases h with rfl | ⟨stores, hloop, _, rfl⟩
    · exact hj.sorted
    · intro p c hc
      rcases applyLoop_mem hloop hc with hold | ⟨hp, _⟩
      · exact hj.sorted p c (mem_liveCopy.mp hold).1
      · exact hp.symm
  · rcases apply_bounds h with rfl | ⟨stores, rfl, hbounds, halive⟩
    · exact hj.within
    · exact within_of_alive hbounds halive

theorem Kept.absorb {headers : List HeaderValue} (hj : Kept j)
    (h : j.absorb x now u headers = .ok after) : Kept after := by
  obtain ⟨strings, _, happly⟩ := bind_ok.mp h
  exact hj.apply happly

theorem kept_of_import {snapshot : CookieSnapshot} {origins : List String}
    (h : j.importSnapshot x now snapshot origins = .ok after) : Kept after := by
  constructor
  · obtain ⟨urls, stores, _, hloop, _, rfl⟩ := importSnapshot_cases h
    intro p c hc
    rcases importLoop_mem hloop hc with hold | ⟨hp, _⟩
    · exact absurd hold mem_empty
    · exact hp.symm
  · obtain ⟨stores, rfl, hbounds, halive⟩ := importSnapshot_bounds h
    exact within_of_alive hbounds halive

theorem Kept.settled {r : Except TransportError Jar} (hj : Kept j)
    (hr : ∀ after, r = .ok after → Kept after) : Kept (settled j r).2 := by
  cases r with
  | error e => exact hj
  | ok after => exact hr after rfl

end Calls

theorem Reached.kept {x : Crates} {j : Jar} (h : Reached x j) : Kept j := by
  induction h with
  | new limits partitionKey => exact kept_empty limits partitionKey
  | set now u cookies _ ih =>
    rw [CookieUpdates.set, apply_call]
    exact ih.settled fun _ => ih.apply
  | absorb now u headers _ ih =>
    rw [absorb_call]
    exact ih.settled fun _ => ih.absorb
  | importSnapshot now snapshot origins _ ih =>
    rw [importSnapshot_call]
    exact ih.settled fun _ => kept_of_import
  | @clear j _ ih => exact kept_empty j.limits j.partitionKey

abbrev Slot := Bool × Key

abbrev Contents := Slot → Option Cookie

def slot (c : Cookie) : Slot := (c.partitioned, c.key)

def live (now : ℤ) (s : Stores) : Contents := fun slot =>
  ((s.get slot.1).unexpired now).find? fun c => c.key == slot.2

def update (now : ℤ) (m : Contents) (c : Cookie) : Contents :=
  Function.update m (slot c) (if c.expired now then none else some c)

def store (now : ℤ) (s : Stores) (c : Cookie) : Stores :=
  s.set c.partitioned (if c.expired now then (s.get c.partitioned).remove c.key
    else (s.get c.partitioned).put c)

theorem live_eq_some {now : ℤ} {s : Stores} {p : Bool} {k : Key} {c : Cookie} :
    live now s (p, k) = some c ↔
      c ∈ (s.get p).cookies ∧ c.expired now = false ∧ c.key = k := by
  rw [live]
  constructor
  · intro h
    obtain ⟨hmem, hexpired⟩ := Store.mem_unexpired.mp (List.mem_of_find?_eq_some h)
    have hkey := List.find?_some h
    exact ⟨hmem, hexpired, beq_iff_eq.mp hkey⟩
  · rintro ⟨hmem, hexpired, hkey⟩
    cases hfind : ((s.get p).unexpired now).find? fun c => c.key == k with
    | none =>
      have hnone := List.find?_eq_none.mp hfind c (Store.mem_unexpired.mpr ⟨hmem, hexpired⟩)
      exact absurd (beq_iff_eq.mpr hkey) hnone
    | some d =>
      obtain ⟨hd, _⟩ := Store.mem_unexpired.mp (List.mem_of_find?_eq_some hfind)
      have hfound := List.find?_some hfind
      rw [Store.eq_of_key hd hmem ((beq_iff_eq.mp hfound).trans hkey.symm)]

/-- Two contents are equal when they hold the same cookies. -/
theorem contents_ext {m n : Contents} (h : ∀ p k c, m (p, k) = some c ↔ n (p, k) = some c) :
    m = n := by
  funext ⟨p, k⟩
  exact Option.ext (h p k)

theorem live_liveCopy (now : ℤ) (s : Stores) : live now (s.liveCopy now) = live now s := by
  apply contents_ext
  intro p k c
  simp only [live_eq_some, mem_liveCopy]
  tauto

theorem mem_store {now : ℤ} {s : Stores} {c d : Cookie} {p : Bool} :
    d ∈ ((store now s c).get p).cookies ↔
      (d ∈ (s.get p).cookies ∧ (p, d.key) ≠ slot c) ∨
        (d = c ∧ p = c.partitioned ∧ c.expired now = false) := by
  rw [store, get_set]
  by_cases hp : p = c.partitioned
  · subst hp
    have hslot : (c.partitioned, d.key) ≠ slot c ↔ d.key ≠ c.key := by simp [slot]
    rw [if_pos rfl, hslot]
    cases c.expired now <;> simp [Store.remove, Store.mem_put]
  · have hslot : (p, d.key) ≠ slot c := fun h => hp (Prod.mk.inj h).1
    simp [hp, hslot]

theorem live_store (now : ℤ) (s : Stores) (c : Cookie) :
    live now (store now s c) = update now (live now s) c := by
  apply contents_ext
  intro p k d
  rw [live_eq_some, mem_store, update, Function.update_apply]
  by_cases hslot : (p, k) = slot c
  · rw [if_pos hslot]
    obtain ⟨rfl, rfl⟩ := Prod.mk.inj hslot
    constructor
    · rintro ⟨⟨_, hother⟩ | ⟨rfl, _, halive⟩, _, hkey⟩
      · rw [hkey] at hother
        exact absurd rfl hother
      · simp [halive]
    · intro h
      split at h
      · cases h
      · rename_i halive
        obtain rfl := Option.some.inj h
        have hfalse : c.expired now = false := by simpa using halive
        exact ⟨.inr ⟨rfl, rfl, hfalse⟩, hfalse, rfl⟩
  · rw [if_neg hslot, live_eq_some]
    constructor
    · rintro ⟨⟨hmem, _⟩ | ⟨rfl, rfl, _⟩, halive, rfl⟩
      · exact ⟨hmem, halive, rfl⟩
      · exact absurd rfl hslot
    · rintro ⟨hmem, halive, rfl⟩
      exact ⟨.inl ⟨hmem, hslot⟩, halive, rfl⟩

theorem live_foldl (now : ℤ) (s : Stores) (cs : List Cookie) :
    live now (cs.foldl (store now) s) = cs.foldl (update now) (live now s) := by
  induction cs generalizing s with
  | nil => rfl
  | cons c cs ih => rw [List.foldl_cons, List.foldl_cons, ih, live_store]

/-- What the check of each entry gives against the candidate built so far; `none` is an
invalid entry. -/
def outcomes (x : Crates) (now : ℤ) (u : Url) : Stores → List String → List (Option Cookie)
  | _, [] => []
  | candidate, text :: rest =>
    match parseEntry x now u candidate text with
    | .ok cookie => some cookie :: outcomes x now u (store now candidate cookie) rest
    | .error _ => none :: outcomes x now u candidate rest

section Loop

variable {x : Crates} {l : Limits} {now : ℤ} {u : Url}

/-- A cookie that was parsed for a URL can be stored for it. -/
theorem applyEntry_valid {candidate : Stores} {text : String} {ignoreInvalid : Bool} {c : Cookie}
    (h : parseEntry x now u candidate text = .ok c) :
    applyEntry x now u ignoreInvalid candidate text = .ok (store now candidate c) := by
  obtain ⟨raw, parsed, _, _, _, _, _, _, hcanonical⟩ := parseEntry_ok h
  have haccepts : c.domain.accepts u = true :=
    resolveDomain_accepts (tryFromRawCookie_ok hcanonical).1
  simp only [applyEntry, h, insertOrDelete, store, haccepts, if_true]
  split <;> rfl

theorem applyEntry_invalid {candidate : Stores} {text : String} {ignoreInvalid : Bool}
    {e : TransportError} (h : parseEntry x now u candidate text = .error e) :
    applyEntry x now u ignoreInvalid candidate text =
      if ignoreInvalid then .ok candidate else .error e := by
  have hcode := parseEntry_fails e h
  simp only [applyEntry, h, hcode, beq_self_eq_true, Bool.and_true]

theorem applyLoop_fold {texts : List String} {ignoreInvalid : Bool} {index bytes : ℕ}
    {candidate after : Stores}
    (h : applyLoop x l now u ignoreInvalid texts index bytes candidate = .ok after) :
    (ignoreInvalid = false → none ∉ outcomes x now u candidate texts) ∧
      after = ((outcomes x now u candidate texts).filterMap id).foldl (store now) candidate := by
  induction texts generalizing index bytes candidate with
  | nil =>
    cases h
    exact ⟨fun _ => List.not_mem_nil, rfl⟩
  | cons text texts ih =>
    simp only [applyLoop, bind_ok] at h
    obtain ⟨_, _, _, _, next, hnext, hrest⟩ := h
    obtain ⟨hvalid, hafter⟩ := ih hrest
    cases hparsed : parseEntry x now u candidate text with
    | ok c =>
      rw [applyEntry_valid hparsed] at hnext
      cases hnext
      simp only [outcomes, hparsed]
      refine ⟨fun hstrict => ?_, hafter⟩
      simpa using hvalid hstrict
    | error e =>
      rw [applyEntry_invalid hparsed] at hnext
      cases ignoreInvalid with
      | false => cases hnext
      | true =>
        cases hnext
        simp only [outcomes, hparsed]
        exact ⟨fun hstrict => absurd hstrict.symm Bool.false_ne_true, hafter⟩

/-- Apart from invalid entries in strict mode only a limit stops the loop. -/
theorem applyLoop_limit {texts : List String} {ignoreInvalid : Bool} {index bytes : ℕ}
    {candidate : Stores} (h : ignoreInvalid = true ∨ none ∉ outcomes x now u candidate texts) :
    FailsWith (· = limit) (applyLoop x l now u ignoreInvalid texts index bytes candidate) := by
  induction texts generalizing index bytes candidate with
  | nil => exact .ok _
  | cons text texts ih =>
    refine .bind addSize_fails fun _ => .bind (.rejectIf rfl) fun _ => ?_
    cases hparsed : parseEntry x now u candidate text with
    | ok c =>
      rw [applyEntry_valid hparsed]
      apply ih
      simpa [outcomes, hparsed] using h
    | error e =>
      have hlenient : ignoreInvalid = true := by simpa [outcomes, hparsed] using h
      rw [applyEntry_invalid hparsed, if_pos hlenient]
      exact ih (.inl hlenient)

end Loop

/-- The contents after an update are those before it, updated entry by entry; everything that
is stored is within the limits. -/
structure Folded (x : Crates) (now : ℤ) (u : Url) (texts : List String) (before after : Jar) :
    Prop where
  contents : live now after.stores =
    ((outcomes x now u (before.stores.liveCopy now) texts).filterMap id).foldl (update now)
      (live now before.stores)
  within : Within after.limits (JarRoundTrip.contents after.stores)
  limits : after.limits = before.limits
  partitionKey : after.partitionKey = before.partitionKey

section Updates

variable {x : Crates} {now : ℤ} {u : Url} {j after : Jar} {texts : List String}
  {ignoreInvalid : Bool}

theorem apply_folded (hj : Kept j) (h : j.apply x now u texts ignoreInvalid = .ok after) :
    (ignoreInvalid = false → none ∉ outcomes x now u (j.stores.liveCopy now) texts) ∧
      Folded x now u texts j after := by
  have hwithin := (hj.apply h).within
  unfold Jar.apply at h
  split at h
  · rename_i hempty
    cases h
    rw [List.isEmpty_iff.mp hempty]
    exact ⟨fun _ => List.not_mem_nil, rfl, hwithin, rfl, rfl⟩
  · simp only [bind_ok] at h
    obtain ⟨stores, hloop, _, _, hafter⟩ := h
    cases hafter
    obtain ⟨hvalid, hstores⟩ := applyLoop_fold hloop
    refine ⟨hvalid, ?_, hwithin, rfl, rfl⟩
    rw [hstores, live_foldl, live_liveCopy]

theorem apply_limit
    (h : ignoreInvalid = true ∨ none ∉ outcomes x now u (j.stores.liveCopy now) texts) :
    FailsWith (· = limit) (j.apply x now u texts ignoreInvalid) := by
  unfold Jar.apply
  split
  · exact .ok _
  · exact .bind (applyLoop_limit h) fun _ => .bind checkBounds_fails fun _ => .ok _

end Updates

/-- An update of a reachable jar folds its valid entries into the contents and is within the
limits, or fails and leaves the jar. A strict one needs all entries to be valid; a lenient one
skips the others, so that only a limit stops it. -/
theorem cookie_updates (x : Crates) (j : Jar) (hj : Reached x j) (now : ℤ) (u : Url)
    (texts : List String) (headers : List HeaderValue) :
    (match (set x now u texts).call j with
      | (.ok _, after) => none ∉ outcomes x now u (j.stores.liveCopy now) texts ∧
          Folded x now u texts j after
      | (.error e, after) => after = j ∧
          (e = limit ∨ none ∈ outcomes x now u (j.stores.liveCopy now) texts)) ∧
      match (absorb x now u headers).call j with
      | (.ok _, after) => Folded x now u (headers.filterMap toStr) j after
      | (.error e, after) => after = j ∧ e = limit := by
  constructor
  · rw [set, apply_call]
    cases h : j.apply x now u texts false with
    | ok after =>
      obtain ⟨hvalid, hfolded⟩ := apply_folded hj.kept h
      exact ⟨hvalid rfl, hfolded⟩
    | error e =>
      refine ⟨rfl, ?_⟩
      by_cases hvalid : none ∈ outcomes x now u (j.stores.liveCopy now) texts
      · exact .inr hvalid
      · exact .inl (apply_limit (.inr hvalid) e h)
  · rw [absorb_call]
    cases h : j.absorb x now u headers with
    | ok after =>
      obtain ⟨strings, hstrings, happly⟩ := bind_ok.mp h
      rw [absorbLoop_ok hstrings] at happly
      exact (apply_folded hj.kept happly).2
    | error e =>
      have hlimit : FailsWith (· = limit) (j.absorb x now u headers) :=
        .bind absorbLoop_fails fun _ => apply_limit (.inl rfl)
      exact ⟨rfl, hlimit e h⟩

def cartUrl : Url := sampleUrl "example.com" "/shop/items" (by decide)

/-- The header values hold a cookie, an unknown text and a byte that is not ASCII. -/
theorem cookie_updates_sample :
    (∃ after, (set sampleCrates 0 cartUrl ["sid=1", "__Host-id=2; Secure; Path=/"]).call emptyJar =
        (.ok (), after) ∧
      Folded sampleCrates 0 cartUrl ["sid=1", "__Host-id=2; Secure; Path=/"] emptyJar after) ∧
      ∃ after,
        (absorb sampleCrates 0 cartUrl [[115, 105, 100, 61, 49], [61], [200]]).call emptyJar =
        (.ok (), after) ∧ Folded sampleCrates 0 cartUrl ["sid=1", "="] emptyJar after := by
  have hall := cookie_updates sampleCrates emptyJar (.new _ _) 0 cartUrl
    ["sid=1", "__Host-id=2; Secure; Path=/"] [[115, 105, 100, 61, 49], [61], [200]]
  constructor
  · obtain ⟨after, hset⟩ : ∃ after, (set sampleCrates 0 cartUrl
        ["sid=1", "__Host-id=2; Secure; Path=/"]).call emptyJar = (.ok (), after) := ⟨_, rfl⟩
    rw [hset] at hall
    exact ⟨after, hset, hall.1.2⟩
  · obtain ⟨after, habsorb⟩ : ∃ after, (absorb sampleCrates 0 cartUrl
        [[115, 105, 100, 61, 49], [61], [200]]).call emptyJar = (.ok (), after) := ⟨_, rfl⟩
    rw [habsorb] at hall
    exact ⟨after, habsorb, hall.2⟩

end CookieUpdates
