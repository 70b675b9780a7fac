import Ja3Proxy.AllowedOrigins
import Ja3Proxy.TransitionRuns

/-! Calls on the jar of a managed context, and what one call can add to it.
A stored cookie was there before, was received in a `Set-Cookie` string, or came with a
snapshot; everything that is proved about stored cookies starts from this. -/
namespace JarUpdates

open AllowedOrigins CookieModel ExceptRules ManagedJar TransitionRuns TransportErrors
open AsciiText (HeaderValue toStr)

/-- A call reads the clock once. `cookie_access` validates the serialised URL, which parses
to the same URL again. -/
inductive Call where
  | set (now : ℤ) (url : String) (cookies : List String)
  | absorb (now : ℤ) (url : String) (headers : List HeaderValue)
  | importSnapshot (now : ℤ) (snapshot : CookieSnapshot)
  deriving DecidableEq

def perform (x : Crates) (origins : List String) (j : Jar) : Call → Except TransportError Jar
  | .set now url cookies => (validateOrigin x url origins).bind fun u => j.set x now u cookies
  | .absorb now url headers =>
    (validateOrigin x url origins).bind fun u => j.absorb x now u headers
  | .importSnapshot now snapshot => j.importSnapshot x now snapshot origins

def machine (x : Crates) (origins : List String) (start : Jar) : Machine Jar Call where
  initial := start
  next j call := some (match perform x origins j call with
    | .ok after => after
    | .error _ => j)

def Call.received : Call → Option (ℤ × String × List String)
  | .set now url cookies => some (now, url, cookies)
  | .absorb now url headers => some (now, url, headers.filterMap toStr)
  | .importSnapshot _ _ => none

inductive Fresh (x : Crates) (origins : List String) (call : Call) (c : Cookie) : Prop where
  | received (now : ℤ) (url text : String) (texts : List String) (u : Url) (before : Stores)
      (call_received : call.received = some (now, url, texts)) (mem : text ∈ texts)
      (valid : validateOrigin x url origins = .ok u)
      (parsed : parseEntry x now u before text = .ok c)
      (accepted : c.domain.accepts u = true)
  | imported (now : ℤ) (snapshot : CookieSnapshot) (value : CookieRecord) (urls : List Url)
      (before : Stores) (source : Url)
      (call_imported : call = .importSnapshot now snapshot)
      (origins_parsed : parseOrigins x origins = .ok urls)
      (pair : validatePair value.name value.value = .ok ())
      (attributes : invalidAttributes value = false)
      (parsed : parseRecord x now urls before value = .ok (c, source))

theorem get_set (s : Stores) (p q : Bool) (store : Store) :
    (s.set p store).get q = if q = p then store else s.get q := by
  cases p <;> cases q <;> simp [Stores.set, Stores.get]

theorem mem_liveCopy {s : Stores} {now : ℤ} {p : Bool} {c : Cookie} :
    c ∈ ((s.liveCopy now).get p).cookies ↔ c ∈ (s.get p).cookies ∧ c.expired now = false := by
  cases p <;> simp [Stores.liveCopy, Stores.get]

theorem mem_empty {p : Bool} {c : Cookie} : c ∉ (Stores.empty.get p).cookies := by
  cases p <;> simp [Stores.empty, Stores.get, Store.empty]

private theorem mem_insertOrDelete {now : ℤ} {store after : Store} {c d : Cookie} {u : Url}
    (h : insertOrDelete now store c u = .ok after) (hd : d ∈ after.cookies) :
    d ∈ store.cookies ∨ (d = c ∧ c.expired now = false ∧ c.domain.accepts u = true) := by
  unfold insertOrDelete at h
  split at h
  · cases h
    exact .inl (Store.mem_keep.mp hd).1
  · next hexpired =>
    split at h
    · next haccepts =>
      cases h
      rcases Store.mem_put.mp hd with ⟨hd, _⟩ | rfl
      · exact .inl hd
      · exact .inr ⟨rfl, by simpa using hexpired, haccepts⟩
    · cases h

/-- What is in the two stores once one cookie went into the store of its own kind. -/
theorem mem_set_insertOrDelete {now : ℤ} {s : Stores} {after : Store} {c d : Cookie} {u : Url}
    {p : Bool} (h : insertOrDelete now (s.get c.partitioned) c u = .ok after)
    (hd : d ∈ ((s.set c.partitioned after).get p).cookies) :
    d ∈ (s.get p).cookies ∨
      (d = c ∧ p = c.partitioned ∧ c.expired now = false ∧ c.domain.accepts u = true) := by
  rw [get_set] at hd
  split at hd
  · next hp =>
    subst hp
    rcases mem_insertOrDelete h hd with hd | ⟨rfl, hexpired, haccepts⟩
    · exact .inl hd
    · exact .inr ⟨rfl, rfl, hexpired, haccepts⟩
  · exact .inl hd

private theorem applyEntry_mem {x : Crates} {now : ℤ} {u : Url} {ignoreInvalid : Bool}
    {candidate after : Stores} {text : String} {p : Bool} {c : Cookie}
    (h : applyEntry x now u ignoreInvalid candidate text = .ok after)
    (hc : c ∈ (after.get p).cookies) :
    c ∈ (candidate.get p).cookies ∨ (p = c.partitioned ∧ c.expired now = false ∧
      c.domain.accepts u = true ∧ parseEntry x now u candidate text = .ok c) := by
  unfold applyEntry at h
  split at h
  · split at h
    · cases h
      exact .inl hc
    · cases h
  · next cookie hparsed =>
    obtain ⟨store, hstore, hafter⟩ := bind_ok.mp h
    cases hafter
    rcases mem_set_insertOrDelete hstore hc with hc | ⟨rfl, hp, hexpired, haccepts⟩
    · exact .inl hc
    · exact .inr ⟨hp, hexpired, haccepts, hparsed⟩

theorem applyLoop_mem {x : Crates} {l : Limits} {now : ℤ} {u : Url}
    {ignoreInvalid : Bool} {texts : List String} {index bytes : ℕ} {candidate after : Stores}
    {p : Bool} {c : Cookie}
    (h : applyLoop x l now u ignoreInvalid texts index bytes candidate = .ok after)
    (hc : c ∈ (after.get p).cookies) :
    c ∈ (candidate.get p).cookies ∨ (p = c.partitioned ∧ c.expired now = false ∧
      c.domain.accepts u = true ∧ ∃ text ∈ texts, ∃ before,
        parseEntry x now u before text = .ok c) := by
  induction texts generalizing index bytes candidate with
  | nil =>
    cases h
    exact .inl hc
  | cons text texts ih =>
    simp only [applyLoop, bind_ok] at h
    obtain ⟨_, _, _, _, next, hnext, hrest⟩ := h
    rcases ih hrest with hc | ⟨hp, hexpired, haccepts, later, hlater, hparsed⟩
    · rcases applyEntry_mem hnext hc with hc | ⟨hp, hexpired, haccepts, hparsed⟩
      · exact .inl hc
      · exact .inr ⟨hp, hexpired, haccepts, text, List.mem_cons_self, candidate, hparsed⟩
    · exact .inr ⟨hp, hexpired, haccepts, later, List.mem_cons_of_mem _ hlater, hparsed⟩

/-- An update keeps the jar or replaces both stores after all checks. -/
theorem apply_cases {x : Crates} {j after : Jar} {now : ℤ} {u : Url} {texts : List String}
    {ignoreInvalid : Bool} (h : j.apply x now u texts ignoreInvalid = .ok after) :
    after = j ∨ ∃ stores,
      applyLoop x j.limits now u ignoreInvalid texts 0 0 (j.stores.liveCopy now) = .ok stores ∧
      checkBounds j.limits now stores = .ok () ∧ after = { j with stores := stores } := by
  unfold Jar.apply at h
  split at h
  · cases h
    exact .inl rfl
  · simp only [bind_ok] at h
    obtain ⟨stores, hloop, _, hbounds, hafter⟩ := h
    cases hafter
    exact .inr ⟨stores, hloop, hbounds, rfl⟩

theorem absorbLoop_ok {l : Limits} {headers : List HeaderValue} {index bytes : ℕ}
    {strings : List String} (h : absorbLoop l headers index bytes = .ok strings) :
    strings = headers.filterMap toStr := by
  induction headers generalizing index bytes strings with
  | nil =>
    cases h
    rfl
  | cons header headers ih =>
    simp only [absorbLoop, bind_ok] at h
    obtain ⟨_, _, _, _, _, _, rest, hrest, hout⟩ := h
    rw [ih hrest] at hout
    cases hout
    rw [List.filterMap_cons]
    cases toStr header <;> rfl

theorem parseRecord_ok {x : Crates} {now : ℤ} {urls : List Url} {before : Stores}
    {value : CookieRecord} {c : Cookie} {source : Url}
    (h : parseRecord x now urls before value = .ok (c, source)) :
    findSource urls value = some source ∧
      (∀ ms, value.expiresAtMs = some ms → (ms : ℤ) * 1000000 ≤ lastInstant) ∧
      x.tryFromRawCookie now (importRaw value) source = some c ∧
      validatePolicy x now c (importRaw value) source (before.get value.partitioned) = .ok () ∧
      record c = value := by
  unfold parseRecord at h
  cases hsource : findSource urls value with
  | none => simp [hsource] at h
  | some found =>
    simp only [hsource, bind_ok, rejectIf_ok] at h
    obtain ⟨_, hexpiry, h⟩ := h
    cases hparsed : x.tryFromRawCookie now (importRaw value) found with
    | none => simp [hparsed] at h
    | some parsed =>
      simp only [hparsed, bind_ok, rejectIf_ok] at h
      obtain ⟨_, hpolicy, _, hrecord, hout⟩ := h
      cases hout
      refine ⟨rfl, ?_, hparsed, hpolicy, by simpa using hrecord⟩
      intro ms hms
      simp only [hms, Option.any_some, Bool.or_eq_false_iff, decide_eq_false_iff_not] at hexpiry
      exact not_lt.mp hexpiry.2

theorem importLoop_mem {x : Crates} {l : Limits} {now : ℤ} {urls : List Url}
    {values : List CookieRecord} {keys : List RecordKey} {bytes : ℕ}
    {candidate after : Stores} {p : Bool} {c : Cookie}
    (h : importLoop x l now urls values keys bytes candidate = .ok after)
    (hc : c ∈ (after.get p).cookies) :
    c ∈ (candidate.get p).cookies ∨ (p = c.partitioned ∧ c.expired now = false ∧
      ∃ value before source, validatePair value.name value.value = .ok () ∧
        invalidAttributes value = false ∧
        parseRecord x now urls before value = .ok (c, source)) := by
  induction values generalizing keys bytes candidate with
  | nil =>
    cases h
    exact .inl hc
  | cons value values ih =>
    simp only [importLoop, bind_ok, rejectIf_ok] at h
    obtain ⟨_, _, _, _, _, hpair, _, hattributes, _, _, ⟨parsed, source⟩, hparsed, store, hstore,
      hrest⟩ := h
    rcases ih hrest with hc | hc
    · have hkind : value.partitioned = parsed.partitioned := by
        rw [← (parseRecord_ok hparsed).2.2.2.2]
        rfl
      rw [hkind] at hc hstore
      rcases mem_set_insertOrDelete hstore hc with hc | ⟨rfl, hp, hexpired, _⟩
      · exact .inl hc
      · exact .inr ⟨hp, hexpired, value, candidate, source, hpair, hattributes, hparsed⟩
    · exact .inr hc

theorem importSnapshot_cases {x : Crates} {j after : Jar} {now : ℤ} {snapshot : CookieSnapshot}
    {origins : List String} (h : j.importSnapshot x now snapshot origins = .ok after) :
    ∃ urls stores, parseOrigins x origins = .ok urls ∧
      importLoop x j.limits now urls snapshot.cookies [] 0 .empty = .ok stores ∧
      checkBounds j.limits now stores = .ok () ∧ after = { j with stores := stores } := by
  simp only [Jar.importSnapshot, bind_ok] at h
  obtain ⟨_, _, _, _, urls, hurls, stores, hloop, _, hbounds, hafter⟩ := h
  cases hafter
  exact ⟨urls, stores, hurls, hloop, hbounds, rfl⟩

/-- A cookie that a successful call left in the jar was there before or is fresh. -/
theorem perform_mem {x : Crates} {origins : List String} {j after : Jar} {call : Call}
    {p : Bool} {c : Cookie} (h : perform x origins j call = .ok after)
    (hc : c ∈ (after.stores.get p).cookies) :
    c ∈ (j.stores.get p).cookies ∨ (p = c.partitioned ∧ Fresh x origins call c) := by
  -- the two calls that receive cookies end in `apply` on a validated URL
  have receive : ∀ now url texts ignoreInvalid u, call.received = some (now, url, texts) →
      validateOrigin x url origins = .ok u → j.apply x now u texts ignoreInvalid = .ok after →
      c ∈ (j.stores.get p).cookies ∨ (p = c.partitioned ∧ Fresh x origins call c) := by
    intro now url texts ignoreInvalid u hcall hvalid happly
    rcases apply_cases happly with rfl | ⟨stores, hloop, _, rfl⟩
    · exact .inl hc
    · rcases applyLoop_mem hloop hc with hc | ⟨hp, _, haccepts, text, htext, before, hparsed⟩
      · exact .inl (mem_liveCopy.mp hc).1
      · exact .inr ⟨hp, .received now url text texts u before hcall htext hvalid hparsed haccepts⟩
  cases call with
  | set now url cookies =>
    obtain ⟨u, hvalid, hset⟩ := bind_ok.mp h
    exact receive now url cookies false u rfl hvalid hset
  | absorb now url headers =>
    obtain ⟨u, hvalid, habsorb⟩ := bind_ok.mp h
    obtain ⟨strings, hstrings, happly⟩ := bind_ok.mp habsorb
    rw [absorbLoop_ok hstrings] at happly
    exact receive now url (headers.filterMap toStr) true u rfl hvalid happly
  | importSnapshot now snapshot =>
    obtain ⟨urls, stores, hurls, hloop, _, rfl⟩ := importSnapshot_cases h
    rcases importLoop_mem hloop hc with hc | ⟨hp, _, value, before, source, hpair, hattributes,
      hparsed⟩
    · exact absurd hc mem_empty
    · exact .inr ⟨hp, .imported now snapshot value urls before source rfl hurls hpair hattributes
        hparsed⟩

theorem apply_bounds {x : Crates} {j after : Jar} {now : ℤ} {u : Url} {texts : List String}
    {ignoreInvalid : Bool} (h : j.apply x now u texts ignoreInvalid = .ok after) :
    after = j ∨ ∃ stores, after = { j with stores := stores } ∧
      checkBounds j.limits now stores = .ok () ∧
      ∀ p, ∀ c ∈ (stores.get p).cookies, c.expired now = false := by
  rcases apply_cases h with rfl | ⟨stores, hloop, hbounds, rfl⟩
  · exact .inl rfl
  · refine .inr ⟨stores, rfl, hbounds, ?_⟩
    intro p c hc
    rcases applyLoop_mem hloop hc with hc | ⟨_, halive, _⟩
    · exact (mem_liveCopy.mp hc).2
    · exact halive

theorem importSnapshot_bounds {x : Crates} {j after : Jar} {now : ℤ} {snapshot : CookieSnapshot}
    {origins : List String} (h : j.importSnapshot x now snapshot origins = .ok after) :
    ∃ stores, after = { j with stores := stores } ∧ checkBounds j.limits now stores = .ok () ∧
      ∀ p, ∀ c ∈ (stores.get p).cookies, c.expired now = false := by
  obtain ⟨urls, stores, _, hloop, hbounds, rfl⟩ := importSnapshot_cases h
  refine ⟨stores, rfl, hbounds, ?_⟩
  intro p c hc
  rcases importLoop_mem hloop hc with hc | ⟨_, halive, _⟩
  · exact absurd hc mem_empty
  · exact halive

/-- A successful call keeps the jar or leaves cookies that are alive and within the limits. -/
theorem perform_bounds {x : Crates} {origins : List String} {j after : Jar} {call : Call}
    (h : perform x origins j call = .ok after) :
    after = j ∨ ∃ now stores, after = { j with stores := stores } ∧
      checkBounds j.limits now stores = .ok () ∧
      ∀ p, ∀ c ∈ (stores.get p).cookies, c.expired now = false := by
  have receive : ∀ now texts ignoreInvalid u, j.apply x now u texts ignoreInvalid = .ok after →
      after = j ∨ ∃ now stores, after = { j with stores := stores } ∧
        checkBounds j.limits now stores = .ok () ∧
        ∀ p, ∀ c ∈ (stores.get p).cookies, c.expired now = false := by
    intro now texts ignoreInvalid u happly
    rcases apply_bounds happly with hsame | hstores
    · exact .inl hsame
    · exact .inr ⟨now, hstores⟩
  cases call with
  | set now url cookies =>
    obtain ⟨u, _, hset⟩ := bind_ok.mp h
    exact receive now cookies false u hset
  | absorb now url headers =>
    obtain ⟨u, _, habsorb⟩ := bind_ok.mp h
    obtain ⟨strings, _, happly⟩ := bind_ok.mp habsorb
    exact receive now strings true u happly
  | importSnapshot now snapshot => exact .inr ⟨now, importSnapshot_bounds h⟩

/-- The rule for stored cookies: what holds of every fresh cookie of every call of a run
holds of every cookie in the jar at its end. -/
theorem run_stored {x : Crates} {origins : List String} {start j : Jar} {calls : List Call}
    {C : Call → Prop} {Q : Cookie → Prop}
    (fresh : ∀ call c, C call → Fresh x origins call c → Q c)
    (hstart : start.stores = .empty) (hcalls : ∀ call ∈ calls, C call)
    (h : (machine x origins start).run start calls = some j) :
    ∀ p, ∀ c ∈ (j.stores.get p).cookies, c.partitioned = p ∧ Q c := by
  apply Machine.run_preserves_along (C := fun _ call _ => C call)
    (P := fun j => ∀ p, ∀ c ∈ (j.stores.get p).cookies, c.partitioned = p ∧ Q c) _ _ _ h
  · intro j call after hj hcall hnext p c hc
    cases Option.some.inj hnext
    split at hc
    · next after hafter =>
      rcases perform_mem hafter hc with hc | ⟨hp, hfresh⟩
      · exact hj p c hc
      · exact ⟨hp.symm, fresh call c hcall hfresh⟩
    · exact hj p c hc
  · intro p c hc
    rw [hstart] at hc
    exact absurd hc mem_empty
  · exact Machine.along_of_mem fun call hcall _ _ => hcalls call hcall

def JarError (e : TransportError) : Prop := e.code = .invalidRequest ∨ e.code = .cookieLimit

private theorem jarError_invalid {message : String} : JarError (invalid message) := .inl rfl

private theorem jarError_of_limit {e : TransportError} (h : e = limit) : JarError e := by
  rw [h]
  exact .inr rfl

theorem addSize_fails {a b : ℕ} : FailsWith (· = limit) (addSize a b) := by
  unfold addSize
  split
  · exact .ok _
  · exact .error rfl

private theorem validatePair_fails {name value : String} :
    FailsWith (·.code = .invalidRequest) (validatePair name value) :=
  .bind (.rejectIf rfl) fun _ => .rejectIf rfl

private theorem validatePolicy_fails {x : Crates} {now : ℤ} {c : Cookie} {raw : RawCookie}
    {u : Url} {existing : Store} :
    FailsWith (·.code = .invalidRequest) (validatePolicy x now c raw u existing) :=
  .bind (.rejectIf rfl) fun _ => .bind (.rejectIf rfl) fun _ =>
    .bind (.rejectIf rfl) fun _ => .rejectIf rfl

private theorem insertOrDelete_fails {now : ℤ} {store : Store} {c : Cookie} {u : Url} :
    FailsWith JarError (insertOrDelete now store c u) := by
  unfold insertOrDelete
  split
  · exact .ok _
  · split
    · exact .ok _
    · exact .error jarError_invalid

theorem checkBounds_fails {l : Limits} {now : ℤ} {s : Stores} :
    FailsWith (· = limit) (checkBounds l now s) := by
  have hloop : ∀ cs index bytes, FailsWith (· = limit) (boundsLoop l cs index bytes) := by
    intro cs
    induction cs with
    | nil => exact fun _ _ => .ok ()
    | cons c cs ih =>
      exact fun _ _ => .bind addSize_fails fun _ => .bind (.rejectIf rfl) fun _ => ih _ _
  exact hloop _ _ _

theorem absorbLoop_fails {l : Limits} {headers : List HeaderValue} {index bytes : ℕ} :
    FailsWith (· = limit) (absorbLoop l headers index bytes) := by
  induction headers generalizing index bytes with
  | nil => exact .ok _
  | cons header headers ih =>
    exact .bind (.rejectIf rfl) fun _ => .bind addSize_fails fun _ =>
      .bind (.rejectIf rfl) fun _ => .bind ih fun _ => .ok _

/-- An entry that is not stored is invalid; the limits are checked elsewhere. -/
theorem parseEntry_fails {x : Crates} {now : ℤ} {u : Url} {candidate : Stores}
    {text : String} : FailsWith (·.code = .invalidRequest) (parseEntry x now u candidate text) := by
  refine .bind (.rejectIf rfl) fun _ => ?_
  split
  · exact .error rfl
  · refine .bind validatePair_fails fun _ => .bind (.rejectIf rfl) fun _ => ?_
    split
    · exact .error rfl
    · refine .bind validatePolicy_fails fun _ => ?_
      unfold canonicalCookie
      split
      · exact .ok _
      · exact .error rfl

private theorem applyLoop_fails {x : Crates} {l : Limits} {now : ℤ} {u : Url}
    {ignoreInvalid : Bool} {texts : List String} {index bytes : ℕ} {candidate : Stores} :
    FailsWith JarError (applyLoop x l now u ignoreInvalid texts index bytes candidate) := by
  induction texts generalizing index bytes candidate with
  | nil => exact .ok _
  | cons text texts ih =>
    refine .bind (addSize_fails.mono fun _ => jarError_of_limit) fun _ =>
      .bind (.rejectIf (jarError_of_limit rfl)) fun _ => .bind ?_ fun _ => ih
    unfold applyEntry
    split
    · next e he =>
      split
      · exact .ok _
      · exact .error (.inl (parseEntry_fails e he))
    · exact .bind insertOrDelete_fails fun _ => .ok _

theorem apply_fails {x : Crates} {j : Jar} {now : ℤ} {u : Url} {texts : List String}
    {ignoreInvalid : Bool} : FailsWith JarError (j.apply x now u texts ignoreInvalid) := by
  unfold Jar.apply
  split
  · exact .ok _
  · exact .bind applyLoop_fails fun _ =>
      .bind (checkBounds_fails.mono fun _ => jarError_of_limit) fun _ => .ok _

theorem absorb_fails {x : Crates} {j : Jar} {now : ℤ} {u : Url} {headers : List HeaderValue} :
    FailsWith JarError (j.absorb x now u headers) := by
  exact .bind (absorbLoop_fails.mono fun _ => jarError_of_limit) fun _ => apply_fails

private theorem parseRecord_fails {x : Crates} {now : ℤ} {urls : List Url} {candidate : Stores}
    {value : CookieRecord} : FailsWith JarError (parseRecord x now urls candidate value) := by
  unfold parseRecord
  split
  · exact .error jarError_invalid
  · refine .bind (.rejectIf jarError_invalid) fun _ => ?_
    split
    · exact .error jarError_invalid
    · exact .bind (validatePolicy_fails.mono fun _ => .inl) fun _ =>
        .bind (.rejectIf jarError_invalid) fun _ => .ok _

theorem importSnapshot_fails {x : Crates} {j : Jar} {now : ℤ} {snapshot : CookieSnapshot}
    {origins : List String} : FailsWith JarError (j.importSnapshot x now snapshot origins) := by
  have horigins : FailsWith JarError (parseOrigins x origins) := by
    induction origins with
    | nil => exact .ok _
    | cons o origins ih =>
      unfold parseOrigins
      split
      · exact .error jarError_invalid
      · exact .bind ih fun _ => .ok _
  have hloop : ∀ urls values keys bytes candidate,
      FailsWith JarError (importLoop x j.limits now urls values keys bytes candidate) := by
    intro urls values
    induction values with
    | nil => exact fun _ _ _ => .ok _
    | cons value values ih =>
      exact fun _ _ _ => .bind (addSize_fails.mono fun _ => jarError_of_limit) fun _ =>
        .bind (.rejectIf (jarError_of_limit rfl)) fun _ =>
        .bind (validatePair_fails.mono fun _ => .inl) fun _ =>
          .bind (.rejectIf jarError_invalid) fun _ => .bind (.rejectIf jarError_invalid) fun _ =>
            .bind parseRecord_fails fun _ =>
            .bind insertOrDelete_fails fun _ => ih _ _ _
  exact .bind (.rejectIf jarError_invalid) fun _ =>
    .bind (.rejectIf (jarError_of_limit rfl)) fun _ =>
    .bind horigins fun _ => .bind (hloop _ _ _ _ _) fun _ =>
      .bind (checkBounds_fails.mono fun _ => jarError_of_limit) fun _ => .ok _

end JarUpdates
