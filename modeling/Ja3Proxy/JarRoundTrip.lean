import Ja3Proxy.SnapshotImport

/-! The snapshot round trip of the managed jar.
A reachable jar can be exported and imported without loss exactly when each of its cookies
is portable: the import validator refuses semicolons in paths, dots at either end of a
domain and forbidden domains, and the writers let all three through. -/
namespace JarRoundTrip

open AllowedOrigins CookieModel ExceptRules JarPolicy JarUpdates ManagedJar SnapshotImport
  TransitionRuns TransportErrors

section Sorting

variable {α β κ : Type*} [LinearOrder κ]

/-- Sorting by a key that tells the elements apart does not depend on their order. -/
private theorem insertionSort_perm {key : α → κ} {l₁ l₂ : List α} (h : l₁.Perm l₂)
    (inj : ∀ a ∈ l₁, ∀ b ∈ l₁, key a = key b → a = b) :
    l₁.insertionSort (fun a b => key a ≤ key b) = l₂.insertionSort fun a b => key a ≤ key b := by
  have : IsTrans α fun a b => key a ≤ key b := ⟨fun _ _ _ hab hbc => hab.trans hbc⟩
  have : Std.Total fun a b : α => key a ≤ key b := ⟨fun a b => le_total (key a) (key b)⟩
  apply List.Perm.eq_of_pairwise _ (List.pairwise_insertionSort _ _)
    (List.pairwise_insertionSort _ _)
  · exact (List.perm_insertionSort _ _).trans (h.trans (List.perm_insertionSort _ _).symm)
  · intro a b ha hb hab hba
    rw [List.mem_insertionSort] at ha hb
    exact inj a ha b (h.mem_iff.mpr hb) (le_antisymm hab hba)

private theorem insertionSort_map {key : α → κ} {f : β → α} {g : β → κ}
    (h : ∀ b, key (f b) = g b) (l : List β) :
    (l.map f).insertionSort (fun a b => key a ≤ key b) =
      (l.insertionSort fun a b => g a ≤ g b).map f := by
  symm
  apply List.map_insertionSort
  intro a _ b _
  rw [h, h]

end Sorting

def contents (s : Stores) : List Cookie := s.ordinary.cookies ++ s.chips.cookies

def Sorted (s : Stores) : Prop := ∀ p, ∀ c ∈ (s.get p).cookies, c.partitioned = p

theorem mem_contents {s : Stores} {c : Cookie} :
    c ∈ contents s ↔ ∃ p, c ∈ (s.get p).cookies := by
  simp [contents, Stores.get]

theorem unexpired_eq {s : Stores} {now : ℤ} (h : ∀ c ∈ contents s, c.expired now = false) :
    s.unexpired now = contents s := by
  rw [Stores.unexpired, Store.unexpired, Store.unexpired, ← List.filter_append]
  apply List.filter_eq_self.mpr
  intro c hc
  simp [h c hc]

theorem eq_of_record_key {s : Stores} (hs : Sorted s) {c d : Cookie} (hc : c ∈ contents s)
    (hd : d ∈ contents s) (h : (record c).key = (record d).key) : c = d := by
  obtain ⟨hkey, hkind⟩ := record_key_eq.mp h
  obtain ⟨p, hp⟩ := mem_contents.mp hc
  obtain ⟨q, hq⟩ := mem_contents.mp hd
  have hpq : p = q := by
    rw [← hs p c hp, ← hs q d hq]
    exact hkind
  subst hpq
  exact Store.eq_of_key hp hq hkey

theorem contents_nodup {s : Stores} (hs : Sorted s) : (contents s).Nodup := by
  rw [contents, List.nodup_append]
  refine ⟨List.Nodup.of_map _ s.ordinary.nodup, List.Nodup.of_map _ s.chips.nodup, ?_⟩
  intro c hc d hd heq
  subst heq
  have hfalse := hs false c hc
  have htrue := hs true c hd
  rw [hfalse] at htrue
  cases htrue

theorem loaded_perm {cs : List Cookie} {s : Stores} (h : Loaded cs s) :
    (contents s).Perm (cs.map floored) := by
  have hordinary := h false
  have hchips := h true
  simp only [Stores.get, Bool.false_eq_true, if_false, if_true] at hordinary hchips
  rw [contents, hordinary, hchips, ← List.map_append]
  apply List.Perm.map
  have hsplit := List.filter_append_perm (fun c : Cookie => c.partitioned == false) cs
  simpa using hsplit

private theorem prefix_of_pathMatch {path : String} {u : Url} (h : pathMatch path u = true) :
    path.toList <+: u.path.toList := by
  simp only [pathMatch, Bool.or_eq_true, Bool.and_eq_true, beq_iff_eq] at h
  rcases h with rfl | ⟨h, _⟩
  · exact List.prefix_rfl
  · exact List.isPrefixOf_iff_prefix.mp h

private theorem eq_of_prefix_size {p q : String} (h : p.toList <+: q.toList)
    (hsize : p.utf8ByteSize = q.utf8ByteSize) : p = q := by
  obtain ⟨rest, hrest⟩ := h
  have hq : q = p ++ String.ofList rest := by
    apply String.toList_injective
    rw [String.toList_append, String.toList_ofList, hrest]
  have hempty : (String.ofList rest).utf8ByteSize = 0 := by
    have := congrArg String.utf8ByteSize hq
    rw [String.utf8ByteSize_append] at this
    omega
  rw [hq, String.utf8ByteSize_eq_zero_iff.mp hempty, String.append_empty]

/-- Two paths of one length that match a URL are the same path. -/
private theorem path_eq_of_match {p q : String} {u : Url} (hp : pathMatch p u = true)
    (hq : pathMatch q u = true) (hsize : p.utf8ByteSize = q.utf8ByteSize) : p = q := by
  rcases List.prefix_or_prefix_of_prefix (prefix_of_pathMatch hp)
    (prefix_of_pathMatch hq) with h | h
  · exact eq_of_prefix_size h hsize
  · exact (eq_of_prefix_size h hsize.symm).symm

private theorem rank_injective {c d : CookieDomain}
    (h : ManagedJar.CookieDomain.rank c = ManagedJar.CookieDomain.rank d) : c = d := by
  cases c <;> cases d <;> simp_all [ManagedJar.CookieDomain.rank]

theorem eq_of_sendKey {s : Stores} {x : Crates} {u : Url} (hs : Sorted s) {c d : Cookie}
    (hc : c ∈ (contents s).filter fun c => x.sends c u)
    (hd : d ∈ (contents s).filter fun c => x.sends c u) (h : sendKey c = sendKey d) : c = d := by
  obtain ⟨hc, hcu⟩ := List.mem_filter.mp hc
  obtain ⟨hd, hdu⟩ := List.mem_filter.mp hd
  simp only [Crates.sends, Bool.and_eq_true] at hcu hdu
  simp only [sendKey, EmbeddingLike.apply_eq_iff_eq, Prod.mk.injEq] at h
  obtain ⟨hsize, hname, hdomain, hkind⟩ := h
  apply eq_of_record_key hs hc hd
  rw [record_key_eq, Cookie.key, Cookie.key, rank_injective hdomain, hname,
    path_eq_of_match hcu.1.2 hdu.1.2 hsize]
  exact ⟨rfl, hkind⟩

theorem sorted_eq {j : Jar} {x : Crates} {now : ℤ} {u : Url}
    (h : ∀ c ∈ contents j.stores, c.expired now = false) :
    j.sorted x now u = ((contents j.stores).filter fun c => x.sends c u).insertionSort
      fun a b => sendKey a ≤ sendKey b := by
  have hunexpired := unexpired_eq h
  rw [Stores.unexpired] at hunexpired
  rw [Jar.sorted, Store.selected, Store.selected, ← List.filter_append, hunexpired]

theorem sendKey_floored (c : Cookie) : sendKey (floored c) = sendKey c := rfl

theorem joinPairs_floored (cs : List Cookie) : joinPairs (cs.map floored) = joinPairs cs := by
  induction cs with
  | nil => rfl
  | cons c cs ih =>
    cases cs with
    | nil => rfl
    | cons d cs =>
      simp only [List.map_cons, joinPairs] at ih ⊢
      rw [ih]
      rfl

/-- Jars with the same cookies up to milliseconds of expiry send the same header. -/
theorem header_eq {j k : Jar} {x : Crates} {now : ℤ} (hj : Sorted j.stores)
    (halive : ∀ c ∈ contents j.stores, c.expired now = false)
    (halive' : ∀ c ∈ contents k.stores, c.expired now = false)
    (h : (contents k.stores).Perm ((contents j.stores).map floored)) (u : Url) :
    k.header x now u = j.header x now u := by
  have hsends : (fun c => x.sends c u) ∘ floored = fun c => x.sends c u := rfl
  have hsorted : k.sorted x now u = (j.sorted x now u).map floored := by
    rw [sorted_eq halive, sorted_eq halive', ← insertionSort_map sendKey_floored]
    have hperm := h.filter fun c => x.sends c u
    rw [List.filter_map, hsends] at hperm
    symm
    apply insertionSort_perm hperm.symm
    intro a ha b hb hab
    obtain ⟨c, hc, rfl⟩ := List.mem_map.mp ha
    obtain ⟨d, hd, rfl⟩ := List.mem_map.mp hb
    rw [eq_of_sendKey hj hc hd hab]
  unfold Jar.header
  rw [hsorted]
  cases j.sorted x now u with
  | nil => rfl
  | cons c cs => exact congrArg some (joinPairs_floored (c :: cs))

theorem export_cookies {j : Jar} {now : ℤ} (h : ∀ c ∈ contents j.stores, c.expired now = false) :
    (j.exportSnapshot now).cookies = ((contents j.stores).insertionSort
      fun a b => (record a).key ≤ (record b).key).map record := by
  rw [Jar.exportSnapshot, unexpired_eq h]
  exact insertionSort_map (fun _ => rfl) _

theorem export_eq {j k : Jar} {now : ℤ} (hj : Sorted j.stores)
    (halive : ∀ c ∈ contents j.stores, c.expired now = false)
    (halive' : ∀ c ∈ contents k.stores, c.expired now = false)
    (h : (contents k.stores).Perm ((contents j.stores).map floored))
    (hkey : k.partitionKey = j.partitionKey) : k.exportSnapshot now = j.exportSnapshot now := by
  have hrecords : ((contents k.stores).map record).Perm ((contents j.stores).map record) := by
    have hmap := h.map record
    rw [List.map_map] at hmap
    simpa [Function.comp_def] using hmap
  simp only [Jar.exportSnapshot, unexpired_eq halive, unexpired_eq halive', hkey]
  congr 1
  symm
  apply insertionSort_perm hrecords.symm
  intro a ha b hb hab
  obtain ⟨c, hc, rfl⟩ := List.mem_map.mp ha
  obtain ⟨d, hd, rfl⟩ := List.mem_map.mp hb
  rw [eq_of_record_key hj hc hd hab]

/-- A fresh jar with the same limits and partition key imports the export of `j`, exports
the same snapshot and sends the same header to every URL. -/
def RoundTrip (x : Crates) (now : ℤ) (origins : List String) (j : Jar) : Prop :=
  ∃ k, (Jar.new j.limits j.partitionKey).importSnapshot x now (j.exportSnapshot now) origins =
      .ok k ∧ k.exportSnapshot now = j.exportSnapshot now ∧
    ∀ u, k.header x now u = j.header x now u

structure Sound (x : Crates) (origins : List String) (j : Jar) : Prop where
  sorted : Sorted j.stores
  rules : ∀ c ∈ contents j.stores, Rules x origins c ∧ Shape x origins c
  within : Within j.limits (contents j.stores)

theorem parseOrigins_ok {x : Crates} {key : String} {origins : List String} (law : Lawful x)
    (bound : Bound x key origins) : ∃ urls, parseOrigins x origins = .ok urls := by
  induction origins with
  | nil => exact ⟨[], rfl⟩
  | cons o origins ih =>
    obtain ⟨a, ha, rfl, _⟩ := bound o List.mem_cons_self
    obtain ⟨v, hv, _⟩ := law.origin_parses a ha
    obtain ⟨urls, hurls⟩ := ih fun o ho => bound o (List.mem_cons_of_mem _ ho)
    exact ⟨v :: urls, by simp [parseOrigins, hv, hurls, Except.bind]⟩

private theorem within_floored {l : Limits} {cs : List Cookie} (h : Within l cs) :
    Within l (cs.map floored) := by
  have htotal : totalSize (cs.map floored) = totalSize cs := by
    clear h
    induction cs with
    | nil => rfl
    | cons c cs ih => simp [totalSize, ih]
  refine ⟨by simpa using h.count, ?_, htotal ▸ h.bytes, htotal ▸ h.word⟩
  intro c hc
  obtain ⟨d, hd, rfl⟩ := List.mem_map.mp hc
  exact h.size d hd

theorem roundTrip_of_portable {x : Crates} {key : String} {origins : List String} {now : ℤ}
    {j : Jar} (law : Lawful x) (bound : Bound x key origins) (sound : Sound x origins j)
    (hearly : ∀ c ∈ contents j.stores, Early now c)
    (hport : ∀ c ∈ contents j.stores, Portable x c) : RoundTrip x now origins j := by
  obtain ⟨urls, hurls⟩ := parseOrigins_ok law bound
  have halive : ∀ c ∈ contents j.stores, c.expired now = false :=
    fun c hc => (hearly c hc).unexpired
  -- the records arrive in the order of their keys
  have hperm := List.perm_insertionSort (fun a b : Cookie => (record a).key ≤ (record b).key)
    (contents j.stores)
  have hexport := export_cookies halive
  revert hexport hperm
  generalize (contents j.stores).insertionSort
    (fun a b : Cookie => (record a).key ≤ (record b).key) = cs
  intro hperm hexport
  have hkeys : (cs.map fun c => (record c).key).Nodup := by
    apply List.Nodup.map_on _ (hperm.nodup_iff.mpr (contents_nodup sound.sorted))
    intro c hc d hd h
    exact eq_of_record_key sound.sorted (hperm.mem_iff.mp hc) (hperm.mem_iff.mp hd) h
  have hwithin : Within j.limits cs := sound.within.perm hperm.symm
  obtain ⟨stores, hloop, hloaded⟩ : ∃ stores, importLoop x j.limits now urls (cs.map record) [] 0
      .empty = .ok stores ∧ Loaded cs stores := by
    refine importLoop_loads [] cs hurls ?_ ?_ hkeys hwithin ?_
    · intro c hc
      have hc := hperm.mem_iff.mp hc
      exact ⟨(sound.rules c hc).1, (sound.rules c hc).2, hearly c hc⟩
    · intro c hc
      exact hport c (hperm.mem_iff.mp hc)
    · intro p
      cases p <;> rfl
  have hcontents : (contents stores).Perm ((contents j.stores).map floored) :=
    (loaded_perm hloaded).trans (hperm.map floored)
  have halive' : ∀ c ∈ contents stores, c.expired now = false := by
    intro c hc
    obtain ⟨d, hd, rfl⟩ := List.mem_map.mp (hcontents.mem_iff.mp hc)
    exact (hearly d hd).floored_unexpired
  have hbounds : checkBounds j.limits now stores = .ok () := by
    rw [checkBounds_ok_iff, unexpired_eq halive']
    exact (within_floored hwithin).perm (loaded_perm hloaded).symm
  refine ⟨{ Jar.new j.limits j.partitionKey with stores := stores }, ?_,
    export_eq sound.sorted halive halive' hcontents rfl,
    header_eq sound.sorted halive halive' hcontents⟩
  have hcount : (j.exportSnapshot now).cookies.length ≤ j.limits.maxCookies := by
    rw [hexport, List.length_map]
    exact hwithin.count
  rw [← hexport] at hloop
  refine bind_ok.mpr ⟨(), rejectIf_ok.mpr (by simp [Jar.exportSnapshot, Jar.new]), bind_ok.mpr
    ⟨(), rejectIf_ok.mpr (decide_eq_false (not_lt.mpr hcount)),
      bind_ok.mpr ⟨urls, hurls, bind_ok.mpr
      ⟨stores, hloop, bind_ok.mpr ⟨(), hbounds, rfl⟩⟩⟩⟩⟩

private theorem importLoop_records {x : Crates} {l : Limits} {now : ℤ} {urls : List Url}
    {values : List CookieRecord} {keys : List RecordKey} {bytes : ℕ} {candidate after : Stores}
    (h : importLoop x l now urls values keys bytes candidate = .ok after) :
    ∀ value ∈ values, invalidAttributes value = false ∧
      ∃ before parsed source, parseRecord x now urls before value = .ok (parsed, source) := by
  induction values generalizing keys bytes candidate with
  | nil => simp
  | cons value values ih =>
    simp only [importLoop, bind_ok, rejectIf_ok] at h
    obtain ⟨_, _, _, _, _, _, _, hattributes, _, _, ⟨parsed, source⟩, hparsed, _, _, hrest⟩ := h
    intro v hv
    rcases List.mem_cons.mp hv with rfl | hv
    · exact ⟨hattributes, candidate, parsed, source, hparsed⟩
    · exact ih hrest v hv

/-- A record that is accepted is the record of portable cookies only. -/
theorem portable_of_record {x : Crates} {now : ℤ} {urls : List Url} {before : Stores}
    {c parsed : Cookie} {source : Url} (hattributes : invalidAttributes (record c) = false)
    (h : parseRecord x now urls before (record c) = .ok (parsed, source)) : Portable x c := by
  obtain ⟨_, _, _, hpolicy, hrecord⟩ := parseRecord_ok h
  have hdomain : parsed.domain = c.domain := by
    rw [← recordDomain_record parsed, hrecord, recordDomain_record]
  simp only [invalidAttributes, record, Bool.or_eq_false_iff] at hattributes
  obtain ⟨⟨⟨⟨_, hchars⟩, _⟩, hhead⟩, hlast⟩ := hattributes
  refine ⟨?_, hhead, hlast, ?_⟩
  · intro hmem
    simpa using List.any_eq_false.mp hchars ';' hmem
  · intro d hd
    exact (validatePolicy_ok hpolicy).1 d (hdomain.trans hd)

theorem portable_of_roundTrip {x : Crates} {origins : List String} {now : ℤ} {j : Jar}
    (hearly : ∀ c ∈ contents j.stores, Early now c) (h : RoundTrip x now origins j) :
    ∀ c ∈ contents j.stores, Portable x c := by
  obtain ⟨k, himport, _⟩ := h
  obtain ⟨urls, stores, _, hloop, _⟩ := importSnapshot_cases himport
  intro c hc
  have hmem : record c ∈ (j.exportSnapshot now).cookies := by
    rw [export_cookies fun c hc => (hearly c hc).unexpired]
    exact List.mem_map_of_mem ((List.mem_insertionSort _).mpr hc)
  obtain ⟨hattributes, before, parsed, source, hparsed⟩ := importLoop_records hloop _ hmem
  exact portable_of_record hattributes hparsed

/-- The string leaves a portable cookie: no semicolon in its path, no dot at either end of
the host it is bound to, no further dot in front of its domain. -/
def portableEntry (x : Crates) (u : Url) (text : String) : Bool :=
  match x.parseCookie text with
  | none => true
  | some raw => !(resolvePath raw u).toList.contains ';' &&
      match x.resolveDomain raw u with
      | some (.hostOnly host) => !startsWith host '.' && !endsWith host '.'
      | some (.suffix d) => !startsWith d '.'
      | none => true

def callPortable (x : Crates) (call : Call) : Bool :=
  call.received.all fun (_, url, texts) =>
    (x.parseUrl url).all fun u => texts.all (portableEntry x u)

theorem received_portable {x : Crates} {now : ℤ} {u : Url} {before : Stores} {text : String}
    {c : Cookie} (law : Lawful x) (h : parseEntry x now u before text = .ok c)
    (hentry : portableEntry x u text = true) : Portable x c := by
  obtain ⟨raw, parsed, _, hraw, _, _, hparsed, hpolicy, hc⟩ := parseEntry_ok h
  obtain ⟨hfirst, hfields⟩ := tryFromRawCookie_ok hparsed
  have hpath : parsed.path = resolvePath raw u := by rw [hfields]
  have hroot : startsWith parsed.path '/' = true := by
    rw [hpath]
    exact resolvePath_rooted raw u
  have heq := canonical_eq hroot hc
  have hsecond := (tryFromRawCookie_ok hc).1
  simp only [portableEntry, hraw, hfirst, Bool.and_eq_true, Bool.not_eq_true',
    List.contains_eq_mem, decide_eq_false_iff_not] at hentry
  have hsemicolon : ';' ∉ c.path.toList := by
    rw [heq, hpath]
    exact hentry.1
  have hedges := hentry.2
  -- the second parse keeps the domain in both cases
  have hsame : c.domain = parsed.domain := by
    cases hkind : parsed.domain with
    | hostOnly host =>
      have haccepts := resolveDomain_accepts hfirst
      simp only [hkind, CookieDomain.accepts, beq_iff_eq] at haccepts
      rw [resolveDomain_hostOnly (by simp [RawCookie.domain, rebuild, hkind])] at hsecond
      rw [← Option.some.inj hsecond, haccepts]
    | suffix d =>
      simp only [hkind, Bool.not_eq_true'] at hedges
      rw [hkind] at hfirst
      obtain ⟨hne, hascii⟩ := suffix_ascii law hfirst
      have haccepts := resolveDomain_accepts hfirst
      have hattr : (rebuild parsed).domain = some d := by
        simp [RawCookie.domain, rebuild, hkind, hedges]
      simp only [Crates.resolveDomain, hattr, hascii, hne, haccepts, if_true, if_false] at hsecond
      exact (Option.some.inj hsecond).symm
  have hpermitted := (validatePolicy_ok hpolicy).1
  rw [← hsame] at hedges hpermitted
  cases hkind : c.domain with
  | hostOnly host =>
    simp only [hkind, Bool.and_eq_true, Bool.not_eq_true'] at hedges
    exact ⟨hsemicolon, by simp [hkind, CookieDomain.text, hedges.1],
      by simp [hkind, CookieDomain.text, hedges.2], by simp [hkind]⟩
  | suffix d =>
    simp only [hkind, Bool.not_eq_true'] at hedges
    have hfree := hpermitted d hkind
    simp only [forbiddenDomain, Bool.or_eq_false_iff] at hfree
    refine ⟨hsemicolon, by simp [hkind, CookieDomain.text, hedges],
      by simp [hkind, CookieDomain.text, hfree.1.2], ?_⟩
    intro d' hd'
    exact hpermitted d' hd'

theorem fresh_portable {x : Crates} {origins : List String} {call : Call} {c : Cookie}
    (law : Lawful x) (hcall : callPortable x call = true) (h : Fresh x origins call c) :
    Portable x c := by
  cases h with
  | received now url text texts u before hreceived htext hvalid hparsed _ =>
    apply received_portable law hparsed
    obtain ⟨hurl, _⟩ := validateOrigin_parse hvalid
    simp only [callPortable, hreceived, Option.all_some, hurl, List.all_eq_true] at hcall
    exact hcall text htext
  | imported now snapshot value urls before source _ _ _ hattributes hparsed =>
    have hrecord := (parseRecord_ok hparsed).2.2.2.2
    rw [← hrecord] at hattributes hparsed
    exact portable_of_record hattributes hparsed

section Runs

variable {x : Crates} {key : String} {origins : List String} {limits : Limits}
  {calls : List Call} {j : Jar}

private theorem within_step {s t : Jar} {call : Call} (hs : Within s.limits (contents s.stores))
    (h : (machine x origins (.new limits key)).next s call = some t) :
    Within t.limits (contents t.stores) := by
  cases Option.some.inj h
  split
  · next after hafter =>
    rcases perform_bounds hafter with rfl | ⟨now, stores, rfl, hbounds, halive⟩
    · exact hs
    · rw [checkBounds_ok_iff, unexpired_eq] at hbounds
      · exact hbounds
      · intro c hc
        obtain ⟨p, hp⟩ := mem_contents.mp hc
        exact halive p c hp
  · exact hs

theorem run_sound (law : Lawful x) (bound : Bound x key origins)
    (hrun : (machine x origins (.new limits key)).run (.new limits key) calls = some j) :
    Sound x origins j := by
  have hstored := run_stored (C := fun _ => True)
    (fun call c _ hfresh => fresh_stored law bound hfresh) rfl (fun _ _ => trivial) hrun
  refine ⟨fun p c hc => (hstored p c hc).1, ?_, ?_⟩
  · intro c hc
    obtain ⟨p, hp⟩ := mem_contents.mp hc
    exact (hstored p c hp).2
  · apply Machine.run_preserves (P := fun j => Within j.limits (contents j.stores))
      (fun _ _ _ hs hn => within_step hs hn) _ hrun
    exact ⟨Nat.zero_le _, by simp [contents, Jar.new, Stores.empty, Store.empty], Nat.zero_le _,
      Nat.two_pow_pos 64⟩

end Runs

/-- A reachable jar survives the round trip exactly when its cookies are portable, and so it
does after every run of calls that leave portable cookies. -/
theorem snapshot_round_trip (x : Crates) (law : Lawful x) (spec : OriginSpec)
    (origins : List String) (key : String) (limits : Limits) (calls : List Call) (j : Jar)
    (now : ℤ) (hmode : spec.cookieMode = .managed)
    (horigins : normalizeOrigins x spec = .ok (origins, some key))
    (hrun : (machine x origins (.new limits key)).run (.new limits key) calls = some j)
    (hearly : ∀ c ∈ contents j.stores, Early now c) :
    (RoundTrip x now origins j ↔ ∀ c ∈ contents j.stores, Portable x c) ∧
      ((∀ call ∈ calls, callPortable x call = true) → RoundTrip x now origins j) := by
  have bound := normalizeOrigins_bound hmode horigins
  have sound := run_sound law bound hrun
  refine ⟨⟨portable_of_roundTrip hearly, roundTrip_of_portable law bound sound hearly⟩, ?_⟩
  intro hcalls
  apply roundTrip_of_portable law bound sound hearly
  intro c hc
  obtain ⟨p, hp⟩ := mem_contents.mp hc
  have hstored := run_stored (C := fun call => callPortable x call = true)
    (fun call c hcall hfresh => fresh_portable law hcall hfresh) rfl hcalls hrun
  exact (hstored p c hp).2

theorem snapshot_round_trip_two_cookies :
    ∃ j, (machine sampleCrates ["https://example.com"]
        (.new sampleLimits "https://example.com")).run
          (.new sampleLimits "https://example.com") sampleCalls = some j ∧
      (contents j.stores).length = 2 ∧ RoundTrip sampleCrates 1000 ["https://example.com"] j := by
  refine ⟨_, rfl, by decide, ?_⟩
  exact (snapshot_round_trip sampleCrates sampleCrates_lawful
    ⟨.managed, ["https://example.com"], 16⟩ ["https://example.com"] "https://example.com"
    sampleLimits sampleCalls _ 1000 rfl (by rfl) rfl (by decide)).2 (by decide)

/-- Without a `Path` the cookie takes the directory `/a;b` of its URL, which `import` refuses. -/
theorem semicolon_path_not_imported :
    ¬ ∀ (spec : OriginSpec) (origins : List String) (key : String) (calls : List Call) (j : Jar)
      (now : ℤ), spec.cookieMode = .managed →
      normalizeOrigins sampleCrates spec = .ok (origins, some key) →
      (machine sampleCrates origins (.new sampleLimits key)).run (.new sampleLimits key) calls =
        some j →
      (∀ c ∈ contents j.stores, Early now c) → RoundTrip sampleCrates now origins j := by
  intro h
  have htrip := h ⟨.managed, ["https://example.com"], 16⟩ ["https://example.com"]
    "https://example.com" [.set 0 "https://example.com/a;b/c" ["sid=1"]] _ 0 rfl (by rfl) rfl
    (by decide)
  have hport := portable_of_roundTrip (by decide) htrip
    { name := "sid", value := "1", domain := .hostOnly "example.com", path := "/a;b",
      secure := false, httpOnly := false, partitioned := false, sameSite := none,
      expires := none } (by decide)
  exact hport.path (by decide)

end JarRoundTrip
