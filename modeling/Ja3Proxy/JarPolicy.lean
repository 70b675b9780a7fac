import Ja3Proxy.JarUpdates

/-! The policy of the managed jar.
`validate_policy` inspects the cookie that was parsed, `canonical_cookie` parses it once
more, and the second parse leaves out one more leading dot of the domain. The policy of the
domain therefore holds in every run without such a dot in front of a forbidden domain. -/
namespace JarPolicy

open AllowedOrigins CookieModel ExceptRules JarUpdates ManagedJar TransitionRuns TransportErrors
open AsciiText (HeaderValue tokenChar)

/-- What the jar relies on in the packages outside the repository: a serialised origin
parses back, an encoded domain stays as it is, an attribute has no semicolon, and dates
are instants. -/
structure Lawful (x : Crates) : Prop where
  origin_parses : ∀ u, x.IsUrl u →
    ∃ v, x.parseUrl u.origin = some v ∧ v.scheme = u.scheme ∧ v.host = u.host
  ascii_idem : ∀ s d, x.domainToAscii s = some d → d.toList.all printable = true →
    x.domainToAscii d = some d
  path_chars : ∀ text raw path, x.parseCookie text = some raw → raw.path = some path →
    ∀ ch ∈ path.toList, ch ∈ text.toList ∧ ch ≠ ';'
  expires_le : ∀ text raw e, x.parseCookie text = some raw → raw.expires = some e →
    e ≤ lastInstant

theorem accepts_congr {d : CookieDomain} {u v : Url} (h : u.host = v.host) :
    d.accepts u = d.accepts v := by
  cases d <;> simp only [CookieDomain.accepts, h]

theorem accepts_printable {d : String} {u : Url} (h : (CookieDomain.suffix d).accepts u = true) :
    d.toList.all printable = true := by
  simp only [CookieDomain.accepts, suffixMatch, Bool.or_eq_true, Bool.and_eq_true,
    beq_iff_eq] at h
  rcases h with rfl | ⟨_, hsuffix, _⟩
  · exact u.host_printable
  · rw [List.all_eq_true]
    intro c hc
    exact List.all_eq_true.mp u.host_printable c
      ((List.isSuffixOf_iff_suffix.mp hsuffix).subset hc)

theorem resolveDomain_accepts {x : Crates} {raw : RawCookie} {u : Url} {d : CookieDomain}
    (h : x.resolveDomain raw u = some d) : d.accepts u = true := by
  unfold Crates.resolveDomain at h
  split at h
  · cases h
    simp [CookieDomain.accepts]
  · split at h
    · cases h
    · split at h
      · cases h
        simp [CookieDomain.accepts]
      · split at h
        · next haccepts =>
          cases h
          exact haccepts
        · cases h

theorem resolveDomain_suffix {x : Crates} {raw : RawCookie} {u : Url} {d : String}
    (h : x.resolveDomain raw u = some (.suffix d)) :
    d ≠ "" ∧ ∃ attr, raw.domain = some attr ∧ x.domainToAscii attr = some d := by
  unfold Crates.resolveDomain at h
  split at h
  · cases h
  · next attr hattr =>
    split at h
    · cases h
    · next found hfound =>
      split at h
      · cases h
      · next hne =>
        split at h
        · cases h
          exact ⟨hne, attr, hattr, hfound⟩
        · cases h

theorem resolveDomain_hostOnly {x : Crates} {raw : RawCookie} {u : Url}
    (h : raw.domain = none) : x.resolveDomain raw u = some (.hostOnly u.host.text) := by
  simp [Crates.resolveDomain, h]

private theorem mem_defaultPath {u : Url} {ch : Char} (h : ch ∈ (defaultPath u).toList) :
    ch = '/' ∨ ch ∈ u.path.toList := by
  simp only [defaultPath] at h
  split at h
  · exact .inl (by simpa using h)
  · simp only [String.toList_ofList, List.mem_reverse] at h
    have hdrop := (List.dropWhile_sublist _).subset (List.mem_of_mem_drop h)
    exact .inr (List.mem_reverse.mp hdrop)

/-- The directory of a rooted path is rooted. -/
private theorem defaultPath_rooted (u : Url) : startsWith (defaultPath u) '/' = true := by
  have hroot : u.path.toList.head? = some '/' := by simpa [startsWith] using u.path_rooted
  simp only [defaultPath, startsWith]
  split
  · rfl
  · next hdir =>
    rw [String.toList_ofList, beq_iff_eq]
    have hprefix : ((u.path.toList.reverse.dropWhile (· ≠ '/')).drop 1).reverse <+:
        u.path.toList := by
      rw [← List.reverse_suffix, List.reverse_reverse]
      exact (List.drop_suffix _ _).trans (List.dropWhile_suffix _)
    obtain ⟨rest, hrest⟩ := hprefix
    rw [← hrest, List.head?_append_of_ne_nil _ (by simpa using hdir)] at hroot
    exact hroot

theorem resolvePath_rooted (raw : RawCookie) (u : Url) :
    startsWith (resolvePath raw u) '/' = true := by
  unfold resolvePath
  split
  · split
    · assumption
    · exact defaultPath_rooted u
  · exact defaultPath_rooted u

theorem resolvePath_some {raw : RawCookie} {u : Url} {path : String} (h : raw.path = some path)
    (hroot : startsWith path '/' = true) : resolvePath raw u = path := by
  simp [resolvePath, h, hroot]

private theorem printable_not_control {ch : Char} (h : printable ch = true) :
    control ch = false := by
  simp only [printable, Bool.and_eq_true, decide_eq_true_eq, UInt32.lt_iff_toNat_lt] at h
  simp only [ManagedJar.control, Bool.or_eq_false_iff, decide_eq_false_iff_not,
    UInt32.lt_iff_toNat_lt, beq_eq_false_iff_ne]
  constructor
  · exact not_lt.mpr (le_of_lt h.1)
  · intro heq
    rw [heq] at h
    exact absurd h.2 (by decide)

theorem resolvePath_plain {raw : RawCookie} {u : Url}
    (h : ∀ path, raw.path = some path → ∀ ch ∈ path.toList, control ch = false) :
    ∀ ch ∈ (resolvePath raw u).toList, control ch = false := by
  have hdefault : ∀ ch ∈ (defaultPath u).toList, control ch = false := by
    intro ch hch
    rcases mem_defaultPath hch with rfl | hch
    · rfl
    · exact printable_not_control (List.all_eq_true.mp u.path_printable ch hch)
  unfold resolvePath
  split
  · next path hpath =>
    split
    · exact h path hpath
    · exact hdefault
  · exact hdefault

def Allowed (x : Crates) (origins : List String) (u : Url) : Prop :=
  ∃ a, x.IsUrl a ∧ a.origin ∈ origins ∧ u.scheme = a.scheme ∧ u.host = a.host

theorem allowed_of_validateOrigin {x : Crates} {origins : List String} {url : String} {u : Url}
    (h : validateOrigin x url origins = .ok u) : Allowed x origins u := by
  obtain ⟨hurl, horigin⟩ := validateOrigin_parse h
  exact ⟨u, ⟨url, hurl⟩, horigin, rfl, rfl⟩

theorem mem_parseOrigins {x : Crates} {origins : List String} {urls : List Url} {u : Url}
    (h : parseOrigins x origins = .ok urls) :
    u ∈ urls ↔ ∃ o ∈ origins, x.parseUrl o = some u := by
  induction origins generalizing urls with
  | nil =>
    cases h
    simp
  | cons o origins ih =>
    unfold parseOrigins at h
    split at h
    · cases h
    · next v hv =>
      obtain ⟨rest, hrest, hout⟩ := bind_ok.mp h
      cases hout
      rw [List.mem_cons, ih hrest, List.exists_mem_cons_iff, hv, Option.some.injEq, eq_comm]

section AllowedUrls

variable {x : Crates} {key : String} {origins : List String} {u : Url}

theorem allowed_of_parse (law : Lawful x) (bound : Bound x key origins) {o : String}
    (ho : o ∈ origins) (h : x.parseUrl o = some u) : Allowed x origins u := by
  obtain ⟨a, ha, rfl, _⟩ := bound o ho
  obtain ⟨v, hv, hscheme, hhost⟩ := law.origin_parses a ha
  cases Option.some.inj (h.symm.trans hv)
  exact ⟨a, ha, ho, hscheme, hhost⟩

/-- All allowed URLs have one scheme. -/
theorem Allowed.scheme_eq (bound : Bound x key origins) {v : Url} (hu : Allowed x origins u)
    (hv : Allowed x origins v) : u.scheme = v.scheme := by
  obtain ⟨a, _, ha, hua, _⟩ := hu
  obtain ⟨b, _, hb, hvb, _⟩ := hv
  rw [hua, hvb, bound.scheme_eq ha hb]

/-- What accepts an allowed URL accepts an allowed origin. -/
theorem Allowed.matched (law : Lawful x) (hu : Allowed x origins u) {d : CookieDomain}
    (h : d.accepts u = true) :
    ∃ o ∈ origins, ∃ v, x.parseUrl o = some v ∧ d.accepts v = true := by
  obtain ⟨a, ha, ho, _, hhost⟩ := hu
  obtain ⟨v, hv, _, hvhost⟩ := law.origin_parses a ha
  refine ⟨a.origin, ho, v, hv, ?_⟩
  rw [accepts_congr (hvhost.trans hhost.symm)]
  exact h

end AllowedUrls

def ValueOctets (value : String) : Prop :=
  ∃ octets : List Char, octets.all cookieOctet = true ∧
    (value.toList = octets ∨ value.toList = '"' :: (octets ++ ['"']))

structure Policy (x : Crates) (origins : List String) (c : Cookie) : Prop where
  name : c.name ≠ "" ∧ c.name.toList.all tokenChar = true
  value : ValueOctets c.value
  secure : c.partitioned = true ∨ c.sameSite = some .none ∨ securePrefix c.name = true →
    c.secure = true
  https : c.secure = true → ∀ o ∈ origins, ∀ v, x.parseUrl o = some v → v.scheme = .https
  host : hostPrefix c.name = true → (∃ h, c.domain = .hostOnly h) ∧ c.path = "/"
  http : httpPrefix c.name = true → c.httpOnly = true
  domain : ∀ d, c.domain = .suffix d →
    isIpAddr d = false ∧ endsWith d '.' = false ∧ x.suffixStr d ≠ some d
  matched : ∃ o ∈ origins, ∃ v, x.parseUrl o = some v ∧ c.domain.accepts v = true

structure Rules (x : Crates) (origins : List String) (c : Cookie) : Prop where
  pair : validatePair c.name c.value = .ok ()
  secure : c.partitioned = true ∨ c.sameSite = some .none ∨ securePrefix c.name = true →
    c.secure = true
  https : c.secure = true → ∀ o ∈ origins, ∀ v, x.parseUrl o = some v → v.scheme = .https
  host : hostPrefix c.name = true → (∃ h, c.domain = .hostOnly h) ∧ c.path = "/"
  http : httpPrefix c.name = true → c.httpOnly = true

private theorem valueOctets_of_valid {value : String} (h : validValue value = true) :
    ValueOctets value := by
  refine ⟨unquoted value, h, ?_⟩
  unfold unquoted
  split
  · next hquoted =>
    simp only [startsWith, endsWith, Bool.and_eq_true, beq_iff_eq, decide_eq_true_eq] at hquoted
    obtain ⟨⟨hhead, hlast⟩, hlength⟩ := hquoted
    right
    cases hchars : value.toList with
    | nil => simp [hchars] at hhead
    | cons first rest =>
      simp only [hchars, List.head?_cons, Option.some.injEq, List.length_cons] at hhead hlength
      have hrest : rest ≠ [] := by
        rintro rfl
        simp at hlength
      rw [hchars, List.getLast?_cons_of_ne_nil hrest] at hlast
      rw [hhead, List.tail_cons, List.dropLast_append_getLast? _ hlast]
  · exact .inl rfl

theorem validatePair_ok {name value : String} (h : validatePair name value = .ok ()) :
    (name ≠ "" ∧ name.toList.all tokenChar = true) ∧ ValueOctets value := by
  simp only [validatePair, bind_ok, rejectIf_ok, Bool.not_eq_false'] at h
  obtain ⟨_, hname, hvalue⟩ := h
  simp only [validName, AsciiText.isToken, Bool.and_eq_true, Bool.not_eq_true',
    List.isEmpty_eq_false_iff] at hname
  refine ⟨⟨?_, hname.2⟩, valueOctets_of_valid hvalue⟩
  rintro rfl
  exact hname.1 rfl

/-- What `validate_policy` decided, taken apart. -/
theorem validatePolicy_ok {x : Crates} {now : ℤ} {c : Cookie} {raw : RawCookie} {u : Url}
    {existing : Store} (h : validatePolicy x now c raw u existing = .ok ()) :
    (∀ d, c.domain = .suffix d → forbiddenDomain x d = false) ∧
      (c.partitioned = true ∨ c.sameSite = some .none ∨ securePrefix c.name = true →
        c.secure = true) ∧
      (c.secure = true → u.scheme = .https) ∧
      (hostPrefix c.name = true → raw.domain = none ∧ raw.path = some "/") ∧
      (httpPrefix c.name = true → c.httpOnly = true) := by
  simp only [validatePolicy, bind_ok, rejectIf_ok] at h
  obtain ⟨_, hdomain, _, hsecurity, _, hprefix, _⟩ := h
  simp only [Bool.or_eq_false_iff] at hsecurity hprefix
  obtain ⟨⟨hscheme, hsite⟩, hkind⟩ := hsecurity
  obtain ⟨⟨hname, hhost⟩, hhttp⟩ := hprefix
  refine ⟨?_, ?_, ?_, ?_, ?_⟩
  · intro d hd
    simpa [hd] using hdomain
  · rintro (h | h | h)
    · simpa [h] using hkind
    · simpa [h] using hsite
    · simp only [h, Bool.true_and, Bool.or_eq_false_iff, Bool.not_eq_false'] at hname
      exact hname.1
  · intro h
    simpa [h] using hscheme
  · intro h
    simpa [h] using hhost
  · intro h
    simpa [h] using hhttp

structure Shape (x : Crates) (origins : List String) (c : Cookie) : Prop where
  matched : ∃ o ∈ origins, ∃ v, x.parseUrl o = some v ∧ c.domain.accepts v = true
  path_rooted : startsWith c.path '/' = true
  path_plain : ∀ ch ∈ c.path.toList, ManagedJar.control ch = false
  ascii : ∀ d, c.domain = .suffix d → d ≠ "" ∧ x.domainToAscii d = some d
  expires : ∀ e, c.expires = some e → e ≤ lastInstant

section Building

variable {x : Crates} {key : String} {origins : List String} {now : ℤ} {raw : RawCookie}
  {u : Url} {c : Cookie}

theorem tryFromRawCookie_ok (h : x.tryFromRawCookie now raw u = some c) :
    x.resolveDomain raw u = some c.domain ∧ c = ⟨raw.name, raw.value, c.domain,
      resolvePath raw u, raw.secure, raw.httpOnly, raw.partitioned, raw.sameSite,
      resolveExpiry now raw⟩ := by
  obtain ⟨d, hd, rfl⟩ := Option.map_eq_some_iff.mp h
  exact ⟨hd, rfl⟩

theorem suffix_ascii (law : Lawful x) {d : String}
    (h : x.resolveDomain raw u = some (.suffix d)) : d ≠ "" ∧ x.domainToAscii d = some d := by
  obtain ⟨hne, attr, _, hascii⟩ := resolveDomain_suffix h
  exact ⟨hne, law.ascii_idem attr d hascii (accepts_printable (resolveDomain_accepts h))⟩

theorem shape_of_raw (law : Lawful x) (hu : Allowed x origins u)
    (h : x.tryFromRawCookie now raw u = some c)
    (hpath : ∀ path, raw.path = some path → ∀ ch ∈ path.toList, ManagedJar.control ch = false)
    (hexpiry : ∀ e, resolveExpiry now raw = some e → e ≤ lastInstant) : Shape x origins c := by
  obtain ⟨hdomain, hc⟩ := tryFromRawCookie_ok h
  constructor
  · exact hu.matched law (resolveDomain_accepts hdomain)
  · rw [hc]
    exact resolvePath_rooted raw u
  · rw [hc]
    exact resolvePath_plain hpath
  · intro d hd
    rw [hd] at hdomain
    exact suffix_ascii law hdomain
  · rw [hc]
    exact hexpiry

theorem rules_of_policy (law : Lawful x) (bound : Bound x key origins) (hu : Allowed x origins u)
    (h : x.tryFromRawCookie now raw u = some c) (hpair : validatePair raw.name raw.value = .ok ())
    {existing : Store} (hpolicy : validatePolicy x now c raw u existing = .ok ()) :
    Rules x origins c := by
  obtain ⟨hdomain, hc⟩ := tryFromRawCookie_ok h
  obtain ⟨_, hsecure, hhttps, hhost, hhttp⟩ := validatePolicy_ok hpolicy
  constructor
  · rw [hc]
    exact hpair
  · exact hsecure
  · intro h o ho v hv
    rw [← hhttps h]
    exact (allowed_of_parse law bound ho hv).scheme_eq bound hu
  · intro h
    obtain ⟨hnone, hroot⟩ := hhost h
    rw [resolveDomain_hostOnly hnone] at hdomain
    refine ⟨⟨_, (Option.some.inj hdomain).symm⟩, ?_⟩
    rw [hc]
    exact resolvePath_some hroot rfl
  · exact hhttp

/-- Parsing the rebuilt cookie changes at most its domain. -/
theorem canonical_eq (hroot : startsWith c.path '/' = true) {d : Cookie}
    (h : x.tryFromRawCookie now (rebuild c) u = some d) : d = { c with domain := d.domain } := by
  obtain ⟨_, hd⟩ := tryFromRawCookie_ok h
  rw [resolvePath_some rfl hroot] at hd
  exact hd

theorem parseEntry_ok {before : Stores} {text : String}
    (h : parseEntry x now u before text = .ok c) :
    ∃ raw parsed, text.toList.any ManagedJar.control = false ∧ x.parseCookie text = some raw ∧
      validatePair raw.name raw.value = .ok () ∧
      (∀ age, raw.maxAge = some age → now + age ≤ lastInstant) ∧
      x.tryFromRawCookie now raw u = some parsed ∧
      validatePolicy x now parsed raw u (before.get raw.partitioned) = .ok () ∧
      x.tryFromRawCookie now (rebuild parsed) u = some c := by
  simp only [parseEntry, bind_ok, rejectIf_ok] at h
  obtain ⟨_, hplain, h⟩ := h
  cases hraw : x.parseCookie text with
  | none => simp [hraw] at h
  | some raw =>
    simp only [hraw, bind_ok, rejectIf_ok] at h
    obtain ⟨_, hpair, _, hage, h⟩ := h
    cases hparsed : x.tryFromRawCookie now raw u with
    | none => simp [hparsed] at h
    | some parsed =>
      simp only [hparsed, bind_ok] at h
      obtain ⟨_, hpolicy, hcanonical⟩ := h
      refine ⟨raw, parsed, hplain, rfl, hpair, ?_, hparsed, hpolicy, ?_⟩
      · intro age hsome
        simp only [hsome, Option.any_some, Bool.or_eq_false_iff, decide_eq_false_iff_not] at hage
        exact not_lt.mp hage.2
      · unfold canonicalCookie at hcanonical
        split at hcanonical
        · next found hfound =>
          cases hcanonical
          exact hfound
        · cases hcanonical

theorem received_expiry (law : Lawful x) {text : String} (hraw : x.parseCookie text = some raw)
    (hage : ∀ age, raw.maxAge = some age → now + age ≤ lastInstant) :
    ∀ e, resolveExpiry now raw = some e → e ≤ lastInstant := by
  intro e he
  unfold resolveExpiry at he
  split at he
  · next age hsome =>
    cases he
    split
    · decide
    · exact hage age hsome
  · exact law.expires_le text raw e hraw he

/-- The stored form of a received cookie: the cookie that was checked, with the domain of
the second parse. -/
theorem received_stored (law : Lawful x) (bound : Bound x key origins) (hu : Allowed x origins u)
    {before : Stores} {text : String} (h : parseEntry x now u before text = .ok c) :
    Rules x origins c ∧ Shape x origins c := by
  obtain ⟨raw, parsed, hplain, hraw, hpair, hage, hparsed, hpolicy, hc⟩ := parseEntry_ok h
  have hpath : ∀ path, raw.path = some path →
      ∀ ch ∈ path.toList, ManagedJar.control ch = false := by
    intro path hsome ch hch
    have htext := (law.path_chars text raw path hraw hsome ch hch).1
    simpa using List.any_eq_false.mp hplain ch htext
  have hshape := shape_of_raw law hu hparsed hpath (received_expiry law hraw hage)
  have hrules := rules_of_policy law bound hu hparsed hpair hpolicy
  have heq := canonical_eq hshape.path_rooted hc
  constructor
  · constructor
    · rw [heq]
      exact hrules.pair
    · rw [heq]
      exact hrules.secure
    · rw [heq]
      exact hrules.https
    · intro hprefix
      rw [heq] at hprefix
      obtain ⟨⟨host, hhost⟩, hroot⟩ := hrules.host hprefix
      have hdomain := (tryFromRawCookie_ok hc).1
      rw [resolveDomain_hostOnly (by simp [RawCookie.domain, rebuild, hhost])] at hdomain
      refine ⟨⟨_, (Option.some.inj hdomain).symm⟩, ?_⟩
      rw [heq]
      exact hroot
    · rw [heq]
      exact hrules.http
  · apply shape_of_raw law hu hc
    · intro path hsome
      cases hsome
      exact hshape.path_plain
    · exact hshape.expires

theorem imported_stored (law : Lawful x) (bound : Bound x key origins) {urls : List Url}
    {before : Stores} {value : CookieRecord} {source : Url}
    (horigins : parseOrigins x origins = .ok urls)
    (hpair : validatePair value.name value.value = .ok ())
    (hattributes : invalidAttributes value = false)
    (h : parseRecord x now urls before value = .ok (c, source)) :
    Rules x origins c ∧ Shape x origins c := by
  obtain ⟨hsource, hexpiry, hparsed, hpolicy, _⟩ := parseRecord_ok h
  obtain ⟨o, ho, hparse⟩ := (mem_parseOrigins horigins).mp (List.mem_of_find?_eq_some hsource)
  have hu := allowed_of_parse law bound ho hparse
  refine ⟨rules_of_policy law bound hu hparsed hpair hpolicy, shape_of_raw law hu hparsed ?_ ?_⟩
  · intro path hsome ch hch
    cases hsome
    simp only [invalidAttributes, Bool.or_eq_false_iff] at hattributes
    have hplain := List.any_eq_false.mp hattributes.1.1.1.2 ch hch
    simp only [Bool.or_eq_true, not_or] at hplain
    exact Bool.eq_false_iff.mpr hplain.1
  · intro e he
    simp only [resolveExpiry, importRaw, Option.map_eq_some_iff] at he
    obtain ⟨ms, hms, rfl⟩ := he
    exact hexpiry ms hms

end Building

/-- Every cookie that a call stores keeps the rules and has the shape of a parsed cookie. -/
theorem fresh_stored {x : Crates} {key : String} {origins : List String} {call : Call}
    {c : Cookie} (law : Lawful x) (bound : Bound x key origins) (h : Fresh x origins call c) :
    Rules x origins c ∧ Shape x origins c := by
  cases h with
  | received now url text texts u before _ _ hvalid hparsed _ =>
    exact received_stored law bound (allowed_of_validateOrigin hvalid) hparsed
  | imported now snapshot value urls before source _ hurls hpair hattributes hparsed =>
    exact imported_stored law bound hurls hpair hattributes hparsed

/-- The domain attribute still has a leading dot when it is parsed, is permitted with it
and forbidden without it. -/
def hidesSuffix (x : Crates) (u : Url) (text : String) : Bool :=
  match x.parseCookie text with
  | none => false
  | some raw =>
    match x.resolveDomain raw u with
    | some (.suffix d) => startsWith d '.' && !forbiddenDomain x d &&
        (x.domainToAscii (String.ofList d.toList.tail)).any fun bare =>
          bare != "" && forbiddenDomain x bare
    | _ => false

def callHidesSuffix (x : Crates) (call : Call) : Bool :=
  call.received.any fun (_, url, texts) =>
    (x.parseUrl url).any fun u => texts.any (hidesSuffix x u)

theorem received_domain {x : Crates} {now : ℤ} {u : Url} {before : Stores} {text : String}
    {c : Cookie} (law : Lawful x) (h : parseEntry x now u before text = .ok c)
    (hdot : hidesSuffix x u text = false) :
    ∀ d, c.domain = .suffix d → forbiddenDomain x d = false := by
  intro d hd
  obtain ⟨raw, parsed, _, hraw, _, _, hparsed, hpolicy, hc⟩ := parseEntry_ok h
  have hfirst := (tryFromRawCookie_ok hparsed).1
  have hsecond := (tryFromRawCookie_ok hc).1
  rw [hd] at hsecond
  obtain ⟨hne, attr, hattr, hascii⟩ := resolveDomain_suffix hsecond
  -- the rebuilt cookie names a domain only if the checked one is a domain cookie
  cases hkind : parsed.domain with
  | hostOnly host => simp [RawCookie.domain, rebuild, hkind] at hattr
  | suffix checked =>
    have hpermitted := (validatePolicy_ok hpolicy).1 checked hkind
    rw [hkind] at hfirst
    simp only [RawCookie.domain, rebuild, hkind, Option.map_some, Option.some.injEq] at hattr
    by_cases hlead : startsWith checked '.' = true
    · rw [if_pos hlead] at hattr
      simpa [hidesSuffix, hraw, hfirst, hlead, hpermitted, hattr, hascii, hne] using hdot
    · rw [if_neg hlead] at hattr
      subst hattr
      have hsame := (suffix_ascii law hfirst).2.symm.trans hascii
      rw [← Option.some.inj hsame]
      exact hpermitted

theorem fresh_domain {x : Crates} {origins : List String} {call : Call} {c : Cookie}
    (law : Lawful x) (hdot : callHidesSuffix x call = false) (h : Fresh x origins call c) :
    ∀ d, c.domain = .suffix d → forbiddenDomain x d = false := by
  cases h with
  | received now url text texts u before hcall htext hvalid hparsed _ =>
    apply received_domain law hparsed
    obtain ⟨hurl, _⟩ := validateOrigin_parse hvalid
    simp only [callHidesSuffix, hcall, Option.any_some, hurl, List.any_eq_false] at hdot
    simpa using hdot text htext
  | imported now snapshot value urls before source _ _ _ _ hparsed =>
    exact (validatePolicy_ok (parseRecord_ok hparsed).2.2.2.1).1

/-- In every run of calls none of which hides a forbidden domain behind a dot, every cookie
in the jar keeps the policy and is in the store of its kind. -/
theorem jar_policy (x : Crates) (law : Lawful x) (spec : OriginSpec) (origins : List String)
    (key : String) (limits : Limits) (calls : List Call) (j : Jar)
    (hmode : spec.cookieMode = .managed)
    (horigins : normalizeOrigins x spec = .ok (origins, some key))
    (hdots : ∀ call ∈ calls, callHidesSuffix x call = false)
    (hrun : (machine x origins (.new limits key)).run (.new limits key) calls = some j) :
    ∀ p, ∀ c ∈ (j.stores.get p).cookies, c.partitioned = p ∧ Policy x origins c := by
  have bound := normalizeOrigins_bound hmode horigins
  apply run_stored (C := fun call => callHidesSuffix x call = false) _ rfl hdots hrun
  intro call c hdot hfresh
  obtain ⟨hrules, hshape⟩ := fresh_stored law bound hfresh
  obtain ⟨hname, hvalue⟩ := validatePair_ok hrules.pair
  refine ⟨hname, hvalue, hrules.secure, hrules.https, hrules.host, hrules.http, ?_,
    hshape.matched⟩
  intro d hd
  have hpermitted := fresh_domain law hdot hfresh d hd
  simp only [forbiddenDomain, Bool.or_eq_false_iff] at hpermitted
  obtain ⟨⟨⟨hip, _⟩, hend⟩, hsuffix⟩ := hpermitted
  refine ⟨hip, hend, ?_⟩
  intro hpublic
  simp [hpublic] at hsuffix

def labels (s : String) : List String := (splitOn '.' s.toList).map String.ofList

/-- Packages for finitely many texts. Domains are lower-case ASCII already, and a public
suffix is a single label. -/
def tableCrates (urls : List (String × Url)) (cookies : List (String × RawCookie)) : Crates where
  parseCookie text := cookies.lookup text
  parseUrl text := urls.lookup text
  domainToAscii domain := some domain
  suffixStr domain := if domain = "" then none else (labels domain).getLast?
  domainStr domain :=
    match (labels domain).reverse with
    | suffix :: label :: _ => some (label ++ "." ++ suffix)
    | _ => none
  sendsSecure u := u.scheme == .https

private theorem mem_of_lookup {β : Type*} {table : List (String × β)} {text : String} {b : β}
    (h : table.lookup text = some b) : (text, b) ∈ table := by
  induction table with
  | nil => cases h
  | cons row table ih =>
    obtain ⟨k, v⟩ := row
    rw [List.lookup_cons] at h
    split at h
    · next heq =>
      cases h
      rw [beq_iff_eq.mp heq]
      exact List.mem_cons_self
    · exact List.mem_cons_of_mem _ (ih h)

theorem tableCrates_lawful {urls : List (String × Url)} {cookies : List (String × RawCookie)}
    (hurls : ∀ row ∈ urls, ((urls.lookup row.2.origin).any fun v =>
      decide (v.scheme = row.2.scheme ∧ v.host = row.2.host)) = true)
    (hpaths : ∀ row ∈ cookies, (row.2.path.all fun path =>
      path.toList.all fun ch => row.1.toList.contains ch && ch != ';') = true)
    (hexpires : ∀ row ∈ cookies, (row.2.expires.all (· ≤ lastInstant)) = true) :
    Lawful (tableCrates urls cookies) := by
  constructor
  · rintro u ⟨text, hu⟩
    obtain ⟨v, hv, hsame⟩ := (Option.any_eq_true _ _).mp (hurls _ (mem_of_lookup hu))
    exact ⟨v, hv, of_decide_eq_true hsame⟩
  · intro _ _ _ _
    rfl
  · intro text raw path hraw hpath ch hch
    have hrow := hpaths _ (mem_of_lookup hraw)
    rw [hpath, Option.all_some] at hrow
    simpa using List.all_eq_true.mp hrow ch hch
  · intro text raw e hraw he
    have hrow := hexpires _ (mem_of_lookup hraw)
    rw [he, Option.all_some] at hrow
    exact of_decide_eq_true hrow

def sampleUrl (host path : String) (h : host ≠ "" ∧ host.toList.all printable = true ∧
    startsWith path '/' = true ∧ path.toList.all printable = true) : Url where
  scheme := .https
  host := .domain host
  port := none
  username := ""
  password := none
  path := path
  query := none
  fragment := none
  host_ne := h.1
  host_printable := h.2.1
  path_rooted := h.2.2.1
  path_printable := h.2.2.2

def plainCookie (name value : String) : RawCookie where
  name := name
  value := value
  domainAttr := none
  path := none
  secure := false
  httpOnly := false
  partitioned := false
  sameSite := none
  maxAge := none
  expires := none

def sampleUrls : List (String × Url) :=
  [("https://example.com", sampleUrl "example.com" "/" (by decide)),
    ("https://example.com/shop/cart", sampleUrl "example.com" "/shop/cart" (by decide)),
    ("https://example.com/a;b/c", sampleUrl "example.com" "/a;b/c" (by decide)),
    ("https://a..com", sampleUrl "a..com" "/" (by decide))]

def sampleCookies : List (String × RawCookie) :=
  [("sid=1", plainCookie "sid" "1"),
    ("__Host-id=2; Secure; Path=/",
      { plainCookie "__Host-id" "2" with secure := true, path := some "/" }),
    ("theme=dark; Domain=example.com; Max-Age=60",
      { plainCookie "theme" "dark" with
        domainAttr := some "example.com"
        maxAge := some 60000000000 }),
    ("sid=1; Domain=..com", { plainCookie "sid" "1" with domainAttr := some "..com" })]

def sampleCrates : Crates := tableCrates sampleUrls sampleCookies

theorem sampleCrates_lawful : Lawful sampleCrates :=
  tableCrates_lawful (by decide) (by decide) (by decide)

def sampleLimits : Limits := ⟨180, 65536, 4096⟩

def emptyJar : Jar := .new sampleLimits "https://example.com"

def sampleCalls : List Call :=
  [.set 0 "https://example.com/shop/cart" ["__Host-id=2; Secure; Path=/"],
    .set 0 "https://example.com/shop/cart" ["theme=dark; Domain=example.com; Max-Age=60"],
    .importSnapshot 0 ⟨"https://other.com", []⟩]

theorem jar_policy_two_cookies :
    ∃ j, (machine sampleCrates ["https://example.com"]
        (.new sampleLimits "https://example.com")).run
          (.new sampleLimits "https://example.com") sampleCalls = some j ∧
      j.stores.ordinary.cookies.length = 2 ∧
      ∀ p, ∀ c ∈ (j.stores.get p).cookies,
        c.partitioned = p ∧ Policy sampleCrates ["https://example.com"] c := by
  refine ⟨_, rfl, by decide, ?_⟩
  exact jar_policy sampleCrates sampleCrates_lawful ⟨.managed, ["https://example.com"], 16⟩
    ["https://example.com"] "https://example.com" sampleLimits sampleCalls _ rfl (by rfl)
    (by decide) rfl

/-- `Domain=..com` is checked as `.com` and stored as the public suffix `com`. -/
theorem public_suffix_stored :
    ¬ ∀ (spec : OriginSpec) (origins : List String) (key : String) (calls : List Call) (j : Jar),
      spec.cookieMode = .managed →
      normalizeOrigins sampleCrates spec = .ok (origins, some key) →
      (machine sampleCrates origins (.new sampleLimits key)).run (.new sampleLimits key) calls =
        some j →
      ∀ p, ∀ c ∈ (j.stores.get p).cookies, c.partitioned = p ∧ Policy sampleCrates origins c := by
  intro h
  have hstored := h ⟨.managed, ["https://a..com"], 16⟩ ["https://a..com"] "https://.com"
    [.set 0 "https://a..com" ["sid=1; Domain=..com"]] _ rfl (by rfl) rfl false
    { name := "sid", value := "1", domain := .suffix "com", path := "/", secure := false,
      httpOnly := false, partitioned := false, sameSite := none, expires := none } (by decide)
  exact (hstored.2.domain "com" rfl).2.2 rfl

end JarPolicy
