import Ja3Proxy.JarPolicy

/-! Importing the records of stored cookies.
An imported cookie is the stored one with its expiry cut to milliseconds. The import of a
list of records succeeds, cookie by cookie, when every cookie is portable and the whole
list is within the limits. -/
namespace SnapshotImport

open AllowedOrigins CookieModel ExceptRules JarPolicy JarUpdates ManagedJar TransportErrors
  WordArithmetic

def totalSize : List Cookie → ℕ
  | [] => 0
  | c :: cs => cookieSize c + totalSize cs

structure Within (l : Limits) (cs : List Cookie) : Prop where
  count : cs.length ≤ l.maxCookies
  size : ∀ c ∈ cs, cookieSize c ≤ l.maxCookieSize
  bytes : totalSize cs ≤ l.maxCookieBytes
  word : totalSize cs < 2 ^ 64

@[simp] theorem totalSize_append (cs ds : List Cookie) :
    totalSize (cs ++ ds) = totalSize cs + totalSize ds := by
  induction cs with
  | nil => simp [totalSize]
  | cons c cs ih => simp [totalSize, ih, Nat.add_assoc]

theorem totalSize_perm {cs ds : List Cookie} (h : cs.Perm ds) : totalSize cs = totalSize ds := by
  induction h with
  | nil => rfl
  | cons c _ ih => simp [totalSize, ih]
  | swap c d cs => simp [totalSize, Nat.add_left_comm]
  | trans _ _ ih₁ ih₂ => exact ih₁.trans ih₂

theorem Within.perm {l : Limits} {cs ds : List Cookie} (h : cs.Perm ds) (hw : Within l cs) :
    Within l ds where
  count := h.length_eq ▸ hw.count
  size c hc := hw.size c (h.mem_iff.mpr hc)
  bytes := totalSize_perm h ▸ hw.bytes
  word := totalSize_perm h ▸ hw.word

@[simp] theorem addSize_ok {a b c : ℕ} : addSize a b = .ok c ↔ a + b < 2 ^ 64 ∧ c = a + b := by
  rw [← checkedAdd_eq_some, addSize]
  cases checkedAdd a b <;> simp

private theorem boundsLoop_ok_iff {l : Limits} {cs : List Cookie} {index bytes : ℕ}
    (hindex : index ≤ l.maxCookies) (hbytes : bytes ≤ l.maxCookieBytes) (hword : bytes < 2 ^ 64) :
    boundsLoop l cs index bytes = .ok () ↔ index + cs.length ≤ l.maxCookies ∧
      (∀ c ∈ cs, cookieSize c ≤ l.maxCookieSize) ∧ bytes + totalSize cs ≤ l.maxCookieBytes ∧
      bytes + totalSize cs < 2 ^ 64 := by
  induction cs generalizing index bytes with
  | nil => simpa [boundsLoop, totalSize, hindex, hbytes] using hword
  | cons c cs ih =>
    simp only [boundsLoop, bind_ok, addSize_ok, rejectIf_ok, Bool.or_eq_false_iff,
      decide_eq_false_iff_not, not_le, not_lt, List.length_cons, List.forall_mem_cons, totalSize]
    constructor
    · rintro ⟨_, ⟨hadd, rfl⟩, _, ⟨⟨hcount, hsize⟩, htotal⟩, hrest⟩
      obtain ⟨hlength, hsizes, hall, hend⟩ := (ih hcount htotal hadd).mp hrest
      exact ⟨by omega, ⟨hsize, hsizes⟩, by omega, by omega⟩
    · rintro ⟨hlength, ⟨hsize, hsizes⟩, hall, hend⟩
      refine ⟨_, ⟨by omega, rfl⟩, (), ⟨⟨by omega, hsize⟩, by omega⟩, ?_⟩
      exact (ih (by omega) (by omega) (by omega)).mpr ⟨by omega, hsizes, by omega, by omega⟩

theorem checkBounds_ok_iff {l : Limits} {now : ℤ} {s : Stores} :
    checkBounds l now s = .ok () ↔ Within l (s.unexpired now) := by
  rw [checkBounds, boundsLoop_ok_iff (Nat.zero_le _) (Nat.zero_le _) (by decide)]
  simp only [Nat.zero_add]
  exact ⟨fun ⟨hcount, hsize, hbytes, hword⟩ => ⟨hcount, hsize, hbytes, hword⟩,
    fun h => ⟨h.count, h.size, h.bytes, h.word⟩⟩

def floored (c : Cookie) : Cookie :=
  { c with expires := c.expires.map fun e => (toMs e : ℤ) * 1000000 }

def Early (now : ℤ) (c : Cookie) : Prop := ∀ e, c.expires = some e → now < e / 1000000 * 1000000

instance (now : ℤ) (c : Cookie) : Decidable (Early now c) :=
  decidable_of_iff (c.expires.all fun e => decide (now < e / 1000000 * 1000000)) (by
    cases h : c.expires <;> simp [Early, h])

theorem toMs_eq (e : ℤ) : (toMs e : ℤ) = max (e / 1000000) 0 := by
  simp only [toMs]
  omega

theorem toMs_floor (ms : ℕ) : toMs ((ms : ℤ) * 1000000) = ms := by
  simp only [toMs]
  omega

theorem Early.unexpired {now : ℤ} {c : Cookie} (h : Early now c) : c.expired now = false := by
  unfold Cookie.expired
  cases he : c.expires with
  | none => rfl
  | some e =>
    have := h e he
    simp only [Option.any_some, decide_eq_false_iff_not, not_le]
    omega

theorem Early.floored_unexpired {now : ℤ} {c : Cookie} (h : Early now c) :
    (floored c).expired now = false := by
  unfold Cookie.expired floored
  cases he : c.expires with
  | none => rfl
  | some e =>
    have := h e he
    have := toMs_eq e
    simp only [Option.map_some, Option.any_some, decide_eq_false_iff_not, not_le]
    omega

@[simp] theorem record_floored (c : Cookie) : record (floored c) = record c := by
  simp only [record, floored]
  cases c.expires <;> simp [toMs_floor]

@[simp] theorem cookieSize_floored (c : Cookie) : cookieSize (floored c) = cookieSize c := rfl

@[simp] theorem recordDomain_record (c : Cookie) : recordDomain (record c) = c.domain := by
  cases h : c.domain <;> simp [recordDomain, record, h, CookieDomain.text]

/-- What `import` asks of a record beyond what holds of every stored cookie. -/
structure Portable (x : Crates) (c : Cookie) : Prop where
  path : ';' ∉ c.path.toList
  head : startsWith c.domain.text '.' = false
  last : endsWith c.domain.text '.' = false
  permitted : ∀ d, c.domain = .suffix d → forbiddenDomain x d = false

section OneRecord

variable {x : Crates} {origins : List String} {urls : List Url} {now : ℤ} {c : Cookie}

private theorem domain_ne_empty (hshape : Shape x origins c) : c.domain.text ≠ "" := by
  obtain ⟨_, _, v, _, haccepts⟩ := hshape.matched
  cases hd : c.domain with
  | hostOnly host =>
    simp only [hd, CookieDomain.accepts, beq_iff_eq] at haccepts
    rw [CookieDomain.text, haccepts]
    exact v.host_ne
  | suffix d => exact (hshape.ascii d hd).1

theorem attributes_of_portable (hshape : Shape x origins c) (hport : Portable x c) :
    invalidAttributes (record c) = false := by
  simp only [invalidAttributes, record, Bool.or_eq_false_iff, List.any_eq_false, Bool.not_eq_false',
    List.isEmpty_eq_false_iff]
  refine ⟨⟨⟨⟨hshape.path_rooted, ?_⟩, ?_⟩, hport.head⟩, hport.last⟩
  · intro ch hch
    rw [hshape.path_plain ch hch, Bool.false_or, beq_iff_eq]
    rintro rfl
    exact hport.path hch
  · intro hnil
    exact domain_ne_empty hshape (String.toList_eq_nil_iff.mp hnil)

theorem findSource_of_matched (horigins : parseOrigins x origins = .ok urls)
    (hrules : Rules x origins c) (hshape : Shape x origins c) :
    ∃ source ∈ urls, findSource urls (record c) = some source ∧
      c.domain.accepts source = true := by
  obtain ⟨o, ho, v, hv, haccepts⟩ := hshape.matched
  have hfound : (findSource urls (record c)).isSome = true := by
    rw [findSource, List.find?_isSome]
    refine ⟨v, (mem_parseOrigins horigins).mpr ⟨o, ho, hv⟩, ?_⟩
    rw [recordDomain_record, haccepts, Bool.true_and]
    cases hsecure : c.secure with
    | false => simp [record, hsecure]
    | true => simp [hrules.https hsecure o ho v hv]
  obtain ⟨source, hsource⟩ := Option.isSome_iff_exists.mp hfound
  refine ⟨source, List.mem_of_find?_eq_some hsource, hsource, ?_⟩
  have hsat := List.find?_some hsource
  rw [recordDomain_record] at hsat
  exact (Bool.and_eq_true_iff.mp hsat).1

/-- The raw cookie of the record parses to the imported form. -/
theorem tryFromRawCookie_record (hshape : Shape x origins c) (hport : Portable x c) {source : Url}
    (haccepts : c.domain.accepts source = true) :
    x.tryFromRawCookie now (importRaw (record c)) source = some (floored c) := by
  have hdomain : x.resolveDomain (importRaw (record c)) source = some c.domain := by
    cases hd : c.domain with
    | hostOnly host =>
      simp only [hd, CookieDomain.accepts, beq_iff_eq] at haccepts
      rw [haccepts]
      exact resolveDomain_hostOnly (by simp [RawCookie.domain, importRaw, record, hd])
    | suffix d =>
      obtain ⟨hne, hascii⟩ := hshape.ascii d hd
      have hattr : (importRaw (record c)).domain = some d := by
        have hhead := hport.head
        simp only [hd, CookieDomain.text] at hhead
        simp [RawCookie.domain, importRaw, record, hd, CookieDomain.text, hhead]
      rw [hd] at haccepts
      simp [Crates.resolveDomain, hattr, hascii, hne, haccepts]
  have hpath : resolvePath (importRaw (record c)) source = c.path :=
    resolvePath_some rfl hshape.path_rooted
  simp only [Crates.tryFromRawCookie, hdomain, Option.map_some, hpath]
  simp only [importRaw, record, resolveExpiry, floored, Option.map_map]
  rfl

theorem validatePolicy_of_portable {source : Url}
    (hsource : ∃ o ∈ origins, x.parseUrl o = some source)
    (hrules : Rules x origins c) (hport : Portable x c) {existing : Store}
    (hexisting : ∀ old ∈ existing.cookies, old.secure = true → source.scheme = .https) :
    validatePolicy x now (floored c) (importRaw (record c)) source existing = .ok () := by
  obtain ⟨o, ho, hparse⟩ := hsource
  have hhttps : c.secure = true → source.scheme = .https :=
    fun h => hrules.https h o ho source hparse
  refine bind_ok.mpr ⟨(), rejectIf_ok.mpr ?_, bind_ok.mpr ⟨(), rejectIf_ok.mpr ?_,
    bind_ok.mpr ⟨(), rejectIf_ok.mpr ?_, rejectIf_ok.mpr ?_⟩⟩⟩
  · split
    · next d hd => exact hport.permitted d hd
    · rfl
  · simp only [floored, Bool.or_eq_false_iff]
    refine ⟨⟨?_, ?_⟩, ?_⟩
    · cases hsecure : c.secure with
      | false => rfl
      | true => simp [hhttps hsecure]
    · cases hsite : c.sameSite == some .none with
      | false => rfl
      | true => simp [hrules.secure (.inr (.inl (beq_iff_eq.mp hsite)))]
    · cases hkind : c.partitioned with
      | false => rfl
      | true => simp [hrules.secure (.inl hkind)]
  · simp only [floored, Bool.or_eq_false_iff]
    refine ⟨⟨?_, ?_⟩, ?_⟩
    · cases hname : securePrefix c.name with
      | false => rfl
      | true =>
        have hsecure := hrules.secure (.inr (.inr hname))
        simp [hsecure, hhttps hsecure]
    · cases hname : hostPrefix c.name with
      | false => rfl
      | true =>
        obtain ⟨⟨host, hhost⟩, hroot⟩ := hrules.host hname
        simp [RawCookie.domain, importRaw, record, hhost, hroot]
    · cases hname : httpPrefix c.name with
      | false => rfl
      | true => simp [hrules.http hname]
  · cases hscheme : source.scheme with
    | https => rfl
    | http =>
      rw [Bool.and_eq_false_iff, List.any_eq_false]
      right
      intro old hold hover
      simp only [Bool.and_eq_true] at hover
      have hsecure := hexisting old (Store.mem_unexpired.mp hold).1 hover.1.2
      rw [hscheme] at hsecure
      cases hsecure

theorem parseRecord_of_portable (horigins : parseOrigins x origins = .ok urls)
    (hrules : Rules x origins c) (hshape : Shape x origins c) (hport : Portable x c)
    {candidate : Stores}
    (hcandidate : ∀ old ∈ (candidate.get c.partitioned).cookies, old.secure = true →
      ∀ u ∈ urls, u.scheme = .https) :
    ∃ source, parseRecord x now urls candidate (record c) = .ok (floored c, source) ∧
      c.domain.accepts source = true := by
  obtain ⟨source, hmem, hsource, haccepts⟩ := findSource_of_matched horigins hrules hshape
  refine ⟨source, ?_, haccepts⟩
  have hparsed : x.tryFromRawCookie now (importRaw (record c)) source = some (floored c) :=
    tryFromRawCookie_record hshape hport haccepts
  have hpolicy : validatePolicy x now (floored c) (importRaw (record c)) source
      (candidate.get c.partitioned) = .ok () :=
    validatePolicy_of_portable ((mem_parseOrigins horigins).mp hmem) hrules hport
      fun old hold hsecure => hcandidate old hold hsecure source hmem
  simp only [parseRecord, hsource, hparsed]
  refine bind_ok.mpr ⟨(), rejectIf_ok.mpr ?_, bind_ok.mpr ⟨(), hpolicy,
    bind_ok.mpr ⟨(), rejectIf_ok.mpr (by simp), rfl⟩⟩⟩
  simp only [record]
  cases he : c.expires with
  | none => rfl
  | some e =>
    have hle := hshape.expires e he
    have := toMs_eq e
    simp only [Option.map_some, Option.any_some, Bool.or_eq_false_iff, decide_eq_false_iff_not,
      not_lt]
    simp only [lastInstant, SafeIntegers.maxSafe] at hle ⊢
    omega

end OneRecord

def Loaded (cs : List Cookie) (s : Stores) : Prop :=
  ∀ p, (s.get p).cookies = (cs.filter (·.partitioned == p)).map floored

theorem record_key_eq {c d : Cookie} :
    (record c).key = (record d).key ↔ c.key = d.key ∧ c.partitioned = d.partitioned := by
  simp [CookieRecord.key, record, Cookie.key, and_assoc]

theorem Loaded.put {cs : List Cookie} {s : Stores} {c : Cookie} (h : Loaded cs s)
    (hkey : ∀ d ∈ cs, (record d).key ≠ (record c).key) :
    Loaded (cs ++ [c]) (s.set c.partitioned ((s.get c.partitioned).put (floored c))) := by
  intro p
  rw [get_set, List.filter_append, List.map_append]
  by_cases hp : p = c.partitioned
  · subst hp
    have hnew : ∀ a ∈ (s.get c.partitioned).cookies, a.key ≠ (floored c).key := by
      intro a ha heq
      rw [h, List.mem_map] at ha
      obtain ⟨d, hd, rfl⟩ := ha
      obtain ⟨hmem, hkind⟩ := List.mem_filter.mp hd
      exact hkey d hmem (record_key_eq.mpr ⟨heq, beq_iff_eq.mp hkind⟩)
    rw [if_pos rfl, Store.put_cookies hnew, h]
    simp
  · rw [if_neg hp, h]
    simp [Ne.symm hp]

/-- The loop loads one cookie after the other. -/
theorem importLoop_loads {x : Crates} {l : Limits} {origins : List String} {urls : List Url}
    {now : ℤ} {candidate : Stores} (before rest : List Cookie)
    (horigins : parseOrigins x origins = .ok urls)
    (hrules : ∀ c ∈ before ++ rest, Rules x origins c ∧ Shape x origins c ∧ Early now c)
    (hport : ∀ c ∈ rest, Portable x c)
    (hkeys : ((before ++ rest).map fun c => (record c).key).Nodup)
    (hwithin : Within l (before ++ rest)) (hloaded : Loaded before candidate) :
    ∃ after, importLoop x l now urls (rest.map record) (before.map fun c => (record c).key).reverse
      (totalSize before) candidate = .ok after ∧ Loaded (before ++ rest) after := by
  induction rest generalizing before candidate with
  | nil => exact ⟨candidate, rfl, by simpa using hloaded⟩
  | cons c rest ih =>
    have hc : c ∈ before ++ c :: rest := List.mem_append_right _ List.mem_cons_self
    obtain ⟨hrule, hshape, hearly⟩ := hrules c hc
    have hported := hport c List.mem_cons_self
    have hnew : ∀ d ∈ before, (record d).key ≠ (record c).key := by
      rw [List.map_append, List.map_cons] at hkeys
      intro d hd heq
      exact (List.nodup_append.mp hkeys).2.2 _ (List.mem_map_of_mem hd) _ List.mem_cons_self heq
    have hsecure : ∀ old ∈ (candidate.get c.partitioned).cookies, old.secure = true →
        ∀ u ∈ urls, u.scheme = .https := by
      intro old hold hold_secure u hu
      rw [hloaded, List.mem_map] at hold
      obtain ⟨d, hd, rfl⟩ := hold
      have hd := List.mem_append_left (c :: rest) (List.mem_filter.mp hd).1
      obtain ⟨o, ho, hparse⟩ := (mem_parseOrigins horigins).mp hu
      exact (hrules d hd).1.https hold_secure o ho u hparse
    obtain ⟨source, hparsed, haccepts⟩ : ∃ source,
        parseRecord x now urls candidate (record c) = .ok (floored c, source) ∧
          c.domain.accepts source = true :=
      parseRecord_of_portable horigins hrule hshape hported hsecure
    have hsplit : before ++ c :: rest = before ++ [c] ++ rest := by simp
    rw [hsplit] at hrules hkeys hwithin ⊢
    obtain ⟨after, hafter, hall⟩ := ih (before ++ [c]) hrules
      (fun d hd => hport d (List.mem_cons_of_mem _ hd)) hkeys hwithin (hloaded.put hnew)
    refine ⟨after, ?_, hall⟩
    have hsize : totalSize (before ++ [c]) = totalSize before + recordSize (record c) := by
      simp [totalSize, recordSize, cookieSize, record]
    have htotal := totalSize_append (before ++ [c]) rest
    rw [List.map_append, List.reverse_append, hsize] at hafter
    have hbytes := hwithin.bytes
    have hword := hwithin.word
    refine bind_ok.mpr ⟨_, addSize_ok.mpr ⟨by omega, rfl⟩, bind_ok.mpr ⟨(), rejectIf_ok.mpr ?_,
      bind_ok.mpr ⟨(), hrule.pair, bind_ok.mpr ⟨(), rejectIf_ok.mpr
        (attributes_of_portable hshape hported), bind_ok.mpr ⟨(), rejectIf_ok.mpr ?_,
          bind_ok.mpr ⟨(floored c, source), hparsed, bind_ok.mpr
            ⟨(candidate.get c.partitioned).put (floored c), ?_, hafter⟩⟩⟩⟩⟩⟩⟩
    · have hone := hwithin.size c (by simp)
      simp only [Bool.or_eq_false_iff, decide_eq_false_iff_not, not_lt]
      exact ⟨hone, by omega⟩
    · simpa using hnew
    · have haccepted : (floored c).domain.accepts source = true := haccepts
      simp [insertOrDelete, hearly.floored_unexpired, haccepted]
      rfl

end SnapshotImport
