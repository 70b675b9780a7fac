import Ja3Proxy.CookieUpdates

/-! What an import takes over from a snapshot.
A record that is accepted is stored as the one cookie whose record it is, so that an export
at the same clock gives back the unexpired records and nothing else. -/
namespace ImportExactness

open CookieModel CookieUpdates ExceptRules JarPolicy JarRoundTrip JarUpdates ManagedJar
  SnapshotImport TransportErrors

def cookieOf (value : CookieRecord) : Cookie where
  name := value.name
  value := value.value
  domain := recordDomain value
  path := value.path
  secure := value.secure
  httpOnly := value.httpOnly
  partitioned := value.partitioned
  sameSite := value.sameSite
  expires := value.expiresAtMs.map fun ms : ℕ => (ms : ℤ) * 1000000

def expiredRecord (now : ℤ) (value : CookieRecord) : Bool :=
  value.expiresAtMs.any fun ms => (ms : ℤ) * 1000000 ≤ now

@[simp] theorem expired_cookieOf (now : ℤ) (value : CookieRecord) :
    (cookieOf value).expired now = expiredRecord now value := by
  simp only [Cookie.expired, cookieOf, expiredRecord]
  cases value.expiresAtMs <;> rfl

@[simp] theorem record_cookieOf (value : CookieRecord) : record (cookieOf value) = value := by
  obtain ⟨_, _, _, _, _, _, hostOnly, _, _, expiresAtMs⟩ := value
  cases hostOnly <;> cases expiresAtMs <;>
    simp [record, cookieOf, recordDomain, toMs_floor, CookieDomain.text]

/-- The check against the record leaves only one cookie that can be stored for it. -/
theorem parseRecord_eq {x : Crates} {now : ℤ} {urls : List Url} {before : Stores}
    {value : CookieRecord} {c : Cookie} {source : Url}
    (h : parseRecord x now urls before value = .ok (c, source)) : c = cookieOf value := by
  obtain ⟨_, _, hparsed, _, hrecord⟩ := parseRecord_ok h
  have hexpires : c.expires = (cookieOf value).expires := by
    rw [(tryFromRawCookie_ok hparsed).2]
    rfl
  have hdomain : c.domain = recordDomain value := by rw [← hrecord, recordDomain_record]
  obtain ⟨name, text, domain, path, secure, httpOnly, partitioned, sameSite, expires⟩ := c
  subst hrecord
  simp only [cookieOf, record] at hexpires hdomain ⊢
  rw [← hexpires, ← hdomain]

theorem findSource_allowed {x : Crates} {origins : List String} {urls : List Url}
    (horigins : parseOrigins x origins = .ok urls) {value : CookieRecord} {source : Url}
    (h : findSource urls value = some source) :
    (∃ origin ∈ origins, x.parseUrl origin = some source) ∧
      (recordDomain value).accepts source = true ∧
      (value.secure = true → source.scheme = .https) := by
  have hsat := List.find?_some h
  simp only [Bool.and_eq_true, Bool.or_eq_true, Bool.not_eq_true', beq_iff_eq] at hsat
  refine ⟨(mem_parseOrigins horigins).mp (List.mem_of_find?_eq_some h), hsat.1, ?_⟩
  intro hsecure
  rcases hsat.2 with hopen | hhttps
  · exact absurd (hopen.symm.trans hsecure) Bool.false_ne_true
  · exact hhttps

def alive (now : ℤ) (p : Bool) (values : List CookieRecord) : List CookieRecord :=
  values.filter fun value => value.partitioned == p && !expiredRecord now value

def Holds (now : ℤ) (values : List CookieRecord) (s : Stores) : Prop :=
  ∀ p, (s.get p).cookies = (alive now p values).map cookieOf

theorem cookieOf_key_ne {now : ℤ} {p : Bool} {values : List CookieRecord} {value : CookieRecord}
    (hnew : ∀ v ∈ values, v.key ≠ value.key) (hp : value.partitioned = p) :
    ∀ c ∈ (alive now p values).map cookieOf, c.key ≠ (cookieOf value).key := by
  intro c hc hkey
  obtain ⟨v, hv, rfl⟩ := List.mem_map.mp hc
  obtain ⟨hmem, hkind⟩ := List.mem_filter.mp hv
  simp only [Bool.and_eq_true, beq_iff_eq] at hkind
  apply hnew v hmem
  have hpartitioned : (cookieOf v).partitioned = (cookieOf value).partitioned :=
    hkind.1.trans hp.symm
  have hsame := record_key_eq.mpr ⟨hkey, hpartitioned⟩
  rwa [record_cookieOf, record_cookieOf] at hsame

/-- One more record with a new key. -/
theorem Holds.snoc {now : ℤ} {values : List CookieRecord} {s : Stores} {value : CookieRecord}
    {source : Url} {after : Store} (h : Holds now values s)
    (hnew : ∀ v ∈ values, v.key ≠ value.key)
    (hstore : insertOrDelete now (s.get value.partitioned) (cookieOf value) source = .ok after) :
    Holds now (values ++ [value]) (s.set value.partitioned after) := by
  have hothers : ∀ c ∈ (s.get value.partitioned).cookies, c.key ≠ (cookieOf value).key := by
    rw [h]
    exact cookieOf_key_ne hnew rfl
  intro p
  rw [get_set, alive, List.filter_append, ← alive]
  by_cases hp : p = value.partitioned
  · subst hp
    rw [if_pos rfl]
    unfold insertOrDelete at hstore
    rw [expired_cookieOf] at hstore
    cases hexpired : expiredRecord now value with
    | true =>
      rw [hexpired, if_pos rfl] at hstore
      cases hstore
      have hsame : (s.get value.partitioned).cookies.filter (·.key ≠ (cookieOf value).key) =
          (s.get value.partitioned).cookies := by
        rw [List.filter_eq_self]
        intro c hc
        exact decide_eq_true (hothers c hc)
      have hcookies : ((s.get value.partitioned).remove (cookieOf value).key).cookies =
          (s.get value.partitioned).cookies := hsame
      rw [hcookies, h]
      simp [hexpired]
    | false =>
      rw [hexpired, if_neg Bool.false_ne_true] at hstore
      split at hstore
      · cases hstore
        rw [Store.put_cookies hothers, h]
        simp [hexpired]
      · cases hstore
  · rw [if_neg hp, h]
    simp [Ne.symm hp]

/-- The loop has stored the records it has passed, under keys that are all different. -/
theorem importLoop_holds {x : Crates} {l : Limits} {now : ℤ} {urls : List Url}
    {before rest : List CookieRecord} {keys : List RecordKey} {bytes : ℕ}
    {candidate after : Stores}
    (h : importLoop x l now urls rest keys bytes candidate = .ok after)
    (hkeys : keys = (before.map CookieRecord.key).reverse)
    (hnodup : (before.map CookieRecord.key).Nodup) (hholds : Holds now before candidate) :
    ((before ++ rest).map CookieRecord.key).Nodup ∧ Holds now (before ++ rest) after ∧
      ∀ value ∈ rest, ∃ source, findSource urls value = some source := by
  induction rest generalizing before keys bytes candidate with
  | nil =>
    cases h
    rw [List.append_nil]
    exact ⟨hnodup, hholds, by simp⟩
  | cons value rest ih =>
    simp only [importLoop, bind_ok, rejectIf_ok] at h
    obtain ⟨_, _, _, _, _, _, _, _, _, hfresh, ⟨parsed, source⟩, hparsed, store, hstore, hrest⟩ := h
    have hnew : ∀ v ∈ before, v.key ≠ value.key := by
      intro v hv heq
      rw [hkeys] at hfresh
      have hmem : value.key ∈ (before.map CookieRecord.key).reverse := by
        rw [List.mem_reverse, ← heq]
        exact List.mem_map_of_mem hv
      exact Bool.false_ne_true (hfresh.symm.trans (List.contains_iff_mem.mpr hmem))
    rw [parseRecord_eq hparsed] at hstore
    have hnodup' : ((before ++ [value]).map CookieRecord.key).Nodup := by
      rw [List.map_append, List.nodup_append]
      refine ⟨hnodup, by simp, ?_⟩
      intro k hk k' hk' heq
      obtain ⟨v, hv, rfl⟩ := List.mem_map.mp hk
      exact hnew v hv (heq.trans (by simpa using hk'))
    have hsplit : before ++ value :: rest = before ++ [value] ++ rest := by simp
    rw [hsplit]
    obtain ⟨hall, hend, hsources⟩ := ih hrest (by simp [hkeys]) hnodup' (hholds.snoc hnew hstore)
    refine ⟨hall, hend, ?_⟩
    intro v hv
    rcases List.mem_cons.mp hv with rfl | hv
    · exact ⟨source, (parseRecord_ok hparsed).1⟩
    · exact hsources v hv

theorem Holds.unexpired_records {now : ℤ} {values : List CookieRecord} {s : Stores}
    (h : Holds now values s) :
    ((s.unexpired now).map record).Perm (values.filter fun value => !expiredRecord now value) := by
  have halive : ∀ c ∈ contents s, c.expired now = false := by
    intro c hc
    obtain ⟨p, hp⟩ := mem_contents.mp hc
    rw [h, List.mem_map] at hp
    obtain ⟨value, hvalue, rfl⟩ := hp
    rw [expired_cookieOf]
    simpa using (Bool.and_eq_true_iff.mp (List.mem_filter.mp hvalue).2).2
  have hordinary := h false
  have hchips := h true
  simp only [Stores.get, Bool.false_eq_true, if_false, if_true] at hordinary hchips
  rw [unexpired_eq halive, contents, hordinary, hchips, ← List.map_append, List.map_map]
  have hid : record ∘ cookieOf = id := funext record_cookieOf
  rw [hid, List.map_id]
  have hsplit := List.filter_append_perm (fun value : CookieRecord => value.partitioned == false)
    (values.filter fun value => !expiredRecord now value)
  simpa [alive, List.filter_filter] using hsplit

/-- The exported records ascend strictly when no two of them share a key. -/
theorem export_ascends {j : Jar} {now : ℤ}
    (h : ((j.exportSnapshot now).cookies.map CookieRecord.key).Nodup) :
    (j.exportSnapshot now).cookies.Pairwise (fun a b => a.key < b.key) := by
  have : IsTrans CookieRecord fun a b => a.key ≤ b.key := ⟨fun _ _ _ hab hbc => hab.trans hbc⟩
  have : Std.Total fun a b : CookieRecord => a.key ≤ b.key := ⟨fun a b => le_total a.key b.key⟩
  have hsorted : (j.exportSnapshot now).cookies.Pairwise (fun a b => a.key ≤ b.key) :=
    List.pairwise_insertionSort _ _
  have hdistinct := List.pairwise_map.mp h
  apply (hsorted.and hdistinct).imp
  rintro a b ⟨hle, hne⟩
  exact lt_of_le_of_ne hle hne

/-- What an import may do: take over the unexpired records as they are, all from allowed
origins, or leave the jar. -/
theorem import_exact (x : Crates) (j : Jar) (now : ℤ) (snapshot : CookieSnapshot)
    (origins : List String) :
    match (importSnapshot x now snapshot origins).call j with
    | (.ok _, after) =>
      (after.exportSnapshot now).partitionKey = snapshot.partitionKey ∧
        (after.exportSnapshot now).cookies.Perm
          (snapshot.cookies.filter fun value => !expiredRecord now value) ∧
        (after.exportSnapshot now).cookies.Pairwise (fun a b => a.key < b.key) ∧
        ∀ value ∈ snapshot.cookies, ∃ origin ∈ origins, ∃ u, x.parseUrl origin = some u ∧
          (recordDomain value).accepts u = true ∧ (value.secure = true → u.scheme = .https)
    | (.error _, after) => after = j := by
  rw [importSnapshot_call]
  cases himport : j.importSnapshot x now snapshot origins with
  | error e => rfl
  | ok after =>
    have hkey : snapshot.partitionKey = j.partitionKey := by
      obtain ⟨_, hsame, _⟩ := bind_ok.mp himport
      simpa using rejectIf_ok.mp hsame
    obtain ⟨urls, stores, hurls, hloop, _, rfl⟩ := importSnapshot_cases himport
    have hempty : Holds now [] .empty := by
      intro p
      cases p <;> rfl
    obtain ⟨hnodup, hholds, hsources⟩ := importLoop_holds hloop (by rfl) (by simp) hempty
    rw [List.nil_append] at hnodup hholds
    have hperm : ({ j with stores := stores }.exportSnapshot now).cookies.Perm
        (snapshot.cookies.filter fun value => !expiredRecord now value) :=
      (List.perm_insertionSort _ _).trans hholds.unexpired_records
    refine ⟨hkey.symm, hperm, ?_, ?_⟩
    · apply export_ascends
      rw [(hperm.map _).nodup_iff]
      exact hnodup.sublist (List.filter_sublist.map _)
    · intro value hvalue
      obtain ⟨source, hsource⟩ := hsources value hvalue
      obtain ⟨⟨origin, horigin, hparse⟩, haccepts, hhttps⟩ := findSource_allowed hurls hsource
      exact ⟨origin, horigin, source, hparse, haccepts, hhttps⟩

def themeRecord (expiresAtMs : ℕ) : CookieRecord :=
  ⟨"theme", "dark", "example.com", "/", false, false, false, false, none, some expiresAtMs⟩

/-- Of two records the import takes over the one that has not expired. -/
example : ∃ after, (importSnapshot sampleCrates 1000000
      ⟨"https://example.com", [{ themeRecord 0 with name := "old" }, themeRecord 60000]⟩
      ["https://example.com"]).call emptyJar = (.ok (), after) ∧
    (after.exportSnapshot 1000000).cookies = [themeRecord 60000] := ⟨_, rfl, by decide +kernel⟩

end ImportExactness
