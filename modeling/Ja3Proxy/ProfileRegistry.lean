import Ja3Proxy.ServiceToSdk

/-! Profile names, aliases and header descriptors of the service (`src/emulation.rs`,
`sec_ch_ua` of `src/emulation/chrome.rs`). The pinned emulation registry is not part of the
repository; it is a parameter with the behaviour that the service and its tests rely on. -/
namespace ProfileRegistry

open SdkErrors ServiceToSdk
open AsciiText (tokenChar)
open TransportErrors (TransportError)

inductive Platform where
  | macOS | windows | linux | android | ios
  deriving DecidableEq, Repr

/-- `wreq_util::Profile` with its serde names, and the headers of an emulation. -/
structure Registry where
  Variant : Type
  variants : List Variant
  chrome149 : Variant
  serialize : Variant → String
  deserialize : String → Option Variant
  /-- The default headers for a platform, or for the one of the registry. -/
  headers : Variant → Option Platform → List (String × String)

structure CustomChrome where
  name : String
  major : ℕ
  platform : Option Platform
  userAgent : String
  navigationAccept : Option String
  deriving DecidableEq, Repr

def navigationAcceptJxl : String :=
  "text/html,application/xhtml+xml,application/xml;q=0.9,image/jxl,image/avif,image/webp," ++
    "image/apng,*/*;q=0.8,application/signed-exchange;v=b3;q=0.7"

def chrome150 : CustomChrome where
  name := "chrome_150"
  major := 150
  platform := none
  userAgent := "Mozilla/5.0 (Macintosh; Intel Mac OS X 10_15_7) AppleWebKit/537.36 " ++
    "(KHTML, like Gecko) Chrome/150.0.0.0 Safari/537.36"
  navigationAccept := none

def chrome154 : CustomChrome where
  name := "chrome_154"
  major := 154
  platform := some .windows
  userAgent := "Mozilla/5.0 (Windows NT 10.0; Win64; x64) AppleWebKit/537.36 " ++
    "(KHTML, like Gecko) Chrome/154.0.0.0 Safari/537.36"
  navigationAccept := none

def chrome155 : CustomChrome where
  name := "chrome_155"
  major := 155
  platform := some .windows
  userAgent := "Mozilla/5.0 (Windows NT 10.0; Win64; x64) AppleWebKit/537.36 " ++
    "(KHTML, like Gecko) Chrome/155.0.0.0 Safari/537.36"
  navigationAccept := some navigationAcceptJxl

def customProfiles : List CustomChrome := [chrome150, chrome154, chrome155]

def profileAliases : List (String × String) := [("chrome_stable", "chrome_155")]

inductive TlsProfile (r : Registry) where
  | registry (profile : r.Variant)
  | custom (chrome : CustomChrome)

variable {r : Registry}

def TlsProfile.name : TlsProfile r → String
  | .registry profile => r.serialize profile
  | .custom chrome => chrome.name

def parseTlsProfile (r : Registry) (profile : String) : Except TransportError (TlsProfile r) :=
  let profile := (profileAliases.lookup profile).getD profile
  match customProfiles.find? (fun custom => custom.name == profile) with
  | some custom => .ok (.custom custom)
  | none =>
    match r.deserialize profile with
    | none => .error (.fromCode .invalidProfile)
    | some parsed =>
      if r.serialize parsed = profile then .ok (.registry parsed)
      else .error (.fromCode .invalidProfile)

def canonicalProfileName (r : Registry) (profile : String) : Except TransportError String :=
  (parseTlsProfile r profile).map TlsProfile.name

def allProfiles (r : Registry) : List (TlsProfile r) :=
  r.variants.map .registry ++ customProfiles.map .custom

def availableProfiles (r : Registry) : List String := (allProfiles r).map TlsProfile.name

def hintChars : List Char := [' ', '(', ':', '-', '.', '/', ')', ';', '=', '?', '_']
def hintVersions : List String := ["8", "99", "24"]
def hintOrders : List (List ℕ) :=
  [[0, 1, 2], [0, 2, 1], [1, 0, 2], [1, 2, 0], [2, 0, 1], [2, 1, 0]]

def brands (major : ℕ) : List String :=
  ["\"Not" ++ String.ofList [hintChars.getD (major % 11) ' '] ++ "A" ++
      String.ofList [hintChars.getD ((major + 1) % 11) ' '] ++ "Brand\";v=\"" ++
      hintVersions.getD (major % 3) "" ++ "\"",
    "\"Chromium\";v=\"" ++ major.repr ++ "\"",
    "\"Google Chrome\";v=\"" ++ major.repr ++ "\""]

def arrange (brands : List String) (order : List ℕ) : List String :=
  (brands.zip order).foldl (fun ordered b => ordered.set b.2 b.1) ["", "", ""]

def secChUa (major : ℕ) : String :=
  String.intercalate ", " (arrange (brands major) (hintOrders.getD (major % 6) []))

/-- `HeaderMap::insert`: the new value replaces all values of its name. -/
def insertHeader (name value : String) : List (String × String) → List (String × String)
  | [] => [(name, value)]
  | h :: rest =>
    if h.1 = name then (name, value) :: rest.filter (·.1 ≠ name)
    else h :: insertHeader name value rest

def customHeaders (r : Registry) (custom : CustomChrome) : List (String × String) :=
  let headers := r.headers r.chrome149 custom.platform
  let headers := insertHeader "user-agent" custom.userAgent headers
  let headers := insertHeader "sec-ch-ua" (secChUa custom.major) headers
  match custom.navigationAccept with
  | some accept => insertHeader "accept" accept headers
  | none => headers

/-- The headers of `profile_emulation(profile, true)`. -/
def profileHeaders (r : Registry) : TlsProfile r → List (String × String)
  | .registry profile => r.headers profile none
  | .custom custom => customHeaders r custom

def headerDescriptors (r : Registry) : List (String × List (String × String)) :=
  (allProfiles r).map fun profile => (profile.name, profileHeaders r profile)

/-- What the service relies on: serde reads back every listed name and nothing unlisted, no
listed name is an alias, and names and static headers are plain text. -/
structure Registry.Pinned (r : Registry) : Prop where
  reads : ∀ v ∈ r.variants, r.deserialize (r.serialize v) = some v
  listed : ∀ name v, r.deserialize name = some v → v ∈ r.variants
  apart : ∀ v ∈ r.variants, profileAliases.lookup (r.serialize v) = none
  named : ∀ v ∈ r.variants, profileName (r.serialize v) = true
  headers : ∀ v ∈ r.variants, ∀ platform, headerPairs (r.headers v platform) = true
  chrome149 : r.chrome149 ∈ r.variants

theorem mem_availableProfiles {name : String} : name ∈ availableProfiles r ↔
    (∃ v ∈ r.variants, r.serialize v = name) ∨ ∃ custom ∈ customProfiles, custom.name = name := by
  simp only [availableProfiles, allProfiles, List.map_append, List.map_map, List.mem_append,
    List.mem_map, Function.comp_apply, TlsProfile.name]

theorem custom_named : ∀ custom ∈ customProfiles, profileName custom.name = true ∧
    profileAliases.lookup custom.name = none := by
  decide

theorem alias_target {name target : String} (h : profileAliases.lookup name = some target) :
    ∃ custom ∈ customProfiles, custom.name = target := by
  have hmem := mem_of_lookup h
  simp only [profileAliases, List.mem_singleton, Prod.mk.injEq] at hmem
  exact ⟨chrome155, by simp [customProfiles], hmem.2.symm⟩

theorem available_named (hr : r.Pinned) :
    ∀ name ∈ availableProfiles r, profileName name = true := by
  intro name hname
  rcases mem_availableProfiles.mp hname with ⟨v, hv, rfl⟩ | ⟨custom, hcustom, rfl⟩
  · exact hr.named v hv
  · exact (custom_named custom hcustom).1

theorem available_apart (hr : r.Pinned) {name : String} (hname : name ∈ availableProfiles r) :
    profileAliases.lookup name = none := by
  rcases mem_availableProfiles.mp hname with ⟨v, hv, rfl⟩ | ⟨custom, hcustom, rfl⟩
  · exact hr.apart v hv
  · exact (custom_named custom hcustom).2

def profiles (r : Registry) (hr : r.Pinned) : Profiles where
  profiles := availableProfiles r
  aliases := profileAliases
  named := available_named hr
  apart := by
    intro pair hpair
    obtain rfl := List.mem_singleton.mp hpair
    refine ⟨fun hmem => ?_,
      mem_availableProfiles.mpr (.inr ⟨chrome155, by simp [customProfiles], rfl⟩)⟩
    have hnone := available_apart hr hmem
    simp [profileAliases] at hnone

/-- A name that is no alias is accepted exactly if it is listed. -/
theorem parse_concrete (hr : r.Pinned) {name : String}
    (halias : profileAliases.lookup name = none) :
    canonicalProfileName r name =
      if name ∈ availableProfiles r then .ok name else .error (.fromCode .invalidProfile) := by
  simp only [canonicalProfileName, parseTlsProfile, halias, Option.getD_none]
  cases hfind : customProfiles.find? (fun custom => custom.name == name) with
  | some custom =>
    have hname : custom.name = name := by simpa using List.find?_some hfind
    have hmem : name ∈ availableProfiles r :=
      mem_availableProfiles.mpr (.inr ⟨custom, List.mem_of_find?_eq_some hfind, hname⟩)
    rw [if_pos hmem]
    exact congrArg Except.ok hname
  | none =>
    have hcustom : ¬∃ custom ∈ customProfiles, custom.name = name := by
      rintro ⟨custom, hmem, hname⟩
      have hnot := List.find?_eq_none.mp hfind custom hmem
      simp [hname] at hnot
    cases hparse : r.deserialize name with
    | none =>
      have hmem : name ∉ availableProfiles r := by
        rw [mem_availableProfiles]
        rintro (⟨v, hv, rfl⟩ | h)
        · rw [hr.reads v hv] at hparse
          cases hparse
        · exact hcustom h
      rw [if_neg hmem]
      rfl
    | some v =>
      by_cases hserialize : r.serialize v = name
      · have hmem : name ∈ availableProfiles r :=
          mem_availableProfiles.mpr (.inl ⟨v, hr.listed name v hparse, hserialize⟩)
        rw [if_pos hmem]
        simp only [hserialize, ↓reduceIte, Except.map, TlsProfile.name]
      · have hmem : name ∉ availableProfiles r := by
          rw [mem_availableProfiles]
          rintro (⟨u, hu, hname⟩ | h)
          · have hread := hr.reads u hu
            rw [hname, hparse] at hread
            obtain rfl := Option.some.inj hread
            exact hserialize hname
          · exact hcustom h
        simp only [if_neg hserialize, if_neg hmem, Except.map]

/-- The service accepts exactly the names that a holder of its tables resolves, under the
same concrete name. -/
theorem canonical_resolves (hr : r.Pinned) (name : String) :
    canonicalProfileName r name =
      match (profiles r hr).resolveProfile name with
      | some concrete => .ok concrete
      | none => .error (.fromCode .invalidProfile) := by
  rw [← canonical_eq_resolve]
  have hsame : canonicalProfileName r name =
      canonicalProfileName r ((profileAliases.lookup name).getD name) := by
    cases hlookup : profileAliases.lookup name with
    | none => rfl
    | some target =>
      have hnone : profileAliases.lookup target = none :=
        available_apart hr (mem_availableProfiles.mpr (.inr (alias_target hlookup)))
      simp only [canonicalProfileName, parseTlsProfile, hlookup, hnone, Option.getD_some,
        Option.getD_none]
  have hnone : profileAliases.lookup ((profileAliases.lookup name).getD name) = none := by
    cases hlookup : profileAliases.lookup name with
    | none => exact hlookup
    | some target =>
      exact available_apart hr (mem_availableProfiles.mpr (.inr (alias_target hlookup)))
  rw [hsame, parse_concrete hr hnone]
  simp only [Profiles.canonicalProfileName, profiles, List.contains_iff_mem]
  split <;> rfl

/-- An accepted name leads to a listed profile, which stands for itself. -/
theorem canonical_listed (hr : r.Pinned) {name concrete : String}
    (h : canonicalProfileName r name = .ok concrete) :
    concrete ∈ availableProfiles r ∧ canonicalProfileName r concrete = .ok concrete := by
  rw [canonical_resolves hr, ← canonical_eq_resolve] at h
  have hmem : concrete ∈ availableProfiles r := by
    by_cases hlisted :
      (availableProfiles r).contains ((profileAliases.lookup name).getD name) = true
    · have hcanonical : (profiles r hr).canonicalProfileName name =
          some ((profileAliases.lookup name).getD name) := if_pos hlisted
      rw [hcanonical] at h
      rw [← Except.ok.inj h]
      exact List.contains_iff_mem.mp hlisted
    · have hcanonical : (profiles r hr).canonicalProfileName name = none := if_neg hlisted
      rw [hcanonical] at h
      cases h
  refine ⟨hmem, ?_⟩
  rw [parse_concrete hr (available_apart hr hmem), if_pos hmem]

def visible (c : Char) : Bool := ' ' ≤ c && c ≤ '~'
def printable (text : String) : Bool := text.toList.all visible

theorem printable_append {a b : String} (ha : printable a = true) (hb : printable b = true) :
    printable (a ++ b) = true := by
  simp only [printable, String.toList_append, List.all_append, Bool.and_eq_true] at ha hb ⊢
  exact ⟨ha, hb⟩

theorem printable_repr (n : ℕ) : printable n.repr = true := by
  rw [printable, Nat.toList_repr, List.all_eq_true]
  intro c hc
  have hdigit := Nat.isDigit_of_mem_toDigits (by decide) (by decide) hc
  simp only [Char.isDigit, visible, Bool.and_eq_true, decide_eq_true_eq, Char.le_def] at hdigit ⊢
  exact ⟨UInt32.le_trans (by decide) hdigit.1, UInt32.le_trans hdigit.2 (by decide)⟩

theorem getD_mem {α : Type} (l : List α) (n : ℕ) (d : α) : l.getD n d ∈ d :: l := by
  rw [List.getD_eq_getElem?_getD]
  cases h : l[n]? with
  | none => exact List.mem_cons_self
  | some a => exact List.mem_cons_of_mem _ (List.mem_of_getElem? h)

theorem printable_hint (n : ℕ) : printable (String.ofList [hintChars.getD n ' ']) = true := by
  have hall : (' ' :: hintChars).all (fun c => printable (String.ofList [c])) = true := by decide
  exact List.all_eq_true.mp hall _ (getD_mem hintChars n ' ')

theorem printable_version (n : ℕ) : printable (hintVersions.getD n "") = true := by
  have hall : ("" :: hintVersions).all printable = true := by decide
  exact List.all_eq_true.mp hall _ (getD_mem hintVersions n "")

theorem brands_printable (major : ℕ) : ∀ brand ∈ brands major, printable brand = true := by
  have hrepr := printable_repr major
  have hgreased := printable_append (printable_append (printable_append (printable_append
    (printable_append (printable_append (show printable "\"Not" = true by decide)
      (printable_hint (major % 11))) (show printable "A" = true by decide))
      (printable_hint ((major + 1) % 11))) (show printable "Brand\";v=\"" = true by decide))
      (printable_version (major % 3))) (show printable "\"" = true by decide)
  have hchromium := printable_append (printable_append
    (show printable "\"Chromium\";v=\"" = true by decide) hrepr)
      (show printable "\"" = true by decide)
  have hchrome := printable_append (printable_append
    (show printable "\"Google Chrome\";v=\"" = true by decide) hrepr)
      (show printable "\"" = true by decide)
  intro brand hbrand
  simp only [brands, List.mem_cons, List.not_mem_nil, or_false] at hbrand
  rcases hbrand with rfl | rfl | rfl
  · exact hgreased
  · exact hchromium
  · exact hchrome

theorem arrange_printable {brands : List String} (h : ∀ brand ∈ brands, printable brand = true)
    (order : List ℕ) : ∀ brand ∈ arrange brands order, printable brand = true := by
  have hfold : ∀ (pairs : List (String × ℕ)) (ordered : List String),
      (∀ pair ∈ pairs, printable pair.1 = true) → (∀ brand ∈ ordered, printable brand = true) →
      ∀ brand ∈ pairs.foldl (fun ordered b => ordered.set b.2 b.1) ordered,
        printable brand = true := by
    intro pairs
    induction pairs with
    | nil => exact fun ordered _ hordered => hordered
    | cons pair pairs ih =>
      intro ordered hpairs hordered
      apply ih _ (fun p hp => hpairs p (List.mem_cons_of_mem _ hp))
      intro brand hbrand
      rcases List.mem_or_eq_of_mem_set hbrand with hold | rfl
      · exact hordered brand hold
      · exact hpairs pair List.mem_cons_self
  apply hfold
  · exact fun pair hpair => h pair.1 (List.of_mem_zip hpair).1
  · decide

theorem intercalate_printable {parts : List String} (h : ∀ part ∈ parts, printable part = true) :
    printable (String.intercalate ", " parts) = true := by
  induction parts with
  | nil => decide
  | cons part parts ih =>
    have hpart := h part List.mem_cons_self
    have hrest := ih fun p hp => h p (List.mem_cons_of_mem _ hp)
    cases parts with
    | nil => rwa [String.intercalate_singleton]
    | cons next parts =>
      rw [String.intercalate_cons_cons]
      exact printable_append (printable_append hpart (by decide)) hrest

/-- The derived client hint is a header value for every version. -/
theorem secChUa_printable (major : ℕ) : printable (secChUa major) = true :=
  intercalate_printable (arrange_printable (brands_printable major) _)

theorem printable_pair {name value : String} (hne : name.toList.isEmpty = false)
    (hname : name.toList.all tokenChar = true) (hvalue : printable value = true) :
    headerPairs [(name, value)] = true := by
  have hall : value.toList.all (fun c => c != '\r' && c != '\n' && c != Char.ofNat 0) = true := by
    rw [printable, List.all_eq_true] at hvalue
    rw [List.all_eq_true]
    intro c hc
    have hvisible := hvalue c hc
    simp only [Bool.and_eq_true, bne_iff_ne]
    refine ⟨⟨?_, ?_⟩, ?_⟩ <;>
    · rintro rfl
      exact absurd hvisible (by decide)
  simp only [headerPairs, List.all_cons, List.all_nil, hne, hname, hall, Bool.not_false,
    Bool.and_self]

theorem headerPairs_cons (h : String × String) (rest : List (String × String)) :
    headerPairs (h :: rest) = (headerPairs [h] && headerPairs rest) := by
  simp only [headerPairs, List.all_cons, List.all_nil, Bool.and_true]

theorem headerPairs_insert {name value : String} {headers : List (String × String)}
    (hpair : headerPairs [(name, value)] = true) (h : headerPairs headers = true) :
    headerPairs (insertHeader name value headers) = true := by
  induction headers with
  | nil => exact hpair
  | cons first rest ih =>
    rw [headerPairs_cons, Bool.and_eq_true] at h
    rw [insertHeader]
    split
    · rw [headerPairs_cons, Bool.and_eq_true]
      refine ⟨hpair, List.all_eq_true.mpr fun p hp => ?_⟩
      exact List.all_eq_true.mp h.2 p (List.mem_of_mem_filter hp)
    · rw [headerPairs_cons, Bool.and_eq_true]
      exact ⟨h.1, ih h.2⟩

theorem custom_printable : (customProfiles.all fun custom =>
    printable custom.userAgent && custom.navigationAccept.all printable) = true := by
  decide +kernel

theorem customHeaders_ok (hr : r.Pinned) {custom : CustomChrome}
    (hcustom : custom ∈ customProfiles) :
    headerPairs (customHeaders r custom) = true := by
  have hstatic := List.all_eq_true.mp custom_printable custom hcustom
  rw [Bool.and_eq_true] at hstatic
  have hagent : headerPairs [("user-agent", custom.userAgent)] = true :=
    printable_pair rfl (by decide) hstatic.1
  have hbrands : headerPairs [("sec-ch-ua", secChUa custom.major)] = true :=
    printable_pair rfl (by decide) (secChUa_printable custom.major)
  have hbase := headerPairs_insert hbrands (headerPairs_insert hagent
    (hr.headers r.chrome149 hr.chrome149 custom.platform))
  unfold customHeaders
  cases haccept : custom.navigationAccept with
  | none => exact hbase
  | some accept =>
    rw [haccept] at hstatic
    have hpair : headerPairs [("accept", accept)] = true :=
      printable_pair rfl (by decide) hstatic.2
    exact headerPairs_insert hpair hbase

/-- Every descriptor belongs to a listed profile and holds header pairs. -/
theorem headerDescriptors_ok (hr : r.Pinned) : ∀ descriptor ∈ headerDescriptors r,
    descriptor.1 ∈ availableProfiles r ∧ headerPairs descriptor.2 = true := by
  intro descriptor hdescriptor
  obtain ⟨profile, hprofile, rfl⟩ := List.mem_map.mp hdescriptor
  refine ⟨List.mem_map_of_mem hprofile, ?_⟩
  rcases List.mem_append.mp hprofile with hlisted | hcustom
  · obtain ⟨v, hv, rfl⟩ := List.mem_map.mp hlisted
    exact hr.headers v hv none
  · obtain ⟨custom, hmem, rfl⟩ := List.mem_map.mp hcustom
    exact customHeaders_ok hr hmem

inductive Release where
  | chrome131 | chrome149 | firefox128
  deriving DecidableEq, Repr

def Release.serialize : Release → String
  | .chrome131 => "chrome_131"
  | .chrome149 => "chrome_149"
  | .firefox128 => "firefox_128"

/-- Serde also reads the name of a variant, which the service does not take. -/
def Release.deserialize (name : String) : Option Release :=
  [("chrome_131", chrome131), ("chrome_149", chrome149), ("Chrome149", chrome149),
    ("firefox_128", firefox128)].lookup name

def Release.headers (release : Release) (platform : Option Platform) : List (String × String) :=
  [("sec-ch-ua-platform", if platform = some .windows then "\"Windows\"" else "\"macOS\""),
    ("user-agent", if release = firefox128 then "Firefox/128.0" else "Chrome/149.0.0.0")]

def smallRegistry : Registry where
  Variant := Release
  variants := [.chrome131, .chrome149, .firefox128]
  chrome149 := .chrome149
  serialize := Release.serialize
  deserialize := Release.deserialize
  headers := Release.headers

theorem Release.listed (release : Release) : release ∈ smallRegistry.variants := by
  show release ∈ [Release.chrome131, .chrome149, .firefox128]
  cases release <;> decide

theorem smallRegistry_pinned : smallRegistry.Pinned where
  reads v _ := by cases v <;> rfl
  listed _ v _ := Release.listed v
  apart v _ := by cases v <;> rfl
  named v _ := by cases v <;> (show profileName _ = true; decide)
  headers v _ platform := by
    have hall : ∀ release : Release, ∀ windows : Bool, headerPairs
        (release.headers (if windows then some .windows else none)) = true := by
      rintro (_ | _ | _) (_ | _) <;> decide
    have hsame : Release.headers v platform =
        Release.headers v (if platform = some .windows then some .windows else none) := by
      by_cases h : platform = some .windows <;> simp [Release.headers, h]
    show headerPairs (Release.headers v platform) = true
    rw [hsame]
    have hchosen := hall v (decide (platform = some .windows))
    simpa using hchosen
  chrome149 := Release.listed _

end ProfileRegistry
