import Mathlib.Data.List.DropRight
import Mathlib.Data.List.Nodup
import Ja3Proxy.AsciiText

/-! The header order and the HTTP/2 weight of one request (`src/emulation.rs`,
`src/emulation/chrome.rs`). A header map keeps its names in the order of their first insertion. -/
namespace HeaderShaping

open AsciiText (HeaderValue toStr trim)

structure HeaderMap where
  entries : List (String × List HeaderValue)
  nodup : (entries.map Prod.fst).Nodup
  filled : ∀ e ∈ entries, e.2 ≠ []

namespace HeaderMap

variable (m : HeaderMap)

def keys : List String := m.entries.map Prod.fst

def getAll (name : String) : List HeaderValue := (m.entries.lookup name).getD []

def get (name : String) : Option HeaderValue := (m.getAll name).head?

def containsKey (name : String) : Bool := m.keys.contains name

end HeaderMap

inductive RequestKind where
  | navigation
  | fetch
  | fetchWithBody
  deriving DecidableEq, Repr

def requestKind (method : String) (hasBody : Bool) (header : String → Option (List Char)) :
    RequestKind :=
  let navigation :=
    match header "sec-fetch-mode", header "sec-fetch-dest" with
    | some mode, _ => (trim mode).map Char.toLower == "navigate".toList
    | none, some dest =>
      ["document", "iframe", "frame", "fencedframe"].any fun kind =>
        (trim dest).map Char.toLower == kind.toList
    | none, none =>
      (header "upgrade-insecure-requests").isSome || (header "sec-fetch-user").isSome
        || (!hasBody && (method == "GET" || method == "HEAD"))
  if navigation then .navigation
  else if hasBody || method == "POST" || method == "PUT" || method == "PATCH" then .fetchWithBody
  else .fetch

structure HeaderTemplate where
  before : List String
  after : List String

structure HeaderOrder where
  navigation : HeaderTemplate
  fetch : HeaderTemplate
  fetchWithBody : HeaderTemplate

def headerOrder : HeaderOrder where
  navigation :=
    { before :=
        ["host", "content-length", "cache-control", "sec-ch-ua", "sec-ch-ua-mobile",
          "sec-ch-ua-platform", "upgrade-insecure-requests", "content-type", "user-agent"]
      after :=
        ["origin", "accept", "sec-fetch-site", "sec-fetch-mode", "sec-fetch-user",
          "sec-fetch-dest", "referer", "accept-encoding", "accept-language", "cookie",
          "priority"] }
  fetch :=
    { before := ["host", "sec-ch-ua-platform", "sec-ch-ua", "user-agent"]
      after :=
        ["sec-ch-ua-mobile", "accept", "origin", "sec-fetch-site", "sec-fetch-mode",
          "sec-fetch-dest", "referer", "accept-encoding", "accept-language", "cookie",
          "priority"] }
  fetchWithBody :=
    { before := ["host", "content-length", "sec-ch-ua-platform", "sec-ch-ua", "content-type"]
      after :=
        ["sec-ch-ua-mobile", "user-agent", "accept", "origin", "sec-fetch-site",
          "sec-fetch-mode", "sec-fetch-dest", "referer", "accept-encoding", "accept-language",
          "cookie", "priority"] }

def HeaderOrder.template (order : HeaderOrder) : RequestKind → HeaderTemplate
  | .navigation => order.navigation
  | .fetch => order.fetch
  | .fetchWithBody => order.fetchWithBody

namespace HeaderTemplate

variable (t : HeaderTemplate)

def known (name : String) : Bool := t.before.contains name || t.after.contains name

/-- One iteration of the loop that collects the other names. -/
def collect (unknown : List String) (name : String) : List String :=
  if !t.known name && !unknown.contains name then unknown ++ [name] else unknown

def order (names : List String) : List String :=
  t.before ++ names.foldl t.collect [] ++ t.after

end HeaderTemplate

/-- `str::parse::<u8>` -/
def parseU8 (text : List Char) : Option ℕ :=
  let digits := if text.head? = some '+' then text.tail else text
  if digits.isEmpty || !digits.all Char.isDigit then none
  else
    let value := digits.foldl (fun n c => n * 10 + (c.toNat - '0'.toNat)) 0
    if value < 256 then some value else none

def urgency (priority : List Char) : ℕ :=
  let members := (priority.splitOn ',').filterMap fun member =>
    if "u=".toList.isPrefixOf (trim member) then some ((trim member).drop 2) else none
  let values := members.filterMap fun value => parseU8 (trim value)
  (values.getLast?.filter (Nat.ble · 7)).getD 3

def weight (urgency : ℕ) : ℕ := [256, 220, 183, 147, 110, 74, 37, 1].getD (min urgency 7) 0

inductive WireOrder where
  | caller
  | browser
  deriving DecidableEq, Repr

structure RequestShaping where
  order : Option HeaderOrder
  weightFromPriority : Bool

@[ext] structure Shaped where
  origHeaders : Option (List String)
  weight : Option ℕ
  deriving DecidableEq, Repr

/-- `caller.get(name).or_else(|| defaults.get(name)).and_then(to_str)` -/
def effective (caller defaults : HeaderMap) (name : String) : Option (List Char) :=
  ((caller.get name).or (defaults.get name)).bind fun value => (toStr value).map String.toList

def RequestShaping.shape (shaping : RequestShaping) (method : String) (hasBody : Bool)
    (caller defaults : HeaderMap) (wireOrder : WireOrder) : Shaped :=
  let template :=
    match wireOrder with
    | .browser => shaping.order
    | .caller => none
  { origHeaders := template.map fun order =>
      (order.template (requestKind method hasBody (effective caller defaults))).order
        (caller.keys ++ defaults.keys.filter fun name => !caller.containsKey name)
    weight :=
      if shaping.weightFromPriority then
        (effective caller defaults "priority").map fun priority => weight (urgency priority)
      else none }

inductive TlsProfile where
  | registry (name : String)
  | custom (weightFromPriority : Bool)

def TlsProfile.shaping : TlsProfile → RequestShaping
  | .registry name =>
    ⟨if "chrome_".toList.isPrefixOf name.toList then some headerOrder else none, false⟩
  | .custom weightFromPriority => ⟨some headerOrder, weightFromPriority⟩

namespace HeaderMap

theorem mem_keys_iff (m : HeaderMap) (name : String) : name ∈ m.keys ↔ m.getAll name ≠ [] := by
  obtain ⟨entries, nodup, filled⟩ := m
  simp only [keys, getAll]
  clear nodup
  induction entries with
  | nil => simp
  | cons e rest ih =>
    obtain ⟨key, values⟩ := e
    by_cases hkey : name = key
    · have hvalues : values ≠ [] := filled (key, values) (by simp)
      simp [hkey, hvalues]
    · have hrest : ∀ e ∈ rest, e.2 ≠ [] := fun e he => filled e (by simp [he])
      have hne : (name == key) = false := by simpa using hkey
      rw [List.map_cons, List.mem_cons, List.lookup_cons, hne, ← ih hrest]
      simp [hkey]

theorem mem_keys_congr {m m' : HeaderMap} (h : ∀ name, m.getAll name = m'.getAll name)
    (name : String) : name ∈ m.keys ↔ name ∈ m'.keys := by
  rw [mem_keys_iff, mem_keys_iff, h]

theorem containsKey_congr {m m' : HeaderMap} (h : ∀ name, m.getAll name = m'.getAll name) :
    m.containsKey = m'.containsKey := by
  funext name
  simp only [containsKey, List.contains_eq_mem, mem_keys_congr h]

def place (name : String) (f : List HeaderValue → List HeaderValue) :
    List (String × List HeaderValue) → List (String × List HeaderValue)
  | [] => [(name, f [])]
  | e :: rest => if e.1 = name then (e.1, f e.2) :: rest else e :: place name f rest

theorem mem_place {name other : String} {f : List HeaderValue → List HeaderValue}
    {entries : List (String × List HeaderValue)} :
    other ∈ (place name f entries).map Prod.fst ↔ other ∈ entries.map Prod.fst ∨ other = name := by
  induction entries with
  | nil => simp [place]
  | cons e rest ih =>
    unfold place
    by_cases h : e.1 = name
    · rw [if_pos h]
      simp only [List.map_cons, List.mem_cons, ← h]
      tauto
    · simp only [if_neg h, List.map_cons, List.mem_cons, ih]
      tauto

theorem place_nodup {name : String} {f : List HeaderValue → List HeaderValue}
    {entries : List (String × List HeaderValue)} (h : (entries.map Prod.fst).Nodup) :
    ((place name f entries).map Prod.fst).Nodup := by
  induction entries with
  | nil => exact List.nodup_singleton name
  | cons e rest ih =>
    obtain ⟨hnot, hrest⟩ := List.nodup_cons.mp h
    unfold place
    by_cases hname : e.1 = name
    · rw [if_pos hname]
      exact h
    · rw [if_neg hname]
      refine List.nodup_cons.mpr ⟨fun hmem => ?_, ih hrest⟩
      rcases mem_place.mp hmem with hold | hnew
      · exact hnot hold
      · exact hname hnew

theorem place_filled {name : String} {f : List HeaderValue → List HeaderValue}
    {entries : List (String × List HeaderValue)} (hf : ∀ values, f values ≠ [])
    (h : ∀ e ∈ entries, e.2 ≠ []) : ∀ e ∈ place name f entries, e.2 ≠ [] := by
  induction entries with
  | nil =>
    intro e he
    rw [List.mem_singleton.mp he]
    exact hf []
  | cons e rest ih =>
    have hrest := ih fun e' he' => h e' (List.mem_cons_of_mem e he')
    unfold place
    split
    · intro e' he'
      rcases List.mem_cons.mp he' with rfl | he'
      · exact hf e.2
      · exact h e' (List.mem_cons_of_mem e he')
    · intro e' he'
      rcases List.mem_cons.mp he' with rfl | he'
      · exact h e' List.mem_cons_self
      · exact hrest e' he'

theorem lookup_place (name other : String) (f : List HeaderValue → List HeaderValue)
    (entries : List (String × List HeaderValue)) :
    ((place name f entries).lookup other).getD [] =
      if other = name then f ((entries.lookup name).getD [])
        else (entries.lookup other).getD [] := by
  induction entries with
  | nil =>
    by_cases h : other = name
    · simp [place, h]
    · have hother : (other == name) = false := by simpa using h
      simp [place, List.lookup_cons, hother, h]
  | cons e rest ih =>
    obtain ⟨key, values⟩ := e
    unfold place
    by_cases hkey : key = name
    · subst hkey
      rw [if_pos rfl, List.lookup_cons_self, List.lookup_cons, List.lookup_cons]
      by_cases hother : other = key
      · simp [hother]
      · have hfalse : (other == key) = false := by simpa using hother
        simp [hother, hfalse]
    · have hname : (name == key) = false := by simpa using fun h => hkey h.symm
      rw [if_neg hkey, List.lookup_cons, List.lookup_cons, List.lookup_cons, hname]
      by_cases hother : other = key
      · simp [hother, hkey]
      · have hfalse : (other == key) = false := by simpa using hother
        rw [hfalse]
        exact ih

variable (m : HeaderMap) (name : String) (value : HeaderValue)

def append : HeaderMap where
  entries := place name (· ++ [value]) m.entries
  nodup := place_nodup m.nodup
  filled := place_filled (fun values => by simp) m.filled

def insert : HeaderMap where
  entries := place name (fun _ => [value]) m.entries
  nodup := place_nodup m.nodup
  filled := place_filled (fun _ => List.cons_ne_nil _ _) m.filled

def empty : HeaderMap := ⟨[], List.nodup_nil, fun _ h => absurd h (List.not_mem_nil)⟩

@[simp] theorem getAll_empty (other : String) : empty.getAll other = [] := rfl

@[simp] theorem getAll_append (other : String) :
    (m.append name value).getAll other =
      if other = name then m.getAll name ++ [value] else m.getAll other :=
  lookup_place name other _ m.entries

@[simp] theorem getAll_insert (other : String) :
    (m.insert name value).getAll other = if other = name then [value] else m.getAll other :=
  lookup_place name other _ m.entries

end HeaderMap

theorem effective_congr {m m' : HeaderMap} (h : ∀ name, m.getAll name = m'.getAll name)
    (defaults : HeaderMap) : effective m defaults = effective m' defaults := by
  funext name
  simp only [effective, HeaderMap.get, h]

namespace HeaderTemplate

variable (t : HeaderTemplate)

theorem known_iff (name : String) : t.known name = true ↔ name ∈ t.before ++ t.after := by
  simp [known]

theorem foldl_collect {names unknown : List String} (hnames : names.Nodup)
    (hfresh : ∀ name ∈ names, name ∉ unknown) :
    names.foldl t.collect unknown = unknown ++ names.filter fun name => !t.known name := by
  induction names generalizing unknown with
  | nil => simp
  | cons name rest ih =>
    obtain ⟨hname, hrest⟩ := List.nodup_cons.mp hnames
    have hmem : name ∉ unknown := hfresh name (by simp)
    have hlater : ∀ n ∈ rest, n ∉ unknown := fun n hn => hfresh n (by simp [hn])
    by_cases hknown : t.known name
    · have hskip : t.collect unknown name = unknown := by simp [collect, hknown]
      rw [List.foldl_cons, hskip, ih hrest hlater]
      simp [hknown]
    · have hpush : t.collect unknown name = unknown ++ [name] := by
        simp [collect, hknown, hmem]
      have hfresh' : ∀ n ∈ rest, n ∉ unknown ++ [name] := by
        intro n hn hin
        rcases List.mem_append.mp hin with hin | hin
        · exact hlater n hn hin
        · exact hname (List.mem_singleton.mp hin ▸ hn)
      rw [List.foldl_cons, hpush, ih hrest hfresh']
      simp [hknown]

theorem order_eq {names : List String} (hnames : names.Nodup) :
    t.order names = t.before ++ (names.filter fun name => !t.known name) ++ t.after := by
  rw [order, t.foldl_collect hnames (by simp), List.nil_append]

theorem mem_order {names : List String} (hnames : names.Nodup) {name : String}
    (h : name ∈ names) : name ∈ t.order names := by
  rw [t.order_eq hnames]
  by_cases hknown : t.known name
  · rcases List.mem_append.mp ((t.known_iff name).mp hknown) with hin | hin
    · simp [hin]
    · simp [hin]
  · simp [h, hknown]

theorem order_nodup (ht : (t.before ++ t.after).Nodup) {names : List String}
    (hnames : names.Nodup) : (t.order names).Nodup := by
  rw [t.order_eq hnames]
  obtain ⟨hbefore, hafter, hapart⟩ := List.nodup_append'.mp ht
  have hunknown : ∀ name ∈ names.filter (fun name => !t.known name),
      name ∉ t.before ∧ name ∉ t.after := by
    intro name hin
    have hknown : ¬ t.known name = true := by simpa using (List.mem_filter.mp hin).2
    rw [t.known_iff, List.mem_append] at hknown
    exact not_or.mp hknown
  apply List.Nodup.append
  · apply hbefore.append (hnames.filter _)
    intro name hin hun
    exact (hunknown name hun).1 hin
  · exact hafter
  · intro name hin hin'
    rcases List.mem_append.mp hin with hin | hin
    · exact hapart hin hin'
    · exact (hunknown name hin).2 hin'

end HeaderTemplate

theorem headerOrder_nodup (kind : RequestKind) :
    ((headerOrder.template kind).before ++ (headerOrder.template kind).after).Nodup := by
  cases kind <;> decide +kernel

theorem shaping_order {profile : TlsProfile} {order : HeaderOrder}
    (h : profile.shaping.order = some order) : order = headerOrder := by
  cases profile with
  | registry name =>
    simp only [TlsProfile.shaping] at h
    split at h
    · exact (Option.some.inj h).symm
    · cases h
  | custom weightFromPriority => exact (Option.some.inj h).symm

def sentNames (caller defaults : HeaderMap) : List String :=
  caller.keys ++ defaults.keys.filter fun name => !caller.containsKey name

theorem mem_sentNames {caller defaults : HeaderMap} {name : String} :
    name ∈ sentNames caller defaults ↔ name ∈ caller.keys ∨ name ∈ defaults.keys := by
  by_cases h : name ∈ caller.keys <;> simp [sentNames, HeaderMap.containsKey, h]

theorem sentNames_nodup (caller defaults : HeaderMap) : (sentNames caller defaults).Nodup := by
  apply caller.nodup.append (defaults.nodup.filter _)
  intro name hcaller hdefaults
  have hnot := (List.mem_filter.mp hdefaults).2
  simp only [HeaderMap.containsKey, Bool.not_eq_true', List.contains_eq_mem,
    decide_eq_false_iff_not] at hnot
  exact hnot hcaller

theorem sentNames_filter_congr {caller caller' : HeaderMap} (defaults : HeaderMap)
    {p : String → Bool} (h : ∀ name, caller.getAll name = caller'.getAll name)
    (hkeys : caller.keys.filter p = caller'.keys.filter p) :
    (sentNames caller defaults).filter p = (sentNames caller' defaults).filter p := by
  simp only [sentNames, List.filter_append, hkeys, HeaderMap.containsKey_congr h]

theorem shape_browser (shaping : RequestShaping) (method : String) (hasBody : Bool)
    (caller defaults : HeaderMap) :
    (shaping.shape method hasBody caller defaults .browser).origHeaders =
      shaping.order.map fun order =>
        (order.template (requestKind method hasBody (effective caller defaults))).order
          (sentNames caller defaults) := rfl

theorem shape_congr (shaping : RequestShaping) (method : String) (hasBody : Bool)
    {caller caller' : HeaderMap} (defaults : HeaderMap)
    (h : ∀ name, caller.getAll name = caller'.getAll name)
    (hkeys : ∀ order, shaping.order = some order →
      let t := order.template (requestKind method hasBody (effective caller defaults))
      caller.keys.filter (fun name => !t.known name) =
        caller'.keys.filter fun name => !t.known name) :
    shaping.shape method hasBody caller defaults .browser =
      shaping.shape method hasBody caller' defaults .browser := by
  have heffective := effective_congr h defaults
  have horder : (shaping.shape method hasBody caller defaults .browser).origHeaders =
      (shaping.shape method hasBody caller' defaults .browser).origHeaders := by
    rw [shape_browser, shape_browser, ← heffective]
    cases hshaping : shaping.order with
    | none => rfl
    | some order =>
      simp only [Option.map_some]
      rw [HeaderTemplate.order_eq _ (sentNames_nodup caller defaults),
        HeaderTemplate.order_eq _ (sentNames_nodup caller' defaults),
        sentNames_filter_congr defaults h (hkeys order hshaping)]
  have hweight : (shaping.shape method hasBody caller defaults .browser).weight =
      (shaping.shape method hasBody caller' defaults .browser).weight := by
    simp only [RequestShaping.shape, heffective]
  exact Shaped.ext horder hweight

/-- Under the browser order of a profile with a template every name is listed once, the others
stand between the two parts of the template, and the order of the template's own names in the
caller's map makes no difference. -/
theorem browser_order (profile : TlsProfile) (order : HeaderOrder)
    (hprofile : profile.shaping.order = some order) (method : String) (hasBody : Bool)
    (caller defaults : HeaderMap) :
    let t := order.template (requestKind method hasBody (effective caller defaults))
    let outside : String → Bool := fun name => name ∉ t.before ++ t.after
    ∃ names,
      (profile.shaping.shape method hasBody caller defaults .browser).origHeaders = some names ∧
      names.Nodup ∧
      (∀ name, name ∈ caller.keys ∨ name ∈ defaults.keys → name ∈ names) ∧
      names = t.before ++
        (caller.keys ++ defaults.keys.filter (· ∉ caller.keys)).filter outside ++ t.after ∧
      ∀ caller' : HeaderMap, (∀ name, caller'.getAll name = caller.getAll name) →
        caller'.keys.filter outside = caller.keys.filter outside →
        profile.shaping.shape method hasBody caller' defaults .browser =
          profile.shaping.shape method hasBody caller defaults .browser := by
  intro t outside
  have houtside : outside = fun name => !t.known name := by
    funext name
    have hiff : t.known name = decide (name ∈ t.before ++ t.after) := by
      rw [Bool.eq_iff_iff, t.known_iff, decide_eq_true_iff]
    simp only [outside, hiff, decide_not]
  have hnodup := sentNames_nodup caller defaults
  have hsent : caller.keys ++ defaults.keys.filter (· ∉ caller.keys) =
      sentNames caller defaults := by
    simp [sentNames, HeaderMap.containsKey]
  refine ⟨t.order (sentNames caller defaults), ?_, ?_, ?_, ?_, ?_⟩
  · rw [shape_browser, hprofile, Option.map_some]
  · apply t.order_nodup _ hnodup
    have horder := shaping_order hprofile
    subst horder
    exact headerOrder_nodup _
  · intro name hname
    exact t.mem_order hnodup (mem_sentNames.mpr hname)
  · rw [t.order_eq hnodup, hsent, houtside]
  · intro caller' hsame hkeys
    apply Eq.symm
    apply shape_congr _ _ _ _ (fun name => (hsame name).symm)
    intro order' horder'
    rw [hprofile] at horder'
    cases horder'
    rw [houtside] at hkeys
    exact hkeys.symm

def agentFirst : HeaderMap where
  entries := [("user-agent", [[0x61]]), ("x-b", [[0x62], [0x63]])]
  nodup := by decide +kernel
  filled := by decide +kernel

def agentLast : HeaderMap where
  entries := [("x-b", [[0x62], [0x63]]), ("user-agent", [[0x61]])]
  nodup := by decide +kernel
  filled := by decide +kernel

def acceptDefaults : HeaderMap where
  entries := [("x-b", [[0x64]]), ("x-a", [[0x65]]), ("accept", [[0x66]])]
  nodup := by decide +kernel
  filled := by decide +kernel

theorem agent_getAll (name : String) : agentLast.getAll name = agentFirst.getAll name := by
  by_cases hagent : name = "user-agent"
  · subst hagent
    decide +kernel
  · have hne : (name == "user-agent") = false := by simpa using hagent
    by_cases hb : name = "x-b"
    · subst hb
      decide +kernel
    · have hne' : (name == "x-b") = false := by simpa using hb
      simp only [HeaderMap.getAll, agentLast, agentFirst, List.lookup_cons, hne, hne']

theorem browser_order_custom :
    ∃ names : List String,
      ((TlsProfile.custom true).shaping.shape "PUT" true agentFirst acceptDefaults
        .browser).origHeaders = some names ∧
      names.Nodup ∧
      names = headerOrder.fetchWithBody.before ++ ["x-b", "x-a"] ++
        headerOrder.fetchWithBody.after ∧
      (TlsProfile.custom true).shaping.shape "PUT" true agentLast acceptDefaults .browser =
        (TlsProfile.custom true).shaping.shape "PUT" true agentFirst acceptDefaults
          .browser := by
  obtain ⟨names, hnames, hnodup, -, heq, hcanonical⟩ :=
    browser_order (.custom true) headerOrder rfl "PUT" true agentFirst acceptDefaults
  refine ⟨names, hnames, hnodup, ?_, ?_⟩
  · rw [heq]
    decide +kernel
  · exact hcanonical agentLast agent_getAll (by decide +kernel)

end HeaderShaping
