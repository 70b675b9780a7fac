import Mathlib.Data.List.Destutter
import Ja3Proxy.ManagedJar

/-! The allowed origins of a context (`normalize_origins` in `src/contexts.rs`,
`src/validation.rs`). A managed context is bound to one site, so all its origins share a
scheme. -/
namespace AllowedOrigins

open CookieModel ExceptRules ManagedJar TransportErrors

inductive CookieMode where
  | external | managed
  deriving DecidableEq, Repr

structure OriginSpec where
  cookieMode : CookieMode
  allowedOrigins : List String
  maxAllowedOrigins : ℕ
  deriving DecidableEq, Repr

def site (x : Crates) (u : Url) : String :=
  u.scheme.text ++ "://" ++ (match u.host with
    | .domain name => (x.domainStr name).getD name
    | .ip literal => literal)

def bindSite (x : Crates) (mode : CookieMode) (u : Url) (partitionKey : Option String) :
    Except TransportError (Option String) :=
  if mode = .managed then
    (rejectIf (partitionKey.any (· != site x u))
      (invalid "Eine Cookie-Sitzung muss an eine feste First-Party-Site gebunden sein.")).bind
      fun _ => .ok (some (site x u))
  else .ok partitionKey

def originsLoop (x : Crates) (mode : CookieMode) :
    List String → Option String → Except TransportError (List String × Option String)
  | [], partitionKey => .ok ([], partitionKey)
  | origin :: rest, partitionKey =>
    (rejectIf (2048 < origin.utf8ByteSize) (invalid "Der Cookie-Ursprung ist zu lang.")).bind
      fun _ =>
    match x.parseUrl origin with
    | none => .error (invalid "Der Cookie-Ursprung ist ungültig.")
    | some u =>
      (rejectIf (u.username != "" || u.password.isSome || u.query.isSome ||
          u.fragment.isSome || u.path != "/")
        (invalid "Der Cookie-Ursprung ist ungültig.")).bind fun _ =>
      (bindSite x mode u partitionKey).bind fun partitionKey =>
      (originsLoop x mode rest partitionKey).bind fun (origins, partitionKey) =>
      .ok (u.origin :: origins, partitionKey)

def normalizeOrigins (x : Crates) (spec : OriginSpec) :
    Except TransportError (List String × Option String) :=
  (rejectIf (spec.maxAllowedOrigins < spec.allowedOrigins.length ||
      (spec.cookieMode == .managed && spec.allowedOrigins.isEmpty))
    (invalid "Die erlaubten Cookie-Ursprünge sind ungültig.")).bind fun _ =>
  (originsLoop x spec.cookieMode spec.allowedOrigins none).bind fun (origins, partitionKey) =>
  .ok ((origins.insertionSort (· ≤ ·)).destutter (· ≠ ·), partitionKey)

def invalidUrl : TransportError := .new .invalidRequest "Die Zieladresse ist ungültig."

def parseTarget (x : Crates) (value : String) : Except TransportError Url :=
  match x.parseUrl value with
  | none => .error invalidUrl
  | some u =>
    (rejectIf (u.username != "" || u.password.isSome || u.fragment.isSome || u.port == some 0)
      invalidUrl).bind fun _ => .ok u

def validateOrigin (x : Crates) (value : String) (allowedOrigins : List String) :
    Except TransportError Url :=
  (parseTarget x value).bind fun u =>
  (rejectIf (!allowedOrigins.contains u.origin)
    (.new .ssrfBlocked "Das Ziel liegt außerhalb der erlaubten Ursprünge.")).bind fun _ => .ok u

theorem validateOrigin_parse {x : Crates} {value : String} {origins : List String} {u : Url}
    (h : validateOrigin x value origins = .ok u) :
    x.parseUrl value = some u ∧ u.origin ∈ origins := by
  simp only [validateOrigin, parseTarget, bind_ok, rejectIf_ok] at h
  obtain ⟨v, hv, _, horigin, hu⟩ := h
  cases hu
  refine ⟨?_, by simpa using horigin⟩
  cases hparse : x.parseUrl value with
  | none => simp [hparse] at hv
  | some w =>
    simp only [hparse, bind_ok, rejectIf_ok] at hv
    obtain ⟨_, _, hw⟩ := hv
    cases hw
    rfl

/-- Every allowed origin is the origin of a URL of the site `key`. -/
def Bound (x : Crates) (key : String) (origins : List String) : Prop :=
  ∀ o ∈ origins, ∃ u, x.IsUrl u ∧ u.origin = o ∧ site x u = key

private theorem bindSite_managed {x : Crates} {u : Url} {before after : Option String}
    (h : bindSite x .managed u before = .ok after) :
    after = some (site x u) ∧ ∀ k ∈ before, k = site x u := by
  simp only [bindSite, if_pos, bind_ok, rejectIf_ok] at h
  obtain ⟨_, hsame, hafter⟩ := h
  cases hafter
  refine ⟨rfl, ?_⟩
  intro k hk
  rw [Option.mem_def.mp hk] at hsame
  simpa using hsame

/-- The key of a later origin is the key of every origin before it. -/
private theorem originsLoop_bound {x : Crates} {texts : List String} {before : Option String}
    {origins : List String} {key : Option String}
    (h : originsLoop x .managed texts before = .ok (origins, key)) :
    (∀ k ∈ before, key = some k) ∧ (∀ k, key = some k → Bound x k origins) := by
  induction texts generalizing before origins key with
  | nil =>
    cases h
    exact ⟨fun k hk => hk, fun k _ o ho => absurd ho List.not_mem_nil⟩
  | cons text texts ih =>
    simp only [originsLoop, bind_ok, rejectIf_ok] at h
    obtain ⟨_, _, h⟩ := h
    cases hparse : x.parseUrl text with
    | none => simp [hparse] at h
    | some u =>
      simp only [hparse, bind_ok, rejectIf_ok] at h
      obtain ⟨_, _, now, hnow, ⟨rest, last⟩, hrest, hout⟩ := h
      cases hout
      obtain ⟨hbefore, hbound⟩ := ih hrest
      obtain ⟨rfl, hsame⟩ := bindSite_managed hnow
      have hlast := hbefore _ rfl
      constructor
      · intro k hk
        rw [hsame k hk, hlast]
      · intro k hk o ho
        rcases List.mem_cons.mp ho with rfl | ho
        · exact ⟨u, ⟨text, hparse⟩, rfl, Option.some.inj (hlast.symm.trans hk)⟩
        · exact hbound k hk o ho

theorem normalizeOrigins_bound {x : Crates} {spec : OriginSpec} {origins : List String}
    {key : String} (hmode : spec.cookieMode = .managed)
    (h : normalizeOrigins x spec = .ok (origins, some key)) : Bound x key origins := by
  simp only [normalizeOrigins, bind_ok, rejectIf_ok, hmode] at h
  obtain ⟨_, _, ⟨found, last⟩, hloop, hout⟩ := h
  cases hout
  intro o ho
  apply (originsLoop_bound hloop).2 key rfl o
  have hsorted := (List.destutter_sublist _ _).subset ho
  exact (List.mem_insertionSort _).mp hsorted

private theorem scheme_of_text {s t : Scheme} {a b : String}
    (h : s.text ++ ("://" ++ a) = t.text ++ ("://" ++ b)) : s = t := by
  have hchars := congrArg String.toList h
  rw [String.toList_append, String.toList_append, String.toList_append, String.toList_append]
    at hchars
  cases s <;> cases t <;> simp [Scheme.text] at hchars ⊢

theorem origin_scheme {u v : Url} (h : u.origin = v.origin) : u.scheme = v.scheme := by
  simp only [Url.origin, String.append_assoc] at h
  exact scheme_of_text h

/-- All allowed origins have the scheme of any one of them. -/
theorem Bound.scheme_eq {x : Crates} {key : String} {origins : List String} {u v : Url}
    (h : Bound x key origins) (hu : u.origin ∈ origins) (hv : v.origin ∈ origins) :
    u.scheme = v.scheme := by
  obtain ⟨a, _, ha, hka⟩ := h _ hu
  obtain ⟨b, _, hb, hkb⟩ := h _ hv
  have hab : a.scheme = b.scheme := by
    have hsite := hka.trans hkb.symm
    simp only [site, String.append_assoc] at hsite
    exact scheme_of_text hsite
  rw [origin_scheme ha.symm, hab, origin_scheme hb]

end AllowedOrigins
