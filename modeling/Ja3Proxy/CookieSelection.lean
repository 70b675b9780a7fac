import Mathlib.Order.RelIso.Basic
import Ja3Proxy.CookieUpdates

/-! Which cookies a jar sends, and in which order.
Both methods sort what the two stores match with one comparator, which looks at the length of
the paths and never at the paths. Two matched cookies that it cannot tell apart are the same
cookie, so that the order does not depend on how the stores are iterated or sorted. -/
namespace CookieSelection

open CookieModel CookieUpdates JarRoundTrip ManagedJar
open JarPolicy (emptyJar)

def compareDomain (left right : CookieDomain) : Ordering :=
  match left, right with
  | .hostOnly left, .hostOnly right => compare left right
  | .hostOnly _, .suffix _ => .lt
  | .suffix _, .hostOnly _ => .gt
  | .suffix left, .suffix right => compare left right

/-- The closure of `sort_unstable_by`. -/
def compareSent (left right : Cookie) : Ordering :=
  (compare right.path.utf8ByteSize left.path.utf8ByteSize).then <|
    (compare left.name right.name).then <|
      (compareDomain left.domain right.domain).then (compare left.partitioned right.partitioned)

theorem compareDomain_eq (left right : CookieDomain) :
    compareDomain left right =
      compare (ManagedJar.CookieDomain.rank left) (ManagedJar.CookieDomain.rank right) := by
  cases left <;> cases right <;> rfl

theorem compareSent_eq (left right : Cookie) :
    compareSent left right = compare (sendKey left) (sendKey right) := by
  rw [compareSent, compareDomain_eq]
  rfl

/-- The comparator orders as the key does. -/
theorem compareSent_lt {left right : Cookie} :
    compareSent left right = .lt ↔ sendKey left < sendKey right := by
  rw [compareSent_eq, compare_lt_iff_lt]

theorem compareSent_ne_gt {left right : Cookie} :
    compareSent left right ≠ .gt ↔ sendKey left ≤ sendKey right := by
  rw [compareSent_eq, compare_le_iff_le]

/-- The loop of `header`. -/
def headerLoop : String → List Cookie → String
  | header, [] => header
  | header, cookie :: rest =>
    let header := if header = "" then header else header ++ "; "
    headerLoop (header ++ cookie.name ++ "=" ++ cookie.value) rest

def sentHeader (cookies : List Cookie) : Option String :=
  if cookies.isEmpty then none else some (headerLoop "" cookies)

def pair (name value : String) : String := name ++ "=" ++ value

theorem pair_ne (name value : String) : pair name value ≠ "" := by
  intro h
  have hmem : '=' ∈ (pair name value).toList := by simp [pair]
  rw [h] at hmem
  exact List.not_mem_nil hmem

/-- The header is never empty again after the first pair, so every later pair is separated. -/
theorem headerLoop_eq {header : String} (h : header ≠ "") (cookies : List Cookie) :
    headerLoop header cookies =
      "; ".intercalate (header :: cookies.map fun c => pair c.name c.value) := by
  induction cookies generalizing header with
  | nil => simp [headerLoop]
  | cons c cookies ih =>
    have hnext : header ++ "; " ++ c.name ++ "=" ++ c.value =
        header ++ "; " ++ pair c.name c.value := by
      simp [pair, String.append_assoc]
    have hne : header ++ "; " ++ pair c.name c.value ≠ "" := by
      intro hempty
      exact h (String.append_eq_empty_iff.mp (String.append_eq_empty_iff.mp hempty).1).1
    rw [headerLoop, if_neg h, hnext, ih hne, List.map_cons, String.intercalate_cons_cons]
    rw [String.intercalate_cons_append]

theorem sentHeader_eq (cookies : List Cookie) :
    sentHeader cookies = if cookies = [] then none
      else some ("; ".intercalate (cookies.map fun c => pair c.name c.value)) := by
  cases cookies with
  | nil => rfl
  | cons c cookies =>
    have hfirst : "" ++ c.name ++ "=" ++ c.value = pair c.name c.value := by simp [pair]
    simp only [sentHeader, List.isEmpty_cons, Bool.false_eq_true, if_false, headerLoop, if_true,
      hfirst, headerLoop_eq (pair_ne _ _), reduceCtorEq, List.map_cons]

theorem joinPairs_eq (cookies : List Cookie) :
    joinPairs cookies = "; ".intercalate (cookies.map fun c => pair c.name c.value) := by
  induction cookies with
  | nil => rfl
  | cons c cookies ih =>
    cases cookies with
    | nil => simp [joinPairs, pair]
    | cons d cookies =>
      rw [joinPairs, ih]
      · simp [pair, String.intercalate_cons_cons, String.append_assoc]
      · simp

theorem header_eq_sentHeader (j : Jar) (x : Crates) (now : ℤ) (u : Url) :
    j.header x now u = sentHeader (j.sorted x now u) := by
  rw [sentHeader_eq, Jar.header]
  cases j.sorted x now u with
  | nil => rfl
  | cons c cookies =>
    simp only [reduceCtorEq, if_false]
    rw [joinPairs_eq]

def matching (j : Jar) (x : Crates) (now : ℤ) (u : Url) : List Cookie :=
  j.stores.ordinary.selected x now u ++ j.stores.chips.selected x now u

theorem mem_matching {j : Jar} {x : Crates} {now : ℤ} {u : Url} {c : Cookie} :
    c ∈ matching j x now u ↔
      (∃ p, c ∈ (j.stores.get p).cookies) ∧ c.expired now = false ∧ x.sends c u = true := by
  rw [← mem_contents]
  simp only [matching, Store.selected, List.mem_append, List.mem_filter, Store.mem_unexpired,
    contents]
  tauto

section Order

variable {j : Jar} {x : Crates} {now : ℤ} {u : Url}

theorem matching_nodup (hj : Sorted j.stores) : (matching j x now u).Nodup := by
  have hsub : (matching j x now u).Sublist (contents j.stores) := by
    rw [matching, contents]
    apply List.Sublist.append
    · exact List.filter_sublist.trans List.filter_sublist
    · exact List.filter_sublist.trans List.filter_sublist
  exact (contents_nodup hj).sublist hsub

/-- Matched cookies with the same key are the same: paths of one length that match one URL
are equal, and the stores keep one cookie for each domain, path and name. -/
theorem eq_of_key_matching (hj : Sorted j.stores) {c d : Cookie} (hc : c ∈ matching j x now u)
    (hd : d ∈ matching j x now u) (h : sendKey c = sendKey d) : c = d := by
  obtain ⟨hc, _, hcu⟩ := mem_matching.mp hc
  obtain ⟨hd, _, hdu⟩ := mem_matching.mp hd
  have hsent : ∀ {e : Cookie}, (∃ p, e ∈ (j.stores.get p).cookies) → x.sends e u = true →
      e ∈ (contents j.stores).filter fun c => x.sends c u := by
    intro e he heu
    exact List.mem_filter.mpr ⟨mem_contents.mpr he, heu⟩
  exact eq_of_sendKey hj (hsent hc hcu) (hsent hd hdu) h

theorem comparator_strict (hj : Sorted j.stores) :
    IsStrictTotalOrder {c // c ∈ matching j x now u} fun a b => compareSent a.1 b.1 = .lt := by
  let keyed : (fun a b : {c // c ∈ matching j x now u} => compareSent a.1 b.1 = .lt) ↪r
      fun a b : ℕᵒᵈ ×ₗ String ×ₗ (Bool ×ₗ String) ×ₗ Bool => a < b :=
    { toFun := fun c => sendKey c.1
      inj' := fun a b h => Subtype.ext (eq_of_key_matching hj a.2 b.2 h)
      map_rel_iff' := compareSent_lt.symm }
  exact keyed.isStrictTotalOrder

structure Sorts (order matched : List Cookie) : Prop where
  perm : order.Perm matched
  ascending : order.Pairwise fun a b => compareSent a b ≠ .gt

theorem sorts_sorted (j : Jar) (x : Crates) (now : ℤ) (u : Url) :
    Sorts (j.sorted x now u) (matching j x now u) where
  perm := List.perm_insertionSort _ _
  ascending := by
    have : IsTrans Cookie fun a b => sendKey a ≤ sendKey b := ⟨fun _ _ _ hab hbc => hab.trans hbc⟩
    have : Std.Total fun a b : Cookie => sendKey a ≤ sendKey b :=
      ⟨fun a b => le_total (sendKey a) (sendKey b)⟩
    have hsorted : (j.sorted x now u).Pairwise fun a b => sendKey a ≤ sendKey b :=
      List.pairwise_insertionSort _ _
    exact hsorted.imp compareSent_ne_gt.mpr

/-- Every sort of the matched cookies in whatever order gives the same list. -/
theorem sorts_unique (hj : Sorted j.stores) {matched order : List Cookie}
    (hmatched : matched.Perm (matching j x now u)) (h : Sorts order matched) :
    order = j.sorted x now u := by
  have hsorted := sorts_sorted j x now u
  apply List.Perm.eq_of_pairwise _ h.ascending hsorted.ascending
    ((h.perm.trans hmatched).trans hsorted.perm.symm)
  intro a b ha hb hab hba
  have ha' : a ∈ matching j x now u := hmatched.mem_iff.mp (h.perm.mem_iff.mp ha)
  have hb' : b ∈ matching j x now u := hsorted.perm.mem_iff.mp hb
  apply eq_of_key_matching hj ha' hb'
  exact le_antisymm (compareSent_ne_gt.mp hab) (compareSent_ne_gt.mp hba)

theorem length_le_of_ascending {a b : Cookie} (h : compareSent a b ≠ .gt) :
    b.path.utf8ByteSize ≤ a.path.utf8ByteSize := by
  have hle := compareSent_ne_gt.mp h
  simp only [sendKey, Prod.Lex.toLex_le_toLex] at hle
  rcases hle with hlt | ⟨heq, _⟩
  · exact le_of_lt (OrderDual.toDual_lt_toDual.mp hlt)
  · exact le_of_eq (OrderDual.toDual_inj.mp heq).symm

end Order

structure Canonical (x : Crates) (j : Jar) (now : ℤ) (u : Url) : Prop where
  nodup : (j.sorted x now u).Nodup
  mem : ∀ c, c ∈ j.sorted x now u ↔
    (∃ p, c ∈ (j.stores.get p).cookies) ∧ c.expired now = false ∧ x.sends c u = true
  longest : (j.sorted x now u).Pairwise fun a b => b.path.utf8ByteSize ≤ a.path.utf8ByteSize
  strict : IsStrictTotalOrder {c // c ∈ matching j x now u} fun a b => compareSent a.1 b.1 = .lt
  /-- Neither the order of iteration nor the sort matters. -/
  sorts : ∀ matched order, matched.Perm (matching j x now u) → Sorts order matched →
    order.map record = j.select x now u ∧ sentHeader order = j.header x now u
  header : j.header x now u = if j.select x now u = [] then none
    else some ("; ".intercalate ((j.select x now u).map fun r => pair r.name r.value))

theorem canonical_of_sorted {x : Crates} {j : Jar} (hj : Sorted j.stores) (now : ℤ) (u : Url) :
    Canonical x j now u where
  nodup := (sorts_sorted j x now u).perm.nodup_iff.mpr (matching_nodup hj)
  mem c := (sorts_sorted j x now u).perm.mem_iff.trans mem_matching
  longest := (sorts_sorted j x now u).ascending.imp length_le_of_ascending
  strict := comparator_strict hj
  sorts := by
    intro matched order hmatched horder
    rw [sorts_unique hj hmatched horder, header_eq_sentHeader]
    exact ⟨rfl, rfl⟩
  header := by
    rw [header_eq_sentHeader, sentHeader_eq, Jar.select]
    simp only [List.map_eq_nil_iff, List.map_map]
    rfl

/-- In every reachable jar the selection is canonical, and jars that hold the same cookies
select and send the same. -/
theorem selection_canonical (x : Crates) (j : Jar) (hj : Reached x j) (now : ℤ) (u : Url) :
    Canonical x j now u ∧
      ∀ k, Reached x k → (∀ p c, c ∈ (k.stores.get p).cookies ↔ c ∈ (j.stores.get p).cookies) →
        k.select x now u = j.select x now u ∧ k.header x now u = j.header x now u := by
  have hcanonical : Canonical x j now u := canonical_of_sorted hj.kept.sorted now u
  refine ⟨hcanonical, ?_⟩
  intro k hk hsame
  have hperm : (matching k x now u).Perm (matching j x now u) := by
    rw [List.perm_ext_iff_of_nodup (matching_nodup hk.kept.sorted) (matching_nodup hj.kept.sorted)]
    intro c
    simp only [mem_matching, hsame]
  obtain ⟨hselect, hheader⟩ := hcanonical.sorts _ _ hperm (sorts_sorted k x now u)
  refine ⟨hselect, ?_⟩
  rw [header_eq_sentHeader, hheader]

def twoCookies (texts : List String) : Jar :=
  ((CookieUpdates.set JarPolicy.sampleCrates 0 cartUrl texts).call emptyJar).2

theorem selection_canonical_two :
    (twoCookies ["sid=1", "theme=dark; Domain=example.com; Max-Age=60"]).header
        JarPolicy.sampleCrates 1 cartUrl = some "sid=1; theme=dark" ∧
      (twoCookies ["theme=dark; Domain=example.com; Max-Age=60", "sid=1"]).header
        JarPolicy.sampleCrates 1 cartUrl = some "sid=1; theme=dark" := by
  have hfirst : (twoCookies ["sid=1", "theme=dark; Domain=example.com; Max-Age=60"]).header
      JarPolicy.sampleCrates 1 cartUrl = some "sid=1; theme=dark" := by decide +kernel
  have hall := selection_canonical JarPolicy.sampleCrates
    (twoCookies ["sid=1", "theme=dark; Domain=example.com; Max-Age=60"])
    (.set 0 cartUrl _ (.new _ _)) 1 cartUrl
  refine ⟨hfirst, ?_⟩
  have hsame := hall.2 (twoCookies ["theme=dark; Domain=example.com; Max-Age=60", "sid=1"])
    (.set 0 cartUrl _ (.new _ _)) ?_
  · rw [hsame.2, hfirst]
  · have hperm : ∀ p, ((twoCookies ["theme=dark; Domain=example.com; Max-Age=60",
        "sid=1"]).stores.get p).cookies.Perm ((twoCookies ["sid=1",
          "theme=dark; Domain=example.com; Max-Age=60"]).stores.get p).cookies := by
      decide +kernel
    intro p c
    exact (hperm p).mem_iff

end CookieSelection
