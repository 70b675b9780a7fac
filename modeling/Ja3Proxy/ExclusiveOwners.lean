import Ja3Proxy.FiniteMaps

/-! Exclusive ownership: tasks in a finite map hold resources, each live resource by exactly one
task. One rule covers every change of one task: taking, keeping, exchanging or giving back.
Nothing here depends on the modelled program. -/
namespace ExclusiveOwners

open FiniteMaps

variable {τ σ ρ : Type*} [DecidableEq τ]

def place (m : AList (fun _ : τ => σ)) (t : τ) : Option σ → AList (fun _ : τ => σ)
  | some s => m.insert t s
  | none => m.erase t

@[simp] theorem lookup_place (m : AList (fun _ : τ => σ)) (t : τ) (o : Option σ) :
    (place m t o).lookup t = o := by
  cases o <;> simp [place]

theorem lookup_place_ne {m : AList (fun _ : τ => σ)} {t u : τ} (h : u ≠ t) (o : Option σ) :
    (place m t o).lookup u = m.lookup u := by
  cases o <;> simp [place, h, AList.lookup_insert_ne, AList.lookup_erase_ne]

/-- A total moves by the weight of the task that changed. -/
theorem total_place (w : σ → ℕ) (m : AList (fun _ : τ => σ)) (t : τ) (o : Option σ) :
    total w (place m t o) + ((m.lookup t).map w).getD 0 = total w m + (o.map w).getD 0 := by
  cases o with
  | some s =>
    cases h : m.lookup t with
    | some s' => simpa [place] using total_insert_old (f := w) (c := s) h
    | none => simpa [place] using total_insert_new (f := w) (b := s) h
  | none =>
    cases h : m.lookup t with
    | some s' => simpa [place] using total_erase (f := w) h
    | none =>
      have he : (m.erase t).entries = m.entries :=
        List.kerase_of_notMem_keys fun ht => AList.lookup_eq_none.mp h (AList.mem_keys.mpr ht)
      simp [place, total, he]

structure Exclusive (f : σ → Option ρ) (m : AList (fun _ : τ => σ)) (live : ρ → Prop) : Prop where
  held : ∀ r, live r → ∃ t s, m.lookup t = some s ∧ f s = some r
  live : ∀ t s r, m.lookup t = some s → f s = some r → live r
  unique : ∀ t u s v r, m.lookup t = some s → m.lookup u = some v → f s = some r → f v = some r →
    t = u

variable {f : σ → Option ρ} {m : AList (fun _ : τ => σ)} {live live' : ρ → Prop} {t : τ}
  {o : Option σ}

theorem Exclusive.empty (h : ∀ r, ¬live r) : Exclusive f (∅ : AList (fun _ : τ => σ)) live where
  held := fun r hr => (h r hr).elim
  live := by simp
  unique := by simp

/-- One task changes: it may only take what nobody holds, and what it gives back is gone. -/
theorem Exclusive.change (h : Exclusive f m live)
    (fresh : ∀ r, o.bind f = some r → (m.lookup t).bind f = some r ∨ ¬live r)
    (after : ∀ r, live' r ↔ live r ∧ (m.lookup t).bind f ≠ some r ∨ o.bind f = some r) :
    Exclusive f (place m t o) live' := by
  have hown : ∀ {u s}, (place m t o).lookup u = some s → u = t ∧ o = some s ∨
      u ≠ t ∧ m.lookup u = some s := by
    intro u s hu
    by_cases hut : u = t
    · subst hut
      exact .inl ⟨rfl, by simpa using hu⟩
    · exact .inr ⟨hut, by rwa [lookup_place_ne hut] at hu⟩
  -- What another task holds is live and not held by `t`.
  have hother : ∀ {u s r}, u ≠ t → m.lookup u = some s → f s = some r →
      live r ∧ (m.lookup t).bind f ≠ some r := by
    intro u s r hut hu hs
    refine ⟨h.live u s r hu hs, ?_⟩
    intro hheld
    obtain ⟨v, hv, hvr⟩ := Option.bind_eq_some_iff.mp hheld
    exact hut (h.unique u t s v r hu hv hs hvr)
  have hclash : ∀ {u s r v}, o = some v → f v = some r → u ≠ t → m.lookup u = some s →
      f s = some r → False := by
    intro u s r v ho hv hut hu hs
    obtain ⟨hlive, hnot⟩ := hother hut hu hs
    rcases fresh r (by simp [ho, hv]) with hheld | hfree
    · exact hnot hheld
    · exact hfree hlive
  constructor
  · intro r hr
    rcases (after r).mp hr with ⟨hlive, hnot⟩ | hnew
    · obtain ⟨u, s, hu, hs⟩ := h.held r hlive
      have hut : u ≠ t := by
        rintro rfl
        exact hnot (by simp [hu, hs])
      exact ⟨u, s, by rwa [lookup_place_ne hut], hs⟩
    · obtain ⟨s, ho, hs⟩ := Option.bind_eq_some_iff.mp hnew
      exact ⟨t, s, by simp [ho], hs⟩
  · intro u s r hu hs
    rcases hown hu with ⟨rfl, ho⟩ | ⟨hut, hu⟩
    · exact (after r).mpr (.inr (by simp [ho, hs]))
    · exact (after r).mpr (.inl (hother hut hu hs))
  · intro u v s s' r hu hv hs hs'
    rcases hown hu with ⟨rfl, ho⟩ | ⟨hut, hum⟩ <;> rcases hown hv with ⟨rfl, ho'⟩ | ⟨hvt, hvm⟩
    · rfl
    · exact (hclash ho hs hvt hvm hs').elim
    · exact (hclash ho' hs' hut hum hs).elim
    · exact h.unique u v s s' r hum hvm hs hs'

/-- The change of a task that keeps what it holds. -/
theorem Exclusive.keep (h : Exclusive f m live) (hsame : o.bind f = (m.lookup t).bind f) :
    Exclusive f (place m t o) live := by
  refine h.change (fun r hr => .inl (hsame ▸ hr)) fun r => ?_
  rw [hsame]
  constructor
  · intro hr
    by_cases hheld : (m.lookup t).bind f = some r
    · exact .inr hheld
    · exact .inl ⟨hr, hheld⟩
  · rintro (⟨hr, -⟩ | hheld)
    · exact hr
    · obtain ⟨s, hs, hsr⟩ := Option.bind_eq_some_iff.mp hheld
      exact h.live t s r hs hsr

theorem Exclusive.acquire (h : Exclusive f m live) {r : ρ} (hnone : (m.lookup t).bind f = none)
    (hnew : o.bind f = some r) (hfree : ¬live r) (after : ∀ x, live' x ↔ live x ∨ x = r) :
    Exclusive f (place m t o) live' := by
  refine h.change (fun x hx => .inr ?_) fun x => ?_
  · rw [hnew] at hx
    exact Option.some.inj hx ▸ hfree
  · rw [after, hnone, hnew]
    simp [eq_comm]

theorem Exclusive.release (h : Exclusive f m live) {r : ρ} (hheld : (m.lookup t).bind f = some r)
    (hnone : o.bind f = none) (after : ∀ x, live' x ↔ live x ∧ x ≠ r) :
    Exclusive f (place m t o) live' := by
  refine h.change (fun x hx => ?_) fun x => ?_
  · rw [hnone] at hx
    cases hx
  · rw [after, hheld, hnone]
    simp [eq_comm]

theorem Exclusive.congr (h : Exclusive f m live) (hl : ∀ r, live' r ↔ live r) :
    Exclusive f m live' where
  held := fun r hr => h.held r ((hl r).mp hr)
  live := fun t s r ht hs => (hl r).mpr (h.live t s r ht hs)
  unique := h.unique

/-- As many tasks hold a resource as there are live resources. -/
theorem Exclusive.count (h : Exclusive f m live) {l : List ρ} (hl : l.Nodup)
    (hmem : ∀ r, r ∈ l ↔ live r) :
    total (fun s => if (f s).isSome then 1 else 0) m = l.length := by
  have hlookup : ∀ e ∈ m.entries, m.lookup e.1 = some e.2 := fun e he => AList.mem_lookup_iff.mpr he
  have hpairwise : m.entries.Pairwise fun e e' => e.1 ≠ e'.1 := List.pairwise_map.mp m.nodupKeys
  have hnodup : (m.entries.filterMap fun e => f e.2).Nodup := by
    rw [List.Nodup, List.pairwise_filterMap]
    refine hpairwise.imp_of_mem fun {e e'} he he' hne r hr r' hr' heq => ?_
    subst heq
    exact hne (h.unique _ _ _ _ r (hlookup e he) (hlookup e' he') hr hr')
  have hperm : (m.entries.filterMap fun e => f e.2).Perm l := by
    rw [List.perm_ext_iff_of_nodup hnodup hl]
    intro r
    rw [hmem, List.mem_filterMap]
    constructor
    · rintro ⟨e, he, hr⟩
      exact h.live _ _ r (hlookup e he) hr
    · intro hr
      obtain ⟨t, s, ht, hs⟩ := h.held r hr
      exact ⟨⟨t, s⟩, AList.mem_lookup_iff.mp ht, hs⟩
  rw [total_indicator, ← hperm.length_eq, List.length_filterMap_eq_countP,
    List.countP_eq_length_filter]
  simp

/-- Tasks that hold different resources are at most as many as these resources weigh. -/
theorem Exclusive.bounded {β : Type*} [DecidableEq ρ] (h : Exclusive f m live) (w : β → ℕ)
    {resources : AList (fun _ : ρ => β)} {ts : List τ} (hts : ts.Nodup)
    (hw : ∀ t ∈ ts, ∃ s r b, m.lookup t = some s ∧ f s = some r ∧ resources.lookup r = some b ∧
      0 < w b) : ts.length ≤ total w resources := by
  induction ts generalizing resources with
  | nil => exact Nat.zero_le _
  | cons t ts ih =>
    obtain ⟨hnot, hrest⟩ := List.nodup_cons.mp hts
    obtain ⟨s, r, b, ht, hs, hr, hb⟩ := hw t List.mem_cons_self
    have hsub : ts.length ≤ total w (resources.erase r) := ih hrest fun u hu => by
      obtain ⟨v, q, b', hv, hq, hlookup, hpos⟩ := hw u (List.mem_cons_of_mem t hu)
      have hne : q ≠ r := by
        rintro rfl
        exact hnot (h.unique u t v s q hv ht hq hs ▸ hu)
      exact ⟨v, q, b', hv, hq, by rwa [AList.lookup_erase_ne hne], hpos⟩
    have herase := total_erase (f := w) hr
    rw [List.length_cons]
    omega

end ExclusiveOwners
