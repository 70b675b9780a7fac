import Mathlib.Data.List.AList

/-! Finite maps with unique keys: totals of a numeric observation over the stored values,
and the entries that a predicate keeps. -/
namespace FiniteMaps

variable {κ β : Type*} [DecidableEq κ]

def total (f : β → ℕ) (m : AList (fun _ : κ => β)) : ℕ :=
  m.entries.foldr (fun e n => f e.2 + n) 0

omit [DecidableEq κ] in
private theorem foldr_add_init {f : β → ℕ} (l : List (Sigma fun _ : κ => β)) (n : ℕ) :
    l.foldr (fun e n => f e.2 + n) n = l.foldr (fun e n => f e.2 + n) 0 + n := by
  induction l with
  | nil => simp
  | cons e l ih =>
    rw [List.foldr_cons, List.foldr_cons, ih]
    omega

omit [DecidableEq κ] in
@[simp] theorem total_empty (f : β → ℕ) : total f (∅ : AList (fun _ : κ => β)) = 0 := rfl

theorem total_erase {f : β → ℕ} {m : AList (fun _ : κ => β)} {a : κ} {b : β}
    (h : m.lookup a = some b) : total f (m.erase a) + f b = total f m := by
  have ha : a ∈ m.entries.keys := AList.mem_keys.mp (AList.lookup_isSome.mp (by rw [h]; rfl))
  obtain ⟨b', l₁, l₂, _, hm, he⟩ := List.exists_of_kerase ha
  have hb : b' = b := by
    have hmem : (⟨a, b'⟩ : Sigma fun _ : κ => β) ∈ m.entries := by rw [hm]; simp
    have hl : m.lookup a = some b' := (List.mem_dlookup_iff m.nodupKeys).mpr hmem
    exact Option.some.inj (hl.symm.trans h)
  subst b'
  have hen : (m.erase a).entries = l₁ ++ l₂ := he
  have hl := foldr_add_init (f := f) l₁ (l₂.foldr (fun e n => f e.2 + n) 0)
  have hr := foldr_add_init (f := f) l₁ (f b + l₂.foldr (fun e n => f e.2 + n) 0)
  simp only [total, hen, hm, List.foldr_append, List.foldr_cons]
  omega

theorem total_insert_new {f : β → ℕ} {m : AList (fun _ : κ => β)} {a : κ} {b : β}
    (h : m.lookup a = none) : total f (m.insert a b) = total f m + f b := by
  rw [total, AList.entries_insert_of_notMem (AList.lookup_eq_none.mp h)]
  simp only [List.foldr_cons, total]
  omega

theorem total_insert_old {f : β → ℕ} {m : AList (fun _ : κ => β)} {a : κ} {b c : β}
    (h : m.lookup a = some b) : total f (m.insert a c) + f b = total f m + f c := by
  have he := total_erase (f := f) h
  have hi : total f (m.insert a c) = total f (m.erase a) + f c := by
    rw [total, AList.entries_insert, List.foldr_cons, Nat.add_comm]
    rfl
  omega

/-- Storing a value where the map was read with a default of weight zero. -/
theorem total_insert {f : β → ℕ} {m : AList (fun _ : κ => β)} {a : κ} {d c : β} (hd : f d = 0) :
    total f (m.insert a c) + f ((m.lookup a).getD d) = total f m + f c := by
  cases h : m.lookup a with
  | none => simpa [hd] using total_insert_new h
  | some b => simpa using total_insert_old h

omit [DecidableEq κ] in
theorem total_one (m : AList (fun _ : κ => β)) : total (fun _ => 1) m = m.entries.length := by
  rw [total]
  induction m.entries with
  | nil => rfl
  | cons e l ih =>
    rw [List.foldr_cons, ih, List.length_cons]
    omega

omit [DecidableEq κ] in
theorem total_mono {f g : β → ℕ} (h : ∀ b, f b ≤ g b) (m : AList (fun _ : κ => β)) :
    total f m ≤ total g m := by
  rw [total, total]
  induction m.entries with
  | nil => exact le_rfl
  | cons e l ih =>
    have := h e.2
    simp only [List.foldr_cons]
    omega

theorem total_erase_le (f : β → ℕ) (m : AList (fun _ : κ => β)) (a : κ) :
    total f (m.erase a) ≤ total f m := by
  cases h : m.lookup a with
  | none =>
    have he : (m.erase a).entries = m.entries :=
      List.kerase_of_notMem_keys (fun ha => AList.lookup_eq_none.mp h (AList.mem_keys.mpr ha))
    rw [total, total, he]
  | some b =>
    have := total_erase (f := f) h
    omega

theorem total_le {f : β → ℕ} {m : AList (fun _ : κ => β)} {a : κ} {b : β}
    (h : m.lookup a = some b) : f b ≤ total f m := by
  have := total_erase (f := f) h
  omega

theorem total_pos_iff {f : β → ℕ} {m : AList (fun _ : κ => β)} :
    0 < total f m ↔ ∃ a b, m.lookup a = some b ∧ 0 < f b := by
  constructor
  · intro h
    by_contra hn
    push Not at hn
    have hz : ∀ e ∈ m.entries, f e.2 = 0 := by
      intro e he
      have hl : m.lookup e.1 = some e.2 := (List.mem_dlookup_iff m.nodupKeys).mpr he
      have := hn e.1 e.2 hl
      omega
    have hsum : ∀ l : List (Sigma fun _ : κ => β), (∀ e ∈ l, f e.2 = 0) →
        l.foldr (fun e n => f e.2 + n) 0 = 0 := by
      intro l
      induction l with
      | nil => simp
      | cons e l ih =>
        intro hl
        rw [List.foldr_cons, hl e List.mem_cons_self,
          ih fun x hx => hl x (List.mem_cons_of_mem _ hx)]
    have := hsum m.entries hz
    rw [total, this] at h
    omega
  · rintro ⟨a, b, hab, hb⟩
    have := total_le (f := f) hab
    omega

/-- `HashMap::retain` -/
def retain (p : κ → β → Bool) (m : AList (fun _ : κ => β)) : AList (fun _ : κ => β) :=
  ⟨m.entries.filter fun e => p e.1 e.2, m.nodupKeys.sublist List.filter_sublist⟩

theorem lookup_retain {p : κ → β → Bool} {m : AList (fun _ : κ => β)} {a : κ} {b : β} :
    (retain p m).lookup a = some b ↔ m.lookup a = some b ∧ p a b = true := by
  have hmem : ∀ n : AList (fun _ : κ => β), n.lookup a = some b ↔ ⟨a, b⟩ ∈ n.entries :=
    fun n => AList.mem_lookup_iff
  rw [hmem, hmem]
  exact List.mem_filter

omit [DecidableEq κ] in
theorem total_retain_le (f : β → ℕ) (p : κ → β → Bool) (m : AList (fun _ : κ => β)) :
    total f (retain p m) ≤ total f m := by
  change (m.entries.filter fun e => p e.1 e.2).foldr (fun e n => f e.2 + n) 0 ≤ total f m
  rw [total]
  induction m.entries with
  | nil => exact le_rfl
  | cons e l ih =>
    rw [List.filter_cons]
    split
    · simp only [List.foldr_cons]
      omega
    · rw [List.foldr_cons]
      omega

omit [DecidableEq κ] in
theorem retain_length_le (p : κ → β → Bool) (m : AList (fun _ : κ => β)) :
    (retain p m).entries.length ≤ m.entries.length :=
  List.length_filter_le _ _

omit [DecidableEq κ] in
/-- The number of entries that meet a condition. -/
theorem total_indicator (p : β → Prop) [DecidablePred p] (m : AList (fun _ : κ => β)) :
    total (fun b => if p b then 1 else 0) m = (m.entries.filter fun e => p e.2).length := by
  rw [total]
  induction m.entries with
  | nil => rfl
  | cons e l ih =>
    rw [List.foldr_cons, ih]
    by_cases h : p e.2
    · simp [h, Nat.add_comm]
    · simp [h]

/-- A map that agrees with another on the entries that meet a condition and has no others. -/
theorem entries_perm {m n : AList (fun _ : κ => β)} {p : β → Prop} [DecidablePred p]
    (h : ∀ a b, n.lookup a = some b ↔ m.lookup a = some b ∧ p b) :
    n.entries.Perm (m.entries.filter fun e => p e.2) := by
  have hmem : ∀ (k : AList (fun _ : κ => β)) (e : Sigma fun _ : κ => β),
      e ∈ k.entries ↔ k.lookup e.1 = some e.2 := fun k e => AList.mem_lookup_iff.symm
  rw [List.perm_ext_iff_of_nodup n.nodupKeys.nodup (m.nodupKeys.nodup.filter _)]
  intro e
  rw [List.mem_filter, hmem, hmem, h, decide_eq_true_eq]

end FiniteMaps
