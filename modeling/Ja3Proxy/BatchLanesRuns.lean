import Ja3Proxy.BatchLanesInvariant
import Mathlib.Data.List.Nodup

/-! The lanes of a batch taking up requests, and what holds in every run. -/
namespace BatchLanes

open TransitionRuns TypedArrays ListTotals

variable {ρ ε : Type*} {cfg : Config ρ} {b c : Batch ρ ε} {l : ℕ} {e f : Execution ρ ε}

def Batch.stored (b : Batch ρ ε) (l : ℕ) (e : Execution ρ ε) (result : BatchResult ε) :
    Batch ρ ε :=
  { b with
    output := b.output.set e.index (some result)
    lanes := b.lanes.set l none }

def Batch.launched (b : Batch ρ ε) (l : ℕ) (options : ρ) : Batch ρ ε :=
  { b with
    next := b.next + 1
    lanes := b.lanes.set l (some ⟨b.next, options, [], 0, 0, .opening⟩)
    executed := b.executed ++ [(b.next, options)] }

@[simp]
theorem stored_lanes (result : BatchResult ε) :
    (b.stored l e result).lanes = b.lanes.set l none := rfl

@[simp]
theorem launched_lanes (options : ρ) :
    (b.launched l options).lanes =
      b.lanes.set l (some ⟨b.next, options, [], 0, 0, .opening⟩) := rfl

theorem lane_of_stored {result : BatchResult ε} {k : ℕ}
    (hf : (b.stored l e result).lanes[k]? = some (some f)) :
    l ≠ k ∧ b.lanes[k]? = some (some f) := by
  rcases getElem?_set_cases hf with ⟨-, hnone⟩ | hf
  · cases hnone
  · exact hf

theorem lane_of_launched {options : ρ} {k : ℕ}
    (hf : (b.launched l options).lanes[k]? = some (some f)) :
    l = k ∧ f = ⟨b.next, options, [], 0, 0, .opening⟩ ∨
      l ≠ k ∧ b.lanes[k]? = some (some f) := by
  rcases getElem?_set_cases hf with ⟨hk, hfe⟩ | hf
  · exact .inl ⟨hk, Option.some.inj hfe⟩
  · exact .inr hf

/-- The next request has not been executed. -/
theorem Indexed.fresh (h : Indexed cfg b) : ∀ p ∈ b.executed, p.1 ≠ b.next := by
  intro p hp
  exact Nat.ne_of_lt (h.executed p hp).1

theorem Indexed.store {result : BatchResult ε} (h : Indexed cfg b)
    (he : b.lanes[l]? = some (some e)) : Indexed cfg (b.stored l e result) := by
  obtain ⟨hin, hempty⟩ := h.running l e he
  constructor
  case length => exact (List.length_set ..).trans h.length
  case executed => exact h.executed
  case nodup => exact h.nodup
  case running =>
    intro k f hf
    obtain ⟨hne, hf⟩ := lane_of_stored hf
    obtain ⟨hfin, hfnone⟩ := h.running k f hf
    exact ⟨hfin, (List.getElem?_set_ne (h.apart l k e f hne he hf)).trans hfnone⟩
  case apart =>
    intro k m f g hne hf hg
    exact h.apart k m f g hne (lane_of_stored hf).2 (lane_of_stored hg).2
  case untaken =>
    intro i hi hlt
    have hne : e.index ≠ i := Nat.ne_of_lt (Nat.lt_of_lt_of_le (h.executed _ hin).1 hi)
    exact (List.getElem?_set_ne hne).trans (h.untaken i hi hlt)
  case taken =>
    intro i hi hnone
    rcases getElem?_set_cases hnone with ⟨-, hsome⟩ | ⟨hne, hnone⟩
    · cases hsome
    · obtain ⟨k, f, hf, hfi⟩ := h.taken i hi hnone
      have hk : l ≠ k := by
        rintro rfl
        cases he.symm.trans hf
        exact hne hfi
      exact ⟨k, f, (List.getElem?_set_ne hk).trans hf, hfi⟩

theorem Answers.store {result : BatchResult ε} (h : Answers cfg b)
    (he : b.lanes[l]? = some (some e)) (hstage : e.stage = .settling result) :
    Answers cfg (b.stored l e result) := by
  constructor
  case unheard => exact h.unheard
  case live => exact fun k f hf => h.live k f (lane_of_stored hf).2
  case settling => exact fun k f r hf => h.settling k f r (lane_of_stored hf).2
  case stored =>
    intro i r hi
    rcases getElem?_set_cases hi with ⟨rfl, hr⟩ | ⟨-, hi⟩
    · cases hr
      exact .inl (h.settling l e result he hstage)
    · exact h.stored i r hi
  case lawful => exact h.lawful

theorem Invariant.store {result : BatchResult ε} (h : Invariant cfg b)
    (he : b.lanes[l]? = some (some e)) (hstage : e.stage = .settling result) :
    Invariant cfg (b.stored l e result) := by
  refine ⟨⟨?_, h.accounts.working, h.accounts.bounded⟩, h.indexed.store he,
    h.answers.store he hstage⟩
  obtain ⟨-, hempty⟩ := h.indexed.running l e he
  have hlanes : total laneBytes (b.lanes.set l none) + laneBytes (some e) =
      total laneBytes b.lanes + 0 := total_set laneBytes he
  have houtput : total okBytes (b.output.set e.index (some result)) + 0 =
      total okBytes b.output + okBytes (some result) := total_set okBytes hempty
  rw [laneBytes_settling hstage] at hlanes
  have hpayload := h.accounts.payload
  simp only [Batch.stored]
  omega

/-- The lane takes a request after the batch was aborted. -/
theorem Invariant.expire (h : Invariant cfg b) (hlt : b.next < cfg.requests.length) :
    Invariant cfg
      { b with
        next := b.next + 1
        output := b.output.set b.next (some (.error .timeout)) } := by
  have hempty := h.indexed.untaken b.next (Nat.le_refl _) hlt
  have hfresh := h.indexed.fresh
  constructor
  case accounts =>
    have houtput : total okBytes (b.output.set b.next (some (.error .timeout))) + 0 =
        total okBytes b.output + 0 := total_set okBytes hempty
    refine ⟨?_, h.accounts.working, h.accounts.bounded⟩
    have hpayload := h.accounts.payload
    simp only
    omega
  case indexed =>
    constructor
    case length => rw [List.length_set, h.indexed.length]
    case executed =>
      intro p hp
      obtain ⟨hlt, hrequest⟩ := h.indexed.executed p hp
      exact ⟨Nat.lt_succ_of_lt hlt, hrequest⟩
    case nodup => exact h.indexed.nodup
    case running =>
      intro k f hf
      obtain ⟨hfin, hfnone⟩ := h.indexed.running k f hf
      refine ⟨hfin, ?_⟩
      rw [List.getElem?_set_ne (Ne.symm (hfresh _ hfin))]
      exact hfnone
    case apart => exact h.indexed.apart
    case untaken =>
      intro i hi hlt
      simp only at hi
      rw [List.getElem?_set_ne (by omega)]
      exact h.indexed.untaken i (by omega) hlt
    case taken =>
      intro i hi hnone
      rcases getElem?_set_cases hnone with ⟨-, hsome⟩ | ⟨hne, hnone⟩
      · cases hsome
      · simp only at hi
        exact h.indexed.taken i (by omega) hnone
  case answers =>
    constructor
    case unheard => exact h.answers.unheard
    case live => exact h.answers.live
    case settling => exact h.answers.settling
    case stored =>
      intro i r hi
      rcases getElem?_set_cases hi with ⟨rfl, hr⟩ | ⟨-, hi⟩
      · cases hr
        exact .inr ⟨rfl, hfresh⟩
      · exact h.answers.stored i r hi
    case lawful => exact h.answers.lawful

theorem Indexed.launch {options : ρ} (h : Indexed cfg b) (hl : b.lanes[l]? = some none)
    (hrequest : cfg.requests[b.next]? = some options) :
    Indexed cfg (b.launched l options) := by
  obtain ⟨hlt, -⟩ := List.getElem?_eq_some_iff.mp hrequest
  obtain ⟨hslot, -⟩ := List.getElem?_eq_some_iff.mp hl
  have hempty := h.untaken b.next (Nat.le_refl _) hlt
  have hother : ∀ {k : ℕ} {f : Execution ρ ε}, b.lanes[k]? = some (some f) →
      f.index ≠ b.next := fun hf => h.fresh _ (h.running _ _ hf).1
  constructor
  case length => exact h.length
  case executed =>
    intro p hp
    rcases List.mem_append.mp hp with hp | hp
    · obtain ⟨hlt, hr⟩ := h.executed p hp
      exact ⟨Nat.lt_succ_of_lt hlt, hr⟩
    · rw [List.mem_singleton.mp hp]
      exact ⟨Nat.lt_succ_self _, hrequest⟩
  case nodup =>
    rw [Batch.launched, List.map_append]
    apply h.nodup.append (List.nodup_singleton _)
    intro i hi hi'
    obtain ⟨p, hp, rfl⟩ := List.mem_map.mp hi
    exact h.fresh p hp (List.mem_singleton.mp hi')
  case running =>
    intro k f hf
    rcases lane_of_launched hf with ⟨-, rfl⟩ | ⟨-, hf⟩
    · exact ⟨List.mem_append_right _ (List.mem_singleton_self _), hempty⟩
    · obtain ⟨hfin, hfnone⟩ := h.running k f hf
      exact ⟨List.mem_append_left _ hfin, hfnone⟩
  case apart =>
    intro k m f g hne hf hg
    rcases lane_of_launched hf with ⟨rfl, rfl⟩ | ⟨-, hf⟩
    · rcases lane_of_launched hg with ⟨rfl, -⟩ | ⟨-, hg⟩
      · exact absurd rfl hne
      · exact Ne.symm (hother hg)
    · rcases lane_of_launched hg with ⟨-, rfl⟩ | ⟨-, hg⟩
      · exact hother hf
      · exact h.apart k m f g hne hf hg
  case untaken =>
    intro i hi hlt
    exact h.untaken i (Nat.le_of_succ_le hi) hlt
  case taken =>
    intro i hi hnone
    rcases Nat.lt_succ_iff_lt_or_eq.mp hi with hi | rfl
    · obtain ⟨k, f, hf, hfi⟩ := h.taken i hi hnone
      have hk : l ≠ k := by
        rintro rfl
        cases hl.symm.trans hf
      exact ⟨k, f, (List.getElem?_set_ne hk).trans hf, hfi⟩
    · exact ⟨l, _, List.getElem?_set_self hslot, rfl⟩

theorem Answers.launch {options : ρ} (h : Answers cfg b) (hx : Indexed cfg b)
    (hlt : b.next < cfg.requests.length) : Answers cfg (b.launched l options) := by
  have hclean := h.unheard b.next hx.fresh
  constructor
  case unheard =>
    intro i hi
    exact h.unheard i fun p hp => hi p (List.mem_append_left _ hp)
  case live =>
    intro k f hf hlive
    rcases lane_of_launched hf with ⟨-, rfl⟩ | ⟨-, hf⟩
    · exact ⟨hclean.1.symm, rfl, rfl, hclean.2⟩
    · exact h.live k f hf hlive
  case settling =>
    intro k f r hf hr
    rcases lane_of_launched hf with ⟨-, rfl⟩ | ⟨-, hf⟩
    · cases hr
    · exact h.settling k f r hf hr
  case stored =>
    intro i r hi
    rcases h.stored i r hi with hanswered | ⟨hr, hnot⟩
    · exact .inl hanswered
    · refine .inr ⟨hr, ?_⟩
      intro p hp
      rcases List.mem_append.mp hp with hp | hp
      · exact hnot p hp
      · rw [List.mem_singleton.mp hp]
        rintro rfl
        cases (hx.untaken b.next (Nat.le_refl _) hlt).symm.trans hi
  case lawful => exact h.lawful

theorem Invariant.launch {options : ρ} (h : Invariant cfg b) (hl : b.lanes[l]? = some none)
    (hrequest : cfg.requests[b.next]? = some options) :
    Invariant cfg (b.launched l options) := by
  obtain ⟨hlt, -⟩ := List.getElem?_eq_some_iff.mp hrequest
  refine ⟨⟨?_, h.accounts.working, h.accounts.bounded⟩, h.indexed.launch hl hrequest,
    h.answers.launch h.indexed hlt⟩
  have hlanes : total laneBytes
      (b.lanes.set l (some ⟨b.next, options, [], 0, 0, .opening⟩)) + 0 =
        total laneBytes b.lanes + 0 := total_set laneBytes hl
  have hpayload := h.accounts.payload
  simp only [Batch.launched]
  omega

/-- The lane finds no request left. -/
theorem Invariant.leave (h : Invariant cfg b) (hl : b.lanes[l]? = some none)
    (hrequest : cfg.requests[b.next]? = none) :
    Invariant cfg { b with next := b.next + 1, lanes := b.lanes.set l none } := by
  obtain ⟨hslot, hget⟩ := List.getElem?_eq_some_iff.mp hl
  have hsame : b.lanes.set l none = b.lanes := by
    rw [← hget, List.set_getElem_self]
  have hend := List.getElem?_eq_none_iff.mp hrequest
  rw [hsame]
  constructor
  case accounts => exact ⟨h.accounts.payload, h.accounts.working, h.accounts.bounded⟩
  case indexed =>
    constructor
    case length => exact h.indexed.length
    case executed =>
      intro p hp
      obtain ⟨hlt, hr⟩ := h.indexed.executed p hp
      exact ⟨Nat.lt_succ_of_lt hlt, hr⟩
    case nodup => exact h.indexed.nodup
    case running => exact h.indexed.running
    case apart => exact h.indexed.apart
    case untaken =>
      intro i hi hlt
      exact h.indexed.untaken i (Nat.le_of_succ_le hi) hlt
    case taken =>
      intro i hi hnone
      rcases Nat.lt_succ_iff_lt_or_eq.mp hi with hi | rfl
      · exact h.indexed.taken i hi hnone
      · obtain ⟨hlt, -⟩ := List.getElem?_eq_some_iff.mp hnone
        rw [h.indexed.length] at hlt
        omega
  case answers =>
    exact ⟨h.answers.unheard, h.answers.live, h.answers.settling, h.answers.stored,
      h.answers.lawful⟩

/-- A lane is started. -/
theorem Invariant.enroll (h : Invariant cfg b) :
    Invariant cfg { b with lanes := b.lanes ++ [none] } := by
  have hold : ∀ {k : ℕ} {f : Execution ρ ε}, (b.lanes ++ [none])[k]? = some (some f) →
      b.lanes[k]? = some (some f) := by
    intro k f hf
    rcases getElem?_append_cases hf with hf | ⟨-, hnone⟩
    · exact hf
    · cases hnone
  constructor
  case accounts =>
    refine ⟨?_, h.accounts.working, h.accounts.bounded⟩
    rw [total_append]
    exact h.accounts.payload
  case indexed =>
    constructor
    case length => exact h.indexed.length
    case executed => exact h.indexed.executed
    case nodup => exact h.indexed.nodup
    case running => exact fun k f hf => h.indexed.running k f (hold hf)
    case apart => exact fun k m f g hne hf hg => h.indexed.apart k m f g hne (hold hf) (hold hg)
    case untaken => exact h.indexed.untaken
    case taken =>
      intro i hi hnone
      obtain ⟨k, f, hf, hfi⟩ := h.indexed.taken i hi hnone
      obtain ⟨hk, -⟩ := List.getElem?_eq_some_iff.mp hf
      exact ⟨k, f, (List.getElem?_append_left hk).trans hf, hfi⟩
  case answers =>
    exact ⟨h.answers.unheard, fun k f hf => h.answers.live k f (hold hf),
      fun k f r hf => h.answers.settling k f r (hold hf), h.answers.stored, h.answers.lawful⟩

structure Laned (cfg : Config ρ) (l : ℕ) (b c : Batch ρ ε) : Prop where
  invariant : Invariant cfg c
  begun : c.begun = b.begun
  grown : b.next ≤ c.next
  kept : ∀ (i : ℕ) (result : BatchResult ε), b.output[i]? = some (some result) →
    c.output[i]? = some (some result)
  width : c.lanes.length = b.lanes.length
  others : ∀ k, l ≠ k → c.lanes[k]? = b.lanes[k]?
  returned : c.lanes[l]? = some none → cfg.requests.length ≤ c.next

theorem laned_leave (h : Invariant cfg b) (hl : b.lanes[l]? = some none)
    (hrequest : cfg.requests[b.next]? = none) :
    Laned cfg l b { b with next := b.next + 1, lanes := b.lanes.set l none } where
  invariant := h.leave hl hrequest
  begun := rfl
  grown := Nat.le_succ _
  kept _ _ hr := hr
  width := by simp
  others _ hk := List.getElem?_set_ne hk
  returned _ := Nat.le_succ_of_le (List.getElem?_eq_none_iff.mp hrequest)

theorem laned_launch {options : ρ} (h : Invariant cfg b) (hl : b.lanes[l]? = some none)
    (hrequest : cfg.requests[b.next]? = some options) :
    Laned cfg l b (b.launched l options) where
  invariant := h.launch hl hrequest
  begun := rfl
  grown := Nat.le_succ _
  kept _ _ hr := hr
  width := by simp
  others _ hk := List.getElem?_set_ne hk
  returned hnone := by
    obtain ⟨hslot, -⟩ := List.getElem?_eq_some_iff.mp hl
    rw [launched_lanes, List.getElem?_set_self hslot] at hnone
    cases hnone

/-- As many passes as there are requests left are enough. -/
theorem lane_laned (fuel : ℕ) (h : Invariant cfg b) (hl : b.lanes[l]? = some none)
    (hfuel : cfg.requests.length ≤ b.next + fuel) :
    ∃ c, b.lane cfg l fuel = some c ∧ Laned cfg l b c := by
  induction fuel generalizing b with
  | zero =>
    have hnone : cfg.requests[b.next]? = none := List.getElem?_eq_none (by omega)
    exact ⟨_, by rw [Batch.lane, hnone], laned_leave h hl hnone⟩
  | succ fuel ih =>
    cases hrequest : cfg.requests[b.next]? with
    | none => exact ⟨_, by rw [Batch.lane, hrequest], laned_leave h hl hrequest⟩
    | some options =>
      by_cases haborted : b.aborted = true
      · obtain ⟨hlt, -⟩ := List.getElem?_eq_some_iff.mp hrequest
        obtain ⟨c, hrun, hlaned⟩ := ih (h.expire hlt) hl (by simp only; omega)
        refine ⟨c, ?_, hlaned.invariant, hlaned.begun,
          Nat.le_of_succ_le hlaned.grown, ?_, hlaned.width, hlaned.others, hlaned.returned⟩
        · rw [Batch.lane, hrequest]
          dsimp only
          rw [if_pos haborted]
          exact hrun
        · intro i result hr
          apply hlaned.kept
          have hempty := h.indexed.untaken b.next (Nat.le_refl _) hlt
          have hne : b.next ≠ i := by
            rintro rfl
            cases hempty.symm.trans hr
          exact (List.getElem?_set_ne hne).trans hr
      · refine ⟨_, ?_, laned_launch h hl hrequest⟩
        rw [Batch.lane, hrequest]
        dsimp only
        rw [if_neg haborted]
        rfl

def Exhausted (cfg : Config ρ) (b : Batch ρ ε) : Prop :=
  ∀ l : ℕ, b.lanes[l]? = some none → cfg.requests.length ≤ b.next

structure Sound (cfg : Config ρ) (b : Batch ρ ε) : Prop where
  invariant : Invariant cfg b
  exhausted : Exhausted cfg b
  width : b.lanes.length = if b.begun then min cfg.concurrency cfg.requests.length else 0

theorem Laned.exhausted (h : Laned cfg l b c)
    (hb : ∀ k : ℕ, l ≠ k → b.lanes[k]? = some none → cfg.requests.length ≤ b.next) :
    Exhausted cfg c := by
  intro k hk
  by_cases heq : l = k
  · subst heq
    exact h.returned hk
  · rw [h.others k heq] at hk
    exact Nat.le_trans (hb k heq hk) h.grown

theorem Sound.settle {result : BatchResult ε} (h : Sound cfg b)
    (he : b.lanes[l]? = some (some e)) (hstage : e.stage = .settling result) :
    ∃ c, b.settle cfg l e result = some c ∧ Sound cfg c ∧
      c.output[e.index]? = some (some result) := by
  obtain ⟨hslot, -⟩ := List.getElem?_eq_some_iff.mp he
  obtain ⟨-, hempty⟩ := h.invariant.indexed.running l e he
  obtain ⟨hindex, -⟩ := List.getElem?_eq_some_iff.mp hempty
  obtain ⟨c, hrun, hlaned⟩ := lane_laned cfg.requests.length
    (h.invariant.store he hstage) (List.getElem?_set_self hslot) (Nat.le_add_left _ _)
  refine ⟨c, hrun, ⟨hlaned.invariant, ?_, ?_⟩,
    hlaned.kept e.index result (List.getElem?_set_self hindex)⟩
  · apply hlaned.exhausted
    intro k hk hnone
    rw [stored_lanes, List.getElem?_set_ne hk] at hnone
    exact h.exhausted k hnone
  · rw [hlaned.width, hlaned.begun, stored_lanes, List.length_set]
    exact h.width

theorem begin_sound {k : ℕ} (h : Invariant cfg b) (hx : Exhausted cfg b) :
    ∃ c, b.begin cfg k = some c ∧ Invariant cfg c ∧ Exhausted cfg c ∧ c.begun = b.begun ∧
      c.lanes.length = b.lanes.length + k := by
  induction k generalizing b with
  | zero => exact ⟨b, rfl, h, hx, rfl, rfl⟩
  | succ k ih =>
    have hlast : (b.lanes ++ [none])[b.lanes.length]? = some none := by simp
    obtain ⟨c, hrun, hlaned⟩ := lane_laned cfg.requests.length h.enroll hlast
      (Nat.le_add_left _ _)
    have hexhausted : Exhausted cfg c := by
      apply hlaned.exhausted
      intro m hm hnone
      rcases getElem?_append_cases hnone with hnone | ⟨heq, -⟩
      · exact hx m hnone
      · exact absurd heq.symm hm
    obtain ⟨d, hrest, hd, hdx, hbegun, hwidth⟩ := ih hlaned.invariant hexhausted
    refine ⟨d, ?_, hd, hdx, hbegun.trans hlaned.begun, ?_⟩
    · rw [Batch.begin, hrun, Option.bind_some, hrest]
    · rw [hwidth, hlaned.width, List.length_append, List.length_singleton]
      omega

theorem Sound.replace (h : Sound cfg b) (hc : Invariant cfg c) (hbegun : c.begun = b.begun)
    (hnext : c.next = b.next) (hlanes : c.lanes = b.lanes.set l (some f)) : Sound cfg c where
  invariant := hc
  exhausted := by
    intro k hk
    rw [hlanes] at hk
    rcases getElem?_set_cases hk with ⟨-, hnone⟩ | ⟨-, hk⟩
    · cases hnone
    · rw [hnext]
      exact h.exhausted k hk
  width := by
    rw [hlanes, List.length_set, hbegun]
    exact h.width

theorem live_of_ne {stage : Stage ε} (hstage : e.stage = stage)
    (hne : ∀ result, stage ≠ .settling result) : e.Live := by
  intro result hresult
  exact hne result (hstage.symm.trans hresult)

/-- A stream error, before or after the first chunk. -/
theorem Sound.fail (h : Sound cfg b) (he : b.lanes[l]? = some (some e)) (hlive : e.Live)
    (error : ε) : Sound cfg (b.fail l e (.stream error)) := by
  have hsame : b = { b with heard := Function.update b.heard e.index (b.heard e.index) } := by
    rw [Function.update_eq_self]
  have hlawful : (Failure.stream error).Lawful cfg := trivial
  have hinvariant := h.invariant.fail (b.heard e.index) he hlive hlawful
  rw [← hsame] at hinvariant
  exact h.replace hinvariant rfl rfl rfl

theorem Sound.receive {value : Chunk} (h : Sound cfg b) (he : b.lanes[l]? = some (some e))
    (hlive : e.Live) : Sound cfg (b.receive cfg l e value) := by
  have hinvariant : Invariant cfg (b.receive cfg l e value) := h.invariant.receive he hlive
  by_cases hlimit : b.payloadBytes + value.byteLength > (cfg.maxTotalBytes : ℤ)
  · rw [receive_refused hlimit] at hinvariant ⊢
    exact h.replace hinvariant rfl rfl rfl
  · rw [h.invariant.accounts.receive_taken hlimit] at hinvariant ⊢
    exact h.replace hinvariant rfl rfl rfl

theorem Sound.step {a : Act ε} (h : Sound cfg b) (he : b.lanes[l]? = some (some e))
    (hstep : b.step cfg l e a = some c) : Sound cfg c := by
  cases hstage : e.stage with
  | opening =>
    have hlive : e.Live := live_of_ne hstage (by simp)
    cases a <;> simp only [Batch.step, hstage, reduceCtorEq] at hstep
    case opened =>
      cases hstep
      exact h.replace (h.invariant.wait he hlive (by simp)) rfl rfl rfl
    case rejected error =>
      cases hstep
      exact h.fail he hlive error
  | reading =>
    have hlive : e.Live := live_of_ne hstage (by simp)
    cases a <;> simp only [Batch.step, hstage, reduceCtorEq] at hstep
    case chunk value =>
      cases hstep
      exact h.receive he hlive
    case done =>
      cases hstep
      exact h.replace (h.invariant.wait he hlive (by simp)) rfl rfl rfl
    case rejected error =>
      cases hstep
      exact h.fail he hlive error
  | completing =>
    have hlive : e.Live := live_of_ne hstage (by simp)
    cases a <;> simp only [Batch.step, hstage, reduceCtorEq] at hstep
    case completed =>
      cases hstep
      obtain ⟨f, -, -, heq⟩ := h.invariant.assemble_eq he hlive
      have hinvariant := h.invariant.assemble he hlive
      rw [heq] at hinvariant ⊢
      exact h.replace hinvariant rfl rfl rfl
    case rejected error =>
      cases hstep
      exact h.fail he hlive error
  | settling result =>
    cases a <;> simp only [Batch.step, hstage, reduceCtorEq] at hstep
    case settled =>
      obtain ⟨d, hrun, hd, -⟩ := h.settle he hstage
      cases hrun.symm.trans hstep
      exact hd

theorem sound_initial (cfg : Config ρ) :
    Sound cfg (machine cfg : Machine (Batch ρ ε) (Event ε)).initial := by
  have hnone : ∀ {l : ℕ} {x : Option (Execution ρ ε)},
      (machine cfg : Machine (Batch ρ ε) (Event ε)).initial.lanes[l]? ≠ some x := by
    intro l x hx
    simp [machine] at hx
  refine ⟨⟨⟨?_, rfl, Int.natCast_nonneg _⟩, ?_, ?_⟩, fun l hl => absurd hl hnone, rfl⟩
  · have hzero : total okBytes (List.replicate cfg.requests.length (none : Option (BatchResult ε)))
        = 0 := by
      apply total_eq_zero
      intro x hx
      rw [List.eq_of_mem_replicate hx]
      rfl
    simp [machine, hzero, total]
  · constructor
    case length => simp [machine]
    case executed => exact fun p hp => absurd hp List.not_mem_nil
    case nodup => exact List.nodup_nil
    case running => exact fun l e he => absurd he hnone
    case apart => exact fun l k e f _ he => absurd he hnone
    case untaken =>
      intro i _ hi
      simp [machine, hi]
    case taken => exact fun i hi => absurd hi (Nat.not_lt_zero _)
  · constructor
    case unheard => exact fun i _ => ⟨rfl, rfl⟩
    case live => exact fun l e he => absurd he hnone
    case settling => exact fun l e r he => absurd he hnone
    case stored =>
      intro i r hi
      simp only [machine, List.getElem?_replicate] at hi
      split at hi <;> cases hi
    case lawful => exact fun i r hr => absurd hr (by simp [machine])

/-- The abort flag and the start of the lanes are not part of the invariant. -/
theorem Invariant.flags (h : Invariant cfg b) (begun aborted : Bool) :
    Invariant cfg { b with begun := begun, aborted := aborted } where
  accounts := ⟨h.accounts.payload, h.accounts.working, h.accounts.bounded⟩
  indexed := ⟨h.indexed.length, h.indexed.executed, h.indexed.nodup, h.indexed.running,
    h.indexed.apart, h.indexed.untaken, h.indexed.taken⟩
  answers := ⟨h.answers.unheard, h.answers.live, h.answers.settling, h.answers.stored,
    h.answers.lawful⟩

theorem Sound.start (h : Sound cfg b) (hbegun : b.begun = false) :
    ∃ c, b.advance cfg .start = some c ∧ Sound cfg c := by
  have hempty : b.lanes.length = 0 := by
    rw [h.width, hbegun]
    rfl
  obtain ⟨c, hrun, hc, hx, hb, hwidth⟩ :=
    begin_sound (k := min cfg.concurrency cfg.requests.length) (h.invariant.flags true b.aborted)
      h.exhausted
  refine ⟨c, ?_, hc, hx, ?_⟩
  · simp only [Batch.advance, hbegun]
    exact hrun
  · rw [hb, hwidth]
    simp [hempty]

theorem Sound.advance {ev : Event ε} (h : Sound cfg b) (hnext : b.advance cfg ev = some c) :
    Sound cfg c := by
  cases ev with
  | start =>
    cases hbegun : b.begun with
    | true => simp [Batch.advance, hbegun] at hnext
    | false =>
      obtain ⟨d, hrun, hd⟩ := h.start hbegun
      cases hrun.symm.trans hnext
      exact hd
  | abort =>
    cases hnext
    exact ⟨h.invariant.flags b.begun true, h.exhausted, h.width⟩
  | act l a =>
    simp only [Batch.advance] at hnext
    split at hnext
    · next e he => exact h.step he hnext
    · cases hnext

theorem sound_run {es : List (Event ε)}
    (hrun : (machine cfg).run (machine cfg).initial es = some b) : Sound cfg b := by
  have hstep : ∀ (u : Batch ρ ε) (ev : Event ε) (v : Batch ρ ε), Sound cfg u →
      (machine cfg).next u ev = some v → Sound cfg v := fun u ev v hu hv => hu.advance hv
  exact Machine.run_preserves hstep (sound_initial cfg) hrun

theorem Sound.buffered (h : Sound cfg b) (he : b.lanes[l]? = some (some e)) (hlive : e.Live) :
    e.bytes = (content (b.heard e.index)).length := by
  have hbuffered := h.invariant.answers.live l e he hlive
  rw [hbuffered.bytes, hbuffered.chunks]

/-- A failure takes the bytes of the execution off both counters, and nothing else. -/
theorem Sound.fail_returns (h : Sound cfg b) (he : b.lanes[l]? = some (some e))
    (hlive : e.Live) {a : Act ε} (hstep : b.step cfg l e a = some c) {failure : Failure ε}
    (hfailed : c.answered e.index = some (.error failure)) :
    c.payloadBytes = b.payloadBytes - e.bytes ∧ c.workingBytes = b.workingBytes - e.bytes := by
  have hbuffered := h.invariant.answers.live l e he hlive
  have hunanswered : ∀ {d : Batch ρ ε}, d.answered = b.answered →
      d.answered e.index ≠ some (.error failure) := by
    intro d hd hfail
    rw [hd, hbuffered.unanswered] at hfail
    cases hfail
  have hfail : ∀ {d : Batch ρ ε} {error : Failure ε}, d.payloadBytes = b.payloadBytes →
      d.workingBytes = b.workingBytes →
      (d.fail l e error).payloadBytes = b.payloadBytes - e.bytes ∧
        (d.fail l e error).workingBytes = b.workingBytes - e.bytes := by
    intro d error hp hw
    simp only [Batch.fail, Batch.answer, hp, hw, hbuffered.reserved, and_self]
  cases hstage : e.stage with
  | settling result => exact absurd hstage (hlive result)
  | opening =>
    cases a <;> simp only [Batch.step, hstage, reduceCtorEq] at hstep
    case opened =>
      cases hstep
      exact absurd hfailed (hunanswered rfl)
    case rejected error =>
      cases hstep
      exact hfail rfl rfl
  | reading =>
    cases a <;> simp only [Batch.step, hstage, reduceCtorEq] at hstep
    case chunk value =>
      cases hstep
      by_cases hlimit : b.payloadBytes + value.byteLength > (cfg.maxTotalBytes : ℤ)
      · rw [receive_refused hlimit]
        exact hfail rfl rfl
      · rw [h.invariant.accounts.receive_taken hlimit] at hfailed
        exact absurd hfailed (hunanswered rfl)
    case done =>
      cases hstep
      exact absurd hfailed (hunanswered rfl)
    case rejected error =>
      cases hstep
      exact hfail rfl rfl
  | completing =>
    cases a <;> simp only [Batch.step, hstage, reduceCtorEq] at hstep
    case completed =>
      cases hstep
      obtain ⟨f, hindex, -, heq⟩ := h.invariant.assemble_eq he hlive
      rw [heq, Batch.answer, hindex] at hfailed
      simp at hfailed
    case rejected error =>
      cases hstep
      exact hfail rfl rfl

/-- A chunk is refused exactly when it would push the payload total above the limit. -/
theorem Sound.refused_iff (h : Sound cfg b) (he : b.lanes[l]? = some (some e))
    (hlive : e.Live) (value : Chunk) :
    (∃ failure, (b.receive cfg l e value).answered e.index = some (.error failure)) ↔
      b.payloadBytes + value.byteLength > (cfg.maxTotalBytes : ℤ) := by
  have hnone := (h.invariant.answers.live l e he hlive).unanswered
  constructor
  · rintro ⟨failure, hfailed⟩
    by_contra hlimit
    rw [h.invariant.accounts.receive_taken hlimit, Batch.wait, hnone] at hfailed
    cases hfailed
  · intro hlimit
    rw [receive_refused hlimit]
    exact ⟨.bufferLimit b.payloadBytes value.byteLength, by simp [Batch.fail, Batch.answer]⟩

theorem Sound.complete (h : Sound cfg b) (hbegun : b.begun = true)
    (hall : ∀ lane ∈ b.lanes, lane = none) {i : ℕ} (hi : i < cfg.requests.length) :
    ∃ result, b.output[i]? = some (some result) := by
  have hwidth : 0 < b.lanes.length := by
    have := cfg.positive
    rw [h.width, hbegun, if_pos rfl]
    omega
  have hfirst : b.lanes[0]? = some none := by
    rw [List.getElem?_eq_getElem hwidth, hall _ (List.getElem_mem hwidth)]
  have hend := h.exhausted 0 hfirst
  have hlength : i < b.output.length := by
    rw [h.invariant.indexed.length]
    exact hi
  cases hout : b.output[i] with
  | some result => exact ⟨result, by rw [List.getElem?_eq_getElem hlength, hout]⟩
  | none =>
    have hsome : b.output[i]? = some none := by rw [List.getElem?_eq_getElem hlength, hout]
    obtain ⟨k, e, he, -⟩ := h.invariant.indexed.taken i (by omega) hsome
    have := hall _ (List.mem_of_getElem? he)
    cases this

/-- In every state that a batch can reach under any interleaving of its lanes: no request is
executed twice, and each with its own options; the two counters agree and are exactly the bytes of
the successful results and of the executions that still run; every stored result is the one that
the execution of its request returned, or the timeout of a request that was not executed; once all
lanes have returned every request has a result; a body is the concatenation of its stream's
chunks; and an execution fails with the stream's error or because a chunk would have pushed the
payload total above the limit. -/
theorem batch_accounting (cfg : Config ρ) (es : List (Event ε)) (b : Batch ρ ε)
    (hrun : (machine cfg).run (machine cfg).initial es = some b) :
    ((b.executed.map Prod.fst).Nodup ∧ ∀ p ∈ b.executed, cfg.requests[p.1]? = some p.2) ∧
    (b.payloadBytes = (total okBytes b.output + total laneBytes b.lanes : ℕ) ∧
      b.workingBytes = b.payloadBytes ∧ b.payloadBytes ≤ cfg.maxTotalBytes ∧
      ∀ (l : ℕ) (e : Execution ρ ε), b.lanes[l]? = some (some e) → e.Live →
        laneBytes (some e) = (content (b.heard e.index)).length) ∧
    (∀ (i : ℕ) (result : BatchResult ε), b.output[i]? = some (some result) →
      b.answered i = some result ∨ result = .error .timeout ∧ ∀ p ∈ b.executed, p.1 ≠ i) ∧
    (b.begun = true → (∀ lane ∈ b.lanes, lane = none) → ∀ i < cfg.requests.length,
      ∃ result, b.output[i]? = some (some result)) ∧
    (∀ (i : ℕ) (body : List UInt8), b.answered i = some (.ok body) →
      body = content (b.heard i)) ∧
    (∀ (i : ℕ) (failure : Failure ε), b.answered i = some (.error failure) →
      (∃ payload chunk, failure = .bufferLimit payload chunk ∧
        payload + chunk > (cfg.maxTotalBytes : ℤ)) ∨ ∃ error, failure = .stream error) ∧
    (∀ (l : ℕ) (e : Execution ρ ε), b.lanes[l]? = some (some e) → e.Live →
      (∀ (a : Act ε) (c : Batch ρ ε) (failure : Failure ε),
        b.advance cfg (.act l a) = some c → c.answered e.index = some (.error failure) →
        c.payloadBytes = b.payloadBytes - e.bytes ∧
          c.workingBytes = b.workingBytes - e.bytes) ∧
      (e.stage = .reading → ∀ value : Chunk,
        ∃ c, b.advance cfg (.act l (.chunk value)) = some c ∧
          ((∃ failure, c.answered e.index = some (.error failure)) ↔
            b.payloadBytes + value.byteLength > (cfg.maxTotalBytes : ℤ))) ∧
      (e.stage = .completing → ∃ c, b.advance cfg (.act l .completed) = some c ∧
        c.answered e.index = some (.ok (content (b.heard e.index))))) ∧
    (b.begun = false → ∃ c, b.advance cfg .start = some c) ∧
    (∀ (l : ℕ) (e : Execution ρ ε) (result : BatchResult ε), b.lanes[l]? = some (some e) →
      e.stage = .settling result →
      ∃ c, b.advance cfg (.act l .settled) = some c ∧
        c.output[e.index]? = some (some result)) := by
  have h := sound_run hrun
  have hi := h.invariant
  have hact : ∀ {l : ℕ} {e : Execution ρ ε} {a : Act ε}, b.lanes[l]? = some (some e) →
      b.advance cfg (.act l a) = b.step cfg l e a := by
    intro l e a he
    simp only [Batch.advance, he]
  refine ⟨⟨hi.indexed.nodup, fun p hp => (hi.indexed.executed p hp).2⟩,
    ⟨hi.accounts.payload, hi.accounts.working, hi.accounts.bounded, ?_⟩, hi.answers.stored,
    ?_, ?_, ?_, ?_, ?_, ?_⟩
  · intro l e he hlive
    rw [laneBytes_live hlive]
    exact h.buffered he hlive
  · exact fun hbegun hall i hlt => h.complete hbegun hall hlt
  · exact fun i body hanswered => hi.answers.lawful i _ hanswered
  · intro i failure hanswered
    have hlawful := hi.answers.lawful i _ hanswered
    cases failure with
    | bufferLimit payload chunk => exact .inl ⟨payload, chunk, rfl, hlawful⟩
    | stream error => exact .inr ⟨error, rfl⟩
    | assemblyLimit => exact absurd hlawful id
    | range => exact absurd hlawful id
    | timeout => exact absurd hlawful id
  · intro l e he hlive
    refine ⟨?_, ?_, ?_⟩
    · intro a c failure hc hfailed
      rw [hact he] at hc
      exact h.fail_returns he hlive hc hfailed
    · intro hstage value
      refine ⟨b.receive cfg l e value, ?_, h.refused_iff he hlive value⟩
      rw [hact he]
      simp only [Batch.step, hstage]
    · intro hstage
      obtain ⟨f, hindex, -, heq⟩ := hi.assemble_eq he hlive
      refine ⟨b.assemble cfg l e, ?_, ?_⟩
      · rw [hact he]
        simp only [Batch.step, hstage]
      · rw [heq, Batch.answer, hindex, (hi.answers.live l e he hlive).chunks]
        exact Function.update_self _ _ _
  · intro hbegun
    obtain ⟨c, hc, -⟩ := h.start hbegun
    exact ⟨c, hc⟩
  · intro l e result he hstage
    obtain ⟨c, hc, -, hout⟩ := h.settle he hstage
    refine ⟨c, ?_, hout⟩
    rw [hact he]
    simp only [Batch.step, hstage]
    exact hc

def boundedBatch : Config ℕ := ⟨[10, 20, 30], 2, 8, by decide⟩

def boundedRun : List (Event Unit) :=
  let half : Chunk := ⟨[1, 2, 3], 0, 3, false⟩
  [.start, .act 0 .opened, .act 1 .opened, .act 0 (.chunk half), .act 1 (.chunk half),
    .act 1 (.chunk half), .abort, .act 0 (.chunk half), .act 0 .done, .act 1 .settled,
    .act 0 .completed, .act 0 .settled]

theorem batch_accounting_bounded :
    ∃ b, (machine boundedBatch).run (machine boundedBatch).initial boundedRun = some b ∧
      b.output = [some (.ok [1, 2, 3, 1, 2, 3]), some (.error (.bufferLimit 6 3)),
        some (.error .timeout)] ∧
      b.payloadBytes = 6 ∧ b.workingBytes = 6 := by
  have hout : ((machine boundedBatch).run (machine boundedBatch).initial boundedRun).map
      (fun b => (b.output, b.lanes.map Option.isSome)) =
        some ([some (.ok [1, 2, 3, 1, 2, 3]), some (.error (.bufferLimit 6 3)),
          some (.error .timeout)], [false, false]) := by
    decide +kernel
  obtain ⟨b, hb, heq⟩ := Option.map_eq_some_iff.mp hout
  obtain ⟨houtput, hlanes⟩ := Prod.mk.inj heq
  obtain ⟨-, ⟨hpayload, hworking, -, -⟩, -⟩ := batch_accounting boundedBatch boundedRun b hb
  have hidle : total laneBytes b.lanes = 0 := by
    apply total_eq_zero
    intro lane hlane
    have hsome : lane.isSome ∈ b.lanes.map Option.isSome := List.mem_map_of_mem hlane
    rw [hlanes] at hsome
    cases lane with
    | none => rfl
    | some e => simp at hsome
  have htotal : total okBytes b.output = 6 := by
    rw [houtput]
    rfl
  rw [hidle, htotal] at hpayload
  exact ⟨b, hb, houtput, hpayload, hworking.trans hpayload⟩

end BatchLanes
