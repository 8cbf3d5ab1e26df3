/-
DigDht.Lookup.FailureTheorems — what a failed contact costs.

A walk ends converged when the `k` nearest contacts it learned of were
all asked, the failed ones among them; the result leaves the failed ones
out and fills up from behind, with contacts the test did not look at. So
a returned contact may never have been asked. §1 reads "asked and
answered" off the exchanges. §2 says when nothing is lost: where none of
the `k` nearest was asked in vain, or nobody within the cap is left to
ask (`Undisturbed`). Anywhere else, as many contacts from behind the `k`
nearest must have answered as failed among them.
-/
import DigDht.Lookup.CapTheorems

namespace DigDht.Lookup

open Keyspace Record Routing Selection BoundedLoop

namespace LookupParams

variable (p : LookupParams)

/-! ## §1 Asked, in vain or not -/

/-- `c` was asked and answered. -/
def answeredIn (trace : List (Contact × Option QueryOutcome)) (c : Contact) : Bool :=
  trace.any fun a => a.1.peerId = c.peerId && a.2.isSome

/-- Who was asked answered or failed. -/
theorem asked_iff {w : Walk} {c : Contact} :
    c.peerId ∈ askedIds w ↔ answeredIn w.trace c = true ∨ failedIn w.trace c = true := by
  simp only [mem_askedIds, answeredIn, failedIn, List.any_eq_true, Bool.and_eq_true,
    decide_eq_true_eq]
  constructor
  · intro h
    obtain ⟨a, ha, hid⟩ := h
    cases hres : a.2 with
    | none => exact Or.inr ⟨a, ha, hid, by rw [hres]; rfl⟩
    | some o => exact Or.inl ⟨a, ha, hid, by rw [hres]; rfl⟩
  · rintro (⟨a, ha, hid, -⟩ | ⟨a, ha, hid, -⟩)
    · exact ⟨a, ha, hid⟩
    · exact ⟨a, ha, hid⟩

/-- A contact of the shortlist answered if its own spelling was asked with
success. -/
theorem answered_iff {w : Walk} (hw : Consistent w) (hasked : (askedIds w).Nodup)
    {c : Contact} (hc : c ∈ contacts w) :
    answeredIn w.trace c = true ↔ ∃ o, (c, some o) ∈ w.trace := by
  obtain ⟨e, he, rfl⟩ := List.mem_map.mp hc
  simp only [answeredIn, List.any_eq_true, Bool.and_eq_true, decide_eq_true_eq]
  constructor
  · intro h
    obtain ⟨a, ha, hid, hsome⟩ := h
    obtain ⟨o, ho⟩ := Option.isSome_iff_exists.mp hsome
    cases hq : e.queried with
    | false => exact absurd hid ((hw.unqueried e he hq).2 a ha)
    | true =>
      obtain ⟨res, hres, -⟩ := hw.queried e he hq
      have hsame : a = (e.contact, res) := List.inj_on_of_nodup_map hasked ha hres hid
      exact ⟨o, by rw [← ho, hsame]; exact hres⟩
  · intro h
    obtain ⟨o, ho⟩ := h
    exact ⟨_, ho, rfl, rfl⟩

variable [Deps] (peers : Peers) (seeds : List Contact)

/-- None of the `k` nearest contacts learned was asked in vain, or nobody
within the cap is left to ask. -/
def Undisturbed (w : Walk) : Prop :=
  (∀ c ∈ (p.nearest seeds w).take p.k, failedIn w.trace c = false) ∨
    ∀ c ∈ (p.nearest seeds w).take p.shortlistCap, c.peerId ∈ askedIds w

instance (w : Walk) : Decidable (p.Undisturbed seeds w) :=
  inferInstanceAs (Decidable (_ ∨ _))

omit [Deps] in
theorem min_shortlistCap : min p.k p.shortlistCap = p.k := by
  unfold shortlistCap
  omega

/-! ## §2 Who was asked when a walk ends -/

/-- The contacts returned: those of the `k` nearest that did not fail, and
as many from behind as did. -/
theorem closest_eq_append :
    let w := (p.walk peers seeds).1
    (p.iterativeFind peers seeds).closest =
      (((p.nearest seeds w).take p.k).filter fun c => !failedIn w.trace c) ++
        ((((p.nearest seeds w).take p.shortlistCap).drop p.k).filter fun c =>
          !failedIn w.trace c).take (((p.nearest seeds w).take p.k).countP (failedIn w.trace)) := by
  intro w
  have hclosest : (p.iterativeFind peers seeds).closest =
      (((p.nearest seeds w).take p.shortlistCap).filter fun c => !failedIn w.trace c).take p.k :=
    p.closest_eq_filter_front peers seeds
  rw [hclosest, take_filter_eq_append, List.take_take, p.min_shortlistCap]
  simp only [Bool.not_not]

/-- A walk that finished, on neither the guard nor a provider, has asked
the `k` nearest, or everyone within the cap. -/
theorem asked_of_finished (halpha : 1 ≤ p.alpha) (hguard : (p.walk peers seeds).2 ≠ .guard)
    (hstop : (p.walk peers seeds).2 ≠ .stoppedOnProviders) :
    let w := (p.walk peers seeds).1
    (∀ c ∈ (p.nearest seeds w).take p.shortlistCap, c.peerId ∈ askedIds w) ∨
      ∀ c ∈ (p.nearest seeds w).take p.k, c.peerId ∈ askedIds w := by
  intro w
  obtain ⟨hinv, hexit⟩ := p.walk_spec peers seeds
  have hfront : contacts w = (p.nearest seeds w).take p.shortlistCap := p.fronted_walk peers seeds
  cases hreason : (p.walk peers seeds).2 with
  | guard => exact absurd hreason hguard
  | stoppedOnProviders => exact absurd hreason hstop
  | exhausted =>
    rw [hreason] at hexit
    left
    rw [← hfront, contacts, List.forall_mem_map]
    intro e he
    have hunasked := p.settled_of_batch_eq_nil halpha hexit e he
    by_contra hnever
    rw [(hinv.toConsistent.unasked_iff he).mpr hnever] at hunasked
    cases hunasked
  | converged =>
    rw [hreason] at hexit
    right
    have hsettled := (p.settled_iff_asked hinv.toConsistent).mp hexit
    intro c hc
    refine hsettled c.peerId ?_
    rw [ids_eq_map, ← List.map_take]
    refine List.mem_map_of_mem ?_
    have htake : (contacts w).take p.k = (p.nearest seeds w).take p.k := by
      rw [hfront, List.take_take, p.min_shortlistCap]
    exact htake ▸ hc

/-- Everyone returned was asked where nothing was lost. -/
theorem asked_of_undisturbed (halpha : 1 ≤ p.alpha) (hguard : (p.walk peers seeds).2 ≠ .guard)
    (hstop : (p.walk peers seeds).2 ≠ .stoppedOnProviders)
    (hcalm : p.Undisturbed seeds (p.walk peers seeds).1) :
    ∀ c ∈ (p.iterativeFind peers seeds).closest, c.peerId ∈ askedIds (p.walk peers seeds).1 := by
  have hwithin : ∀ c ∈ (p.iterativeFind peers seeds).closest,
      c ∈ (p.nearest seeds (p.walk peers seeds).1).take p.shortlistCap := by
    intro c hc
    rw [p.closest_eq_filter_front peers seeds] at hc
    exact (List.mem_filter.mp (List.mem_of_mem_take hc)).1
  intro c hc
  rcases hcalm with hnone | hasked
  · rcases p.asked_of_finished peers seeds halpha hguard hstop with hasked | hasked
    · exact hasked c (hwithin c hc)
    · -- No gap is left for the contacts behind to fill.
      rw [p.closest_eq_append peers seeds, List.countP_eq_zero.mpr (by simpa using hnone),
        List.take_zero, List.append_nil] at hc
      exact hasked c (List.mem_filter.mp hc).1
  · exact hasked c (hwithin c hc)

/-- Where everyone returned answered although somebody was left to ask,
the gaps of the failed were filled by answers from behind. -/
theorem failed_le_answered (halpha : 1 ≤ p.alpha) (hguard : (p.walk peers seeds).2 ≠ .guard)
    (hstop : (p.walk peers seeds).2 ≠ .stoppedOnProviders)
    (hanswered : ∀ c ∈ (p.iterativeFind peers seeds).closest,
      answeredIn (p.walk peers seeds).1.trace c = true)
    {c : Contact} (hc : c ∈ (p.nearest seeds (p.walk peers seeds).1).take p.shortlistCap)
    (hleft : c.peerId ∉ askedIds (p.walk peers seeds).1) :
    let w := (p.walk peers seeds).1
    ((p.nearest seeds w).take p.k).countP (failedIn w.trace) ≤
      (((p.nearest seeds w).take p.shortlistCap).drop p.k).countP (answeredIn w.trace) := by
  intro w
  have hsplit := p.closest_eq_append peers seeds
  set front := (p.nearest seeds w).take p.k with hfront
  set behind := ((p.nearest seeds w).take p.shortlistCap).drop p.k with hbehind
  set live := behind.filter fun d => !failedIn w.trace d with hlive
  have hnotFailed : failedIn w.trace c = false := by
    by_contra h
    exact hleft (asked_iff.mpr (Or.inr (by simpa using h)))
  have hcBehind : c ∈ live := by
    have hasked : ∀ d ∈ front, d.peerId ∈ askedIds w :=
      (p.asked_of_finished peers seeds halpha hguard hstop).resolve_left fun h => hleft (h c hc)
    rw [← List.take_append_drop p.k ((p.nearest seeds w).take p.shortlistCap)] at hc
    rcases List.mem_append.mp hc with hahead | hc
    · rw [List.take_take, p.min_shortlistCap] at hahead
      exact absurd (hasked c hahead) hleft
    · exact List.mem_filter.mpr ⟨hc, by rw [hnotFailed]; rfl⟩
  have hfilled : ∀ d ∈ live.take (front.countP (failedIn w.trace)),
      answeredIn w.trace d = true := by
    intro d hd
    refine hanswered d ?_
    rw [hsplit]
    exact List.mem_append_right _ hd
  -- The contact never asked is behind the gap, which is full.
  have hlength : front.countP (failedIn w.trace) ≤ live.length := by
    by_contra hshort
    refine hleft (asked_iff.mpr (Or.inl (hfilled c ?_)))
    rwa [List.take_of_length_le (Nat.le_of_not_le hshort)]
  calc front.countP (failedIn w.trace)
      = (live.take (front.countP (failedIn w.trace))).length := by
        rw [List.length_take, Nat.min_eq_left hlength]
    _ = (live.take (front.countP (failedIn w.trace))).countP (answeredIn w.trace) :=
        (List.countP_eq_length.mpr hfilled).symm
    _ ≤ behind.countP (answeredIn w.trace) :=
        ((List.take_sublist _ _).trans List.filter_sublist).countP_le

/-- **When a finished walk has asked everyone it returns.** A walk that
ended neither on the round guard nor on a provider has an answer from
every contact it returns where it was undisturbed; and elsewhere only
where as many contacts from behind the `k` nearest answered as failed
among them. -/
theorem closest_answered_when (halpha : 1 ≤ p.alpha) (hguard : (p.walk peers seeds).2 ≠ .guard)
    (hstop : (p.walk peers seeds).2 ≠ .stoppedOnProviders) :
    let w := (p.walk peers seeds).1
    let answered := ∀ c ∈ (p.iterativeFind peers seeds).closest, ∃ o, (c, some o) ∈ w.trace
    (p.Undisturbed seeds w → answered) ∧
      (answered → p.Undisturbed seeds w ∨
        ((p.nearest seeds w).take p.k).countP (failedIn w.trace) ≤
          (((p.nearest seeds w).take p.shortlistCap).drop p.k).countP (answeredIn w.trace)) := by
  intro w answered
  have hw : p.Grounded peers seeds w := p.grounded_walk peers seeds
  have hasked : (askedIds w).Nodup := p.nodup_askedIds peers seeds
  have hreads : answered ↔
      ∀ c ∈ (p.iterativeFind peers seeds).closest, answeredIn w.trace c = true := by
    refine forall₂_congr ?_
    intro c hc
    refine (answered_iff hw.toConsistent hasked ?_).symm
    obtain ⟨e, he, rfl⟩ := List.mem_map.mp hc
    exact List.mem_map_of_mem (List.mem_filter.mp (List.mem_of_mem_take he)).1
  rw [hreads]
  constructor
  · intro hcalm c hc
    have hlive : failedIn w.trace c = false := by
      rw [p.closest_eq_filter_front peers seeds] at hc
      simpa using (List.mem_filter.mp (List.mem_of_mem_take hc)).2
    rcases asked_iff.mp (p.asked_of_undisturbed peers seeds halpha hguard hstop hcalm c hc) with
      hanswered | hfailed
    · exact hanswered
    · rw [hlive] at hfailed
      cases hfailed
  · intro hanswered
    by_cases hleft : ∀ c ∈ (p.nearest seeds w).take p.shortlistCap, c.peerId ∈ askedIds w
    · exact Or.inl (Or.inr hleft)
    · push Not at hleft
      obtain ⟨c, hc, hnever⟩ := hleft
      exact Or.inr (p.failed_le_answered peers seeds halpha hguard hstop hanswered hc hnever)

end LookupParams

/-! ### Two walks at `k = 1` -/

section Samples

attribute [local instance] hexIds

/-- With both seeds in one batch the failed nearer one does no harm. -/
theorem closest_answered_of_wide_batch :
    ((sampleLookup 2).iterativeFind (peersWithout (sampleContact 1))
        [sampleContact 1, sampleContact 2]).closest = [sampleContact 2] ∧
      ∃ o, (sampleContact 2, some o) ∈ ((sampleLookup 2).walk (peersWithout (sampleContact 1))
        [sampleContact 1, sampleContact 2]).1.trace := by
  have hclosest : ((sampleLookup 2).iterativeFind (peersWithout (sampleContact 1))
      [sampleContact 1, sampleContact 2]).closest = [sampleContact 2] := by decide +kernel
  have hanswered := ((sampleLookup 2).closest_answered_when (peersWithout (sampleContact 1))
    [sampleContact 1, sampleContact 2] (by decide) (by decide +kernel) (by decide +kernel)).1
    (by decide +kernel)
  refine ⟨hclosest, hanswered (sampleContact 2) ?_⟩
  rw [hclosest]
  simp

/-- The nearest seed fails and fills the only place the test looks at:
the walk ends converged and returns the other seed, never asked. -/
theorem closest_never_asked :
    ((sampleLookup 1).walk (peersWithout (sampleContact 1))
        [sampleContact 1, sampleContact 2]).2 = .converged ∧
      ¬∀ c ∈ ((sampleLookup 1).iterativeFind (peersWithout (sampleContact 1))
          [sampleContact 1, sampleContact 2]).closest,
        ∃ o, (c, some o) ∈ ((sampleLookup 1).walk (peersWithout (sampleContact 1))
          [sampleContact 1, sampleContact 2]).1.trace := by
  have hclosest : ((sampleLookup 1).iterativeFind (peersWithout (sampleContact 1))
      [sampleContact 1, sampleContact 2]).closest = [sampleContact 2] := by decide +kernel
  have htrace : ((sampleLookup 1).walk (peersWithout (sampleContact 1))
      [sampleContact 1, sampleContact 2]).1.trace = [(sampleContact 1, none)] := by
    decide +kernel
  refine ⟨by decide +kernel, ?_⟩
  intro h
  rw [hclosest, htrace] at h
  obtain ⟨o, ho⟩ := h (sampleContact 2) (List.mem_singleton.mpr rfl)
  cases List.mem_singleton.mp ho

end Samples

end DigDht.Lookup
