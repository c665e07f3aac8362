import ElevateGate.Backend.Consistency
import ElevateGate.Dashboard.PendingRequests

/-!
# Highlights

A request that arrives is highlighted until the timer of the run of the effect that saw it fires. The
cleanup of the next run clears that timer, and no other removes the highlight: highlights end as long
as no answer changes the data while a timer is outstanding, and one that does leaves its highlights
behind.
-/

namespace ElevateGate.Dashboard

open Backend

namespace Provider

/-- What the parts of the provider say about each other. -/
structure Consistent (p : Provider) : Prop where
  seen : p.seenIds = p.data.map fun data => idsOf data.items
  due : ∀ timer, p.timer = some timer → p.clock ≤ timer.due
  shown : ∀ timer, p.timer = some timer → ∀ u ∈ timer.ids, ∃ toast ∈ p.toasts,
    toast.about = u ∧ toast.shownAt + highlightDurationMs = timer.due
  past : ∀ toast ∈ p.toasts, toast.shownAt ≤ p.clock
  listed : ∀ timer, p.timer = some timer → ∀ seen, p.seenIds = some seen → timer.ids ⊆ seen
  lit : ∀ timer, p.timer = some timer → timer.ids.Nonempty ∧ timer.ids ⊆ p.newRequestIds

/-- Every highlight will be ended by the outstanding timer. -/
def Timed (p : Provider) : Prop := ∀ u ∈ p.newRequestIds, ∃ timer, p.timer = some timer ∧ u ∈ timer.ids

/-- No request is highlighted long after it last counted as new. -/
def Ends (p : Provider) : Prop :=
  ∀ u, (∀ toast ∈ p.toasts, toast.about = u → toast.shownAt + highlightDurationMs < p.clock) →
    u ∉ p.newRequestIds

/-- Whether an event does not change the data while a timer is outstanding. -/
def undisturbed (p : Provider) : Event → Bool
  | .receive data => decide (p.data = some data) || p.timer.isNone
  | _ => true

/-- Whether no answer of a run changes the data while a timer is outstanding. -/
def calm : List Event → Provider → Bool
  | [], _ => true
  | event :: rest, p => p.undisturbed event && (step event p).all (calm rest)

variable {p p' : Provider} {event : Event} {events : List Event} {u : Uuid}

theorem consistent_mounted : mounted.Consistent where
  seen := rfl
  due _ h := by contradiction
  shown _ h := by contradiction
  past _ h := by contradiction
  listed _ h := by contradiction
  lit _ h := by contradiction

/-- Without a timer there is less to say. -/
private theorem Consistent.of_no_timer (hseen : p.seenIds = p.data.map fun data => idsOf data.items)
    (hpast : ∀ toast ∈ p.toasts, toast.shownAt ≤ p.clock) (htimer : p.timer = none) :
    p.Consistent where
  seen := hseen
  due _ h := by rw [htimer] at h; contradiction
  shown _ h := by rw [htimer] at h; contradiction
  past := hpast
  listed _ h := by rw [htimer] at h; contradiction
  lit _ h := by rw [htimer] at h; contradiction

/-- What is new is listed. -/
theorem idsOf_freshlyArrived_subset {data : ElevationRequestList} :
    idsOf (p.freshlyArrived data) ⊆ idsOf data.items := by
  intro u hu
  obtain ⟨item, hitem, rfl⟩ := mem_idsOf.mp hu
  cases hbefore : p.seenIds with
  | none =>
    rw [freshlyArrived_first hbefore] at hitem
    contradiction
  | some previouslySeen =>
    exact mem_idsOf.mpr ⟨item, ((mem_freshlyArrived hbefore).mp hitem).1, rfl⟩

/-- An answer keeps the parts consistent. -/
theorem Consistent.receive (h : p.Consistent) (data : ElevationRequestList) :
    (p.receive data).Consistent := by
  by_cases hdata : p.data = some data
  · rw [receive_same hdata]
    exact h
  by_cases hfresh : p.freshlyArrived data = []
  · rw [receive_quiet hdata hfresh]
    exact .of_no_timer rfl h.past rfl
  · rw [receive_fresh hdata hfresh]
    refine ⟨rfl, ?_, ?_, ?_, ?_, ?_⟩
    · rintro timer htimer
      obtain rfl := Option.some.inj htimer
      exact Nat.le_add_right _ _
    · rintro timer htimer u hu
      obtain rfl := Option.some.inj htimer
      obtain ⟨item, hitem, rfl⟩ := mem_idsOf.mp hu
      exact ⟨toastFor p.clock item, List.mem_append_right _ (List.mem_map_of_mem hitem), rfl, rfl⟩
    · intro toast htoast
      rcases List.mem_append.mp htoast with hold | hnew
      · exact h.past toast hold
      · obtain ⟨item, -, rfl⟩ := List.mem_map.mp hnew
        exact Nat.le_refl _
    · rintro timer htimer seen hseen
      obtain rfl := Option.some.inj htimer
      obtain rfl := Option.some.inj hseen
      exact idsOf_freshlyArrived_subset
    · rintro timer htimer
      obtain rfl := Option.some.inj htimer
      obtain ⟨item, hitem⟩ := List.exists_mem_of_ne_nil _ hfresh
      exact ⟨⟨_, mem_idsOf.mpr ⟨item, hitem, rfl⟩⟩, Finset.subset_union_right⟩

/-- So does every event. -/
theorem Consistent.step (h : p.Consistent) (hstep : step event p = some p') : p'.Consistent := by
  cases event with
  | wait ms =>
    simp only [Provider.step] at hstep
    split at hstep
    · next hdue =>
      obtain rfl := Option.some.inj hstep
      refine ⟨h.seen, fun timer htimer => ?_, h.shown, fun toast htoast => ?_, h.listed, h.lit⟩
      · rw [show p.timer = some timer from htimer] at hdue
        exact of_decide_eq_true hdue
      · exact (h.past toast htoast).trans (Nat.le_add_right _ _)
    · contradiction
  | fire =>
    simp only [Provider.step] at hstep
    split at hstep
    · split at hstep
      · obtain rfl := Option.some.inj hstep
        exact .of_no_timer h.seen h.past rfl
      · contradiction
    · contradiction
  | receive data =>
    obtain rfl := Option.some.inj hstep
    exact h.receive data

/-- The parts are consistent in every run. -/
theorem Consistent.run (h : p.Consistent) (hrun : run events p = some p') : p'.Consistent := by
  induction events generalizing p with
  | nil =>
    obtain rfl := Option.some.inj hrun
    exact h
  | cons event rest ih =>
    obtain ⟨mid, hstep, hrest⟩ := Option.bind_eq_some_iff.mp hrun
    exact ih (h.step hstep) hrest

/-- A step keeps every highlight timed if it does not change the data while a timer is outstanding. -/
theorem Timed.step (h : p.Timed) (hstep : step event p = some p')
    (hcalm : p.undisturbed event = true) : p'.Timed := by
  cases event with
  | wait ms =>
    simp only [Provider.step] at hstep
    split at hstep
    · obtain rfl := Option.some.inj hstep
      exact h
    · contradiction
  | fire =>
    simp only [Provider.step] at hstep
    split at hstep
    · next timer htimer =>
      split at hstep
      · obtain rfl := Option.some.inj hstep
        intro u hu
        obtain ⟨hnew, hkept⟩ := Finset.mem_sdiff.mp hu
        obtain ⟨timer', htimer', hmem⟩ := h u hnew
        rw [htimer] at htimer'
        obtain rfl := Option.some.inj htimer'
        exact absurd hmem hkept
      · contradiction
    · contradiction
  | receive data =>
    obtain rfl := Option.some.inj hstep
    by_cases hdata : p.data = some data
    · rw [receive_same hdata]
      exact h
    have htimer : p.timer = none := by simpa [undisturbed, hdata] using hcalm
    have hnone : ∀ u, u ∉ p.newRequestIds := fun u hu => by
      obtain ⟨timer, hsome, -⟩ := h u hu
      rw [htimer] at hsome
      contradiction
    intro u hu
    by_cases hfresh : p.freshlyArrived data = []
    · rw [receive_quiet hdata hfresh] at hu
      exact absurd hu (hnone u)
    · rw [receive_fresh hdata hfresh] at hu ⊢
      exact ⟨_, rfl, (Finset.mem_union.mp hu).resolve_left (hnone u)⟩

/-- In a calm run every highlight is timed. -/
theorem Timed.run (h : p.Timed) (hrun : run events p = some p') (hcalm : calm events p = true) :
    p'.Timed := by
  induction events generalizing p with
  | nil =>
    obtain rfl := Option.some.inj hrun
    exact h
  | cons event rest ih =>
    obtain ⟨mid, hstep, hrest⟩ := Option.bind_eq_some_iff.mp hrun
    rw [calm, hstep, Bool.and_eq_true] at hcalm
    exact ih (h.step hstep hcalm.1) hrest hcalm.2

/-- An answer that changes the data while a timer is outstanding leaves highlights that stay when no
further answer comes. -/
theorem exists_stuck (h : p.Consistent) {timer : Timer} (htimer : p.timer = some timer)
    {data : ElevationRequestList} (hdata : p.data ≠ some data) :
    ∃ later p', (∀ event ∈ later, ∀ answer, event ≠ .receive answer) ∧
      run (.receive data :: later) p = some p' ∧ ¬ p'.Ends := by
  obtain ⟨⟨u, hu⟩, hlit⟩ := h.lit timer htimer
  have hnew : u ∈ p.newRequestIds := hlit hu
  by_cases hfresh : p.freshlyArrived data = []
  · refine ⟨[.wait (highlightDurationMs + 1)],
      { p.receive data with clock := p.clock + (highlightDurationMs + 1) }, by simp, ?_, ?_⟩
    · rw [receive_quiet hdata hfresh, run, step, Option.bind_some, receive_quiet hdata hfresh]
      rfl
    · rw [receive_quiet hdata hfresh]
      refine fun hends => hends u (fun toast htoast _ => ?_) hnew
      have hpast := h.past toast htoast
      change toast.shownAt + highlightDurationMs < p.clock + (highlightDurationMs + 1)
      omega
  · -- the new timer ends the highlights of other requests
    have hother : u ∉ idsOf (p.freshlyArrived data) := by
      intro hmem
      obtain ⟨item, hitem, rfl⟩ := mem_idsOf.mp hmem
      cases hseen : p.seenIds with
      | none =>
        rw [freshlyArrived_first hseen] at hitem
        contradiction
      | some seen => exact ((mem_freshlyArrived hseen).mp hitem).2 (h.listed timer htimer seen hseen hu)
    refine ⟨[.wait highlightDurationMs, .fire, .wait 1],
      { p.receive data with
        clock := p.clock + highlightDurationMs + 1
        newRequestIds := (p.receive data).newRequestIds \ idsOf (p.freshlyArrived data)
        timer := none }, by simp, ?_, ?_⟩
    · rw [receive_fresh hdata hfresh, run, step, Option.bind_some, receive_fresh hdata hfresh]
      simp [run, step]
    · rw [receive_fresh hdata hfresh]
      refine fun hends => hends u (fun toast htoast habout => ?_)
        (Finset.mem_sdiff.mpr ⟨Finset.mem_union_left _ hnew, hother⟩)
      rcases List.mem_append.mp htoast with hold | hshown
      · have hpast := h.past toast hold
        change toast.shownAt + highlightDurationMs < p.clock + highlightDurationMs + 1
        omega
      · obtain ⟨item, hitem, rfl⟩ := List.mem_map.mp hshown
        exact absurd (mem_idsOf.mpr ⟨item, hitem, habout⟩) hother

/-- In every run in which no answer changes the data while a timer is outstanding, highlights end; and
the first answer that does leaves highlights that do not end by themselves. -/
theorem highlights_end (hrun : run events mounted = some p) (hcalm : calm events mounted = true) :
    p.Ends ∧ ∀ data, p.undisturbed (.receive data) = false →
      ∃ later p', (∀ event ∈ later, ∀ answer, event ≠ .receive answer) ∧
        run (.receive data :: later) p = some p' ∧ ¬ p'.Ends := by
  have hconsistent : p.Consistent := consistent_mounted.run hrun
  constructor
  · intro u hlong hu
    have htimed : p.Timed := Timed.run (fun _ h => by contradiction) hrun hcalm
    obtain ⟨timer, htimer, hmem⟩ := htimed u hu
    obtain ⟨toast, htoast, habout, hdue⟩ := hconsistent.shown timer htimer u hmem
    have hpast := hlong toast htoast habout
    have hnow := hconsistent.due timer htimer
    omega
  · intro data hdisturbed
    obtain ⟨hdata, htimer⟩ := Bool.or_eq_false_iff.mp hdisturbed
    obtain ⟨timer, htimer⟩ := Option.isSome_iff_exists.mp (Option.isNone_eq_false_iff.mp htimer)
    exact exists_stuck hconsistent htimer (of_decide_eq_false hdata)

end Provider

namespace Sample

open Backend.Sample Provider

/-- The UUID of a request. -/
def uuid (n : Fin 256) : Uuid :=
  ⟨[⟨n / 16, by omega⟩, ⟨n % 16, by omega⟩] ++ (Uuid.repeated 0).digits.drop 2,
    by simp [Uuid.length_digits]⟩

/-- A pending request; the later ones have the greater numbers. -/
def request (n : Fin 256) : ElevationRequest where
  id := n
  requestUuid := uuid n
  deviceId := 0
  username := none
  filename := "setup.exe"
  canonicalPath := "C:\\Downloads\\setup.exe"
  sha256 := emptyDigest
  publisher := none
  signatureStatus := .unsigned
  fileSize := 0
  fileVersion := none
  reason := "installation"
  status := .pending
  requestedAt := ⟨noon.micros + n, by simp only [noon, Time.maxMicros]; omega⟩
  reviewedAt := none
  reviewedBy := none
  expiresAt := ⟨noon.micros + 3600000000, by decide⟩

/-- The answer that lists some requests. -/
def answer (numbers : List (Fin 256)) : ElevationRequestList where
  items := numbers.map fun n => ⟨request n, deviceUuid, "workstation"⟩
  total := numbers.length

/-- The number of a request. -/
def number (n : Nat) : Fin 256 := Fin.ofNat 256 n

/-- A request arrives and its highlight is ended. -/
def ended : List Event :=
  [.receive (answer []), .wait 5000, .receive (answer [0]), .wait 12000, .fire, .wait 5000]

/-- Another request arrives five seconds after the first. -/
def interrupted : List Event :=
  [.receive (answer []), .wait 5000, .receive (answer [0]), .wait 5000, .receive (answer [1, 0]),
    .wait 12000, .fire, .wait 5000]

end Sample

/-- The run with one request is such a run. -/
theorem highlights_end_sample : ∃ p, Provider.run Sample.ended Provider.mounted = some p ∧ p.Ends ∧
    ∀ data, p.undisturbed (.receive data) = false →
      ∃ later p', (∀ event ∈ later, ∀ answer, event ≠ .receive answer) ∧
        Provider.run (.receive data :: later) p = some p' ∧ ¬ p'.Ends := by
  obtain ⟨p, hp⟩ := Option.isSome_iff_exists.mp
    (show (Provider.run Sample.ended Provider.mounted).isSome = true by decide +kernel)
  exact ⟨p, hp, Provider.highlights_end hp (by decide +kernel)⟩

/-- Where another request arrives five seconds after the first, the first stays highlighted. -/
theorem highlight_outlives : ∃ p, Provider.run Sample.interrupted Provider.mounted = some p ∧
    ¬ p.Ends := by
  have hrun : (Provider.run Sample.interrupted Provider.mounted).map (fun p =>
      (decide (Sample.uuid 0 ∈ p.newRequestIds), p.clock,
        (p.toasts.filter fun toast => toast.about = Sample.uuid 0).map Toast.shownAt)) =
      some (true, 27000, [5000]) := by
    decide +kernel
  obtain ⟨p, hp, hstate⟩ := Option.map_eq_some_iff.mp hrun
  simp only [Prod.mk.injEq] at hstate
  obtain ⟨hnew, hclock, hshown⟩ := hstate
  refine ⟨p, hp, fun hends => hends (Sample.uuid 0) (fun toast htoast habout => ?_)
    (of_decide_eq_true hnew)⟩
  have hmem : toast.shownAt ∈ [5000] := by
    rw [← hshown]
    exact List.mem_map_of_mem (List.mem_filter.mpr ⟨htoast, decide_eq_true habout⟩)
  rw [List.mem_singleton.mp hmem, hclock]
  decide

end ElevateGate.Dashboard
