import ElevateGate.Backend.Paging
import ElevateGate.Dashboard.Highlights
import Mathlib.Logic.Relation

/-!
# Toasts

The provider together with the backend that it polls. Between two polls requests are submitted and
decided, and a poll is answered with the newest pending requests, at most a hundred. The provider
remembers only the last answer, so a request that a longer queue crowds out of an answer counts as new
when it is listed again.
-/

namespace ElevateGate.Dashboard

open Backend Interaction Relation Provider

/-- The committed requests that are pending. -/
def pendingRequests (s : State) : List ElevationRequest :=
  ((List.range (s.nextId .elevationRequests)).filterMap s.request).filter fun r =>
    decide (r.status = .pending)

/-- An answer lists the newest pending requests, at most a hundred. -/
def Newest (s : State) (data : ElevationRequestList) : Prop :=
  ∃ l, Pages.Arrangement (fun r : ElevationRequest => r.requestedAt.micros) (pendingRequests s) l ∧
    data.items.map ElevationRequestRead.request = l.take 100

/-- An answer and the state of the backend when it was taken. -/
structure Poll where
  taken : State
  data : ElevationRequestList

namespace Poll

/-- The answer lists a request. -/
def Lists (poll : Poll) (u : Uuid) : Prop := u ∈ idsOf poll.data.items

/-- The request existed when the answer was taken. -/
def Knows (poll : Poll) (u : Uuid) : Prop :=
  ∃ id r, poll.taken.request id = some r ∧ r.requestUuid = u

/-- The request was pending when the answer was taken, and newer ones left no room for it. -/
def CrowdsOut (poll : Poll) (u : Uuid) : Prop :=
  (∃ id r, poll.taken.request id = some r ∧ r.requestUuid = u ∧ r.status = .pending) ∧
    ¬ poll.Lists u

end Poll

/-- A request is crowded out of one answer and listed in the next, although an answer before them
listed it or it existed when the first was taken. -/
def Returns (u : Uuid) (later earlier : Poll) (older : List Poll) : Prop :=
  later.Lists u ∧ earlier.CrowdsOut u ∧
    ((∃ poll ∈ older, poll.Lists u) ∨ ∃ first ∈ (earlier :: older).getLast?, first.Knows u)

/-- A request returns at some time. The latest answer comes first. -/
def Resurfaces (u : Uuid) : List Poll → Prop
  | later :: earlier :: older => Returns u later earlier older ∨ Resurfaces u (earlier :: older)
  | _ => False

/-- The backend, the provider and the answers that it has received, the latest first. -/
structure World where
  backend : Config Op Res PyError Answer Sid Call State
  provider : Provider
  polls : List Poll

/-- What may happen. -/
inductive World.Step (deployment : Deployment) : World → World → Prop
  /-- The backend takes a step: requests are submitted and decided. -/
  | serve {w : World} {label : Label Sid Choice Backend.Event Call}
      {c : Config Op Res PyError Answer Sid Call State}
      (h : (system deployment).step label w.backend = some c) : Step deployment w { w with backend := c }
  /-- Time passes for the provider, or its timer fires. -/
  | elapse {w : World} {event : Event} {p : Provider} (h : Provider.step event w.provider = some p)
      (hquiet : ∀ data, event ≠ .receive data) : Step deployment w { w with provider := p }
  /-- A poll is answered. -/
  | poll {w : World} {data : ElevationRequestList} (h : Newest w.backend.shared data) :
      Step deployment w
        { w with
          provider := w.provider.receive data
          polls := ⟨w.backend.shared, data⟩ :: w.polls }

/-- The provider is mounted while the backend is in a state that satisfies its invariant. -/
def World.Reachable (deployment : Deployment) (w : World) : Prop :=
  ∃ s, Inv deployment s ∧
    ReflTransGen (World.Step deployment) ⟨System.init s, Provider.mounted, []⟩ w

/-- No request was announced twice, and none that existed when the first answer was taken. -/
structure World.Announced (w : World) : Prop where
  once : (w.provider.toasts.map Toast.about).Nodup
  fresh : ∀ first ∈ w.polls.getLast?, ∀ u, first.Knows u → u ∉ w.provider.toasts.map Toast.about

section Answers

variable {deployment : Deployment} {s s' : State} {data : ElevationRequestList} {u : Uuid}

/-- The answer of the endpoint is one of these. -/
theorem newest_of_yields {sign : List UInt8 → List UInt8} {i : Sid} {rows : List ElevationRequest}
    {result : List ElevationRequest × Nat} (hclean : ∀ k version, s.db.dirty k ≠ some (i, version))
    (hshows : s.Shows i .elevationRequests rows)
    (hyields : Yields sign .elevationRequests rows result
      (ElevationRequestRepository.listPaginated (some .pending) none 100 0))
    (hitems : data.items.map ElevationRequestRead.request = result.1) : Newest s data := by
  obtain ⟨-, l, ⟨hperm, hsorted⟩, hpage⟩ := arrangement_of_yields
    (.elevationRequests (some .pending) none) hyields
  have hvisible : s.visible i .elevationRequests = s.request := funext fun id =>
    congrArg (Option.map Row.record) (Database.view_of_not_dirty (hclean _))
  have hrows : ((List.range (s.nextId .elevationRequests)).filterMap s.request).Perm rows :=
    hvisible ▸ hshows
  refine ⟨l, ⟨hperm.trans ?_, hsorted⟩, hitems.trans hpage⟩
  have hcondition : (Listing.elevationRequests (some .pending) none).condition =
      fun r : ElevationRequest => decide (r.status = .pending) := funext fun r => Bool.and_true _
  rw [hcondition]
  exact (hrows.filter _).symm

/-- A pending request. -/
theorem mem_pendingRequests {r : ElevationRequest} (h : r ∈ pendingRequests s) :
    (∃ id, s.request id = some r) ∧ r.status = .pending := by
  obtain ⟨hmem, hpending⟩ := List.mem_filter.mp h
  obtain ⟨id, -, hr⟩ := List.mem_filterMap.mp hmem
  exact ⟨⟨id, hr⟩, of_decide_eq_true hpending⟩

/-- What an answer lists is pending. -/
theorem Newest.pending (h : Newest s data) (hu : u ∈ idsOf data.items) :
    ∃ id r, s.request id = some r ∧ r.requestUuid = u ∧ r.status = .pending := by
  obtain ⟨l, harranged, hitems⟩ := h
  obtain ⟨item, hitem, rfl⟩ := mem_idsOf.mp hu
  have hmem : item.request ∈ l.take 100 := hitems ▸ List.mem_map_of_mem hitem
  obtain ⟨⟨id, hr⟩, hpending⟩ :=
    mem_pendingRequests (harranged.perm.subset (List.mem_of_mem_take hmem))
  exact ⟨id, item.request, hr, rfl, hpending⟩

/-- Committed requests differ in their identifiers. -/
theorem eq_of_requestUuid (hinv : Inv deployment s) {id id' : Nat} {r r' : ElevationRequest}
    (hr : s.request id = some r) (hr' : s.request id' = some r')
    (heq : r.requestUuid = r'.requestUuid) : id = id' := by
  by_contra hne
  have hclash := hinv.distinct .elevationRequests (Or.inl rfl) id id' r r' hne (Or.inl hr) (Or.inl hr')
  exact of_decide_eq_false hclash heq

/-- So do the items of an answer. -/
theorem Newest.nodup (h : Newest s data) (hinv : Inv deployment s) :
    (data.items.map requestUuid).Nodup := by
  obtain ⟨l, harranged, hitems⟩ := h
  have hall : (((List.range (s.nextId .elevationRequests)).filterMap s.request).map
      ElevationRequest.requestUuid).Nodup := by
    rw [List.map_filterMap]
    refine List.Nodup.filterMap (fun id id' v hv hv' => ?_) List.nodup_range
    obtain ⟨r, hr, rfl⟩ := Option.map_eq_some_iff.mp (Option.mem_def.mp hv)
    obtain ⟨r', hr', heq⟩ := Option.map_eq_some_iff.mp (Option.mem_def.mp hv')
    exact eq_of_requestUuid hinv hr hr' heq.symm
  have hpending : ((pendingRequests s).map ElevationRequest.requestUuid).Nodup :=
    hall.sublist (List.filter_sublist.map _)
  have hmap : data.items.map requestUuid =
      (data.items.map ElevationRequestRead.request).map ElevationRequest.requestUuid := by
    rw [List.map_map]
    rfl
  rw [hmap, hitems]
  exact ((harranged.perm.map _).nodup_iff.mpr hpending).sublist ((List.take_sublist _ _).map _)

/-- A request that is pending was pending before, if it existed. -/
theorem pending_before (hinv : Inv deployment s') (hevolves : Evolves s s')
    (hknown : ∃ id r, s.request id = some r ∧ r.requestUuid = u)
    (hpending : ∃ id r, s'.request id = some r ∧ r.requestUuid = u ∧ r.status = .pending) :
    ∃ id r, s.request id = some r ∧ r.requestUuid = u ∧ r.status = .pending := by
  obtain ⟨id, r, hr, rfl⟩ := hknown
  obtain ⟨id', r'', hr'', huuid, hstatus⟩ := hpending
  obtain ⟨r', hr', hdecides⟩ := hevolves.request id r hr
  obtain rfl := eq_of_requestUuid hinv hr'' hr' (huuid.trans hdecides.requestUuid.symm)
  rw [hr''] at hr'
  obtain rfl := Option.some.inj hr'
  refine ⟨id', r, hr, rfl, ?_⟩
  by_contra hdecided
  exact hdecided ((hdecides.final hdecided).1.symm.trans hstatus)

end Answers

section Receiving

variable {p p' : Provider} {event : Event} {data : ElevationRequestList}

/-- An answer is remembered. -/
theorem seenIds_receive (h : p.Consistent) : (p.receive data).seenIds = some (idsOf data.items) := by
  by_cases hdata : p.data = some data
  · rw [receive_same hdata, h.seen, hdata]
    rfl
  by_cases hfresh : p.freshlyArrived data = []
  · rw [receive_quiet hdata hfresh]
  · rw [receive_fresh hdata hfresh]

/-- The toasts of an answer are about the items that the last one did not list. -/
theorem toasts_receive (data : ElevationRequestList) (h : p.Consistent) :
    (p.receive data).toasts.map Toast.about =
      p.toasts.map Toast.about ++ (p.freshlyArrived data).map requestUuid := by
  by_cases hdata : p.data = some data
  · have hseen : p.seenIds = some (idsOf data.items) := by rw [h.seen, hdata]; rfl
    have hnone : p.freshlyArrived data = [] := by
      refine List.eq_nil_iff_forall_not_mem.mpr fun item hitem => ?_
      obtain ⟨hlisted, hunseen⟩ := (mem_freshlyArrived hseen).mp hitem
      exact hunseen (mem_idsOf.mpr ⟨item, hlisted, rfl⟩)
    rw [receive_same hdata, hnone, List.map_nil, List.append_nil]
  by_cases hfresh : p.freshlyArrived data = []
  · rw [receive_quiet hdata hfresh, hfresh, List.map_nil, List.append_nil]
  · rw [receive_fresh hdata hfresh, List.map_append, List.map_map]
    rfl

/-- No other event shows a toast. -/
theorem step_quiet (hstep : Provider.step event p = some p') (hquiet : ∀ data, event ≠ .receive data) :
    p'.toasts = p.toasts ∧ p'.seenIds = p.seenIds := by
  cases event with
  | wait ms =>
    simp only [Provider.step] at hstep
    split at hstep
    · obtain rfl := Option.some.inj hstep
      exact ⟨rfl, rfl⟩
    · contradiction
  | fire =>
    simp only [Provider.step] at hstep
    split at hstep
    · split at hstep
      · obtain rfl := Option.some.inj hstep
        exact ⟨rfl, rfl⟩
      · contradiction
    · contradiction
  | receive data => exact absurd rfl (hquiet data)

end Receiving

/-- What is known of every reachable world. -/
structure World.Sound (deployment : Deployment) (w : World) : Prop where
  good : (discipline deployment).Good (system deployment) w.backend
  consistent : w.provider.Consistent
  seen : w.provider.seenIds = w.polls.head?.map fun poll => idsOf poll.data.items
  taken : ∀ poll ∈ w.polls, Newest poll.taken poll.data ∧ Evolves poll.taken w.backend.shared
  inv : ∀ poll ∈ w.polls, Inv deployment poll.taken
  ordered : w.polls.Pairwise fun later earlier => Evolves earlier.taken later.taken
  listed : ∀ u ∈ w.provider.toasts.map Toast.about, ∃ poll ∈ w.polls, poll.Lists u
  told : ∀ poll ∈ w.polls, ∀ u, poll.Lists u →
    (∃ first ∈ w.polls.getLast?, first.Knows u) ∨ u ∈ w.provider.toasts.map Toast.about

section Runs

variable {deployment : Deployment} {w w' : World} {data : ElevationRequestList} {u : Uuid}

/-- The world after a poll. -/
def World.polled (w : World) (data : ElevationRequestList) : World :=
  { w with
    provider := w.provider.receive data
    polls := ⟨w.backend.shared, data⟩ :: w.polls }

/-- A toast is about a request that the answer lists and the one before did not. -/
theorem World.Sound.mem_fresh (h : w.Sound deployment) :
    u ∈ (w.provider.freshlyArrived data).map requestUuid ↔
      u ∈ idsOf data.items ∧ ∃ earlier ∈ w.polls.head?, ¬ earlier.Lists u := by
  cases hpolls : w.polls.head? with
  | none =>
    have hseen : w.provider.seenIds = none := by rw [h.seen, hpolls]; rfl
    simp [freshlyArrived_first hseen]
  | some earlier =>
    have hseen : w.provider.seenIds = some (idsOf earlier.data.items) := by rw [h.seen, hpolls]; rfl
    constructor
    · intro hu
      obtain ⟨item, hitem, rfl⟩ := List.mem_map.mp hu
      obtain ⟨hlisted, hunseen⟩ := (mem_freshlyArrived hseen).mp hitem
      exact ⟨mem_idsOf.mpr ⟨item, hlisted, rfl⟩, earlier, rfl, hunseen⟩
    · rintro ⟨hu, earlier', hearlier, hunseen⟩
      obtain rfl := Option.some.inj hearlier
      obtain ⟨item, hitem, rfl⟩ := mem_idsOf.mp hu
      exact List.mem_map_of_mem ((mem_freshlyArrived hseen).mpr ⟨hitem, hunseen⟩)

/-- A poll keeps what is known. -/
theorem World.Sound.polled (h : w.Sound deployment) (hnewest : Newest w.backend.shared data) :
    (w.polled data).Sound deployment where
  good := h.good
  consistent := h.consistent.receive data
  seen := seenIds_receive h.consistent
  taken poll hpoll := by
    rcases List.mem_cons.mp hpoll with rfl | hpoll
    · exact ⟨hnewest, Evolves.refl _⟩
    · exact h.taken poll hpoll
  inv poll hpoll := by
    rcases List.mem_cons.mp hpoll with rfl | hpoll
    · exact h.good.inv
    · exact h.inv poll hpoll
  ordered := List.pairwise_cons.mpr ⟨fun poll hpoll => (h.taken poll hpoll).2, h.ordered⟩
  listed u hu := by
    rw [World.polled, toasts_receive _ h.consistent] at hu
    rcases List.mem_append.mp hu with hold | hnew
    · obtain ⟨poll, hpoll, hlists⟩ := h.listed u hold
      exact ⟨poll, List.mem_cons_of_mem _ hpoll, hlists⟩
    · exact ⟨_, List.mem_cons_self, (h.mem_fresh.mp hnew).1⟩
  told poll hpoll u hlists := by
    rw [World.polled, toasts_receive _ h.consistent]
    have hkept : ∀ poll ∈ w.polls, poll.Lists u →
        (∃ first ∈ (Poll.mk w.backend.shared data :: w.polls).getLast?, first.Knows u) ∨
          u ∈ w.provider.toasts.map Toast.about ++
            (w.provider.freshlyArrived data).map requestUuid := fun poll hpoll hlists => by
      have hlast : (Poll.mk w.backend.shared data :: w.polls).getLast? = w.polls.getLast? :=
        List.getLast?_cons_of_ne_nil (List.ne_nil_of_mem hpoll)
      rw [hlast]
      exact (h.told poll hpoll u hlists).imp_right fun hold => List.mem_append_left _ hold
    rcases List.mem_cons.mp hpoll with rfl | hpoll
    · cases hpolls : w.polls with
      | nil =>
        obtain ⟨id, r, hr, hu, -⟩ := hnewest.pending hlists
        exact Or.inl ⟨_, rfl, id, r, hr, hu⟩
      | cons earlier older =>
        by_cases hearlier : earlier.Lists u
        · rw [← hpolls]
          exact hkept earlier (hpolls ▸ List.mem_cons_self) hearlier
        · refine Or.inr (List.mem_append_right _ (h.mem_fresh.mpr ⟨hlists, earlier, ?_, hearlier⟩))
          rw [hpolls]
          rfl
    · exact hkept poll hpoll hlists

/-- Every step keeps it. -/
theorem World.Sound.step (h : w.Sound deployment) (hstep : World.Step deployment w w') :
    w'.Sound deployment := by
  cases hstep with
  | serve hserve =>
    obtain ⟨hgood, hevolves⟩ := (valid deployment).step h.good hserve
    exact { h with
      good := hgood
      taken := fun poll hpoll =>
        ⟨(h.taken poll hpoll).1, (h.taken poll hpoll).2.trans hevolves⟩ }
  | elapse helapse hquiet =>
    obtain ⟨htoasts, hseen⟩ := step_quiet helapse hquiet
    exact { h with
      consistent := h.consistent.step helapse
      seen := hseen.trans h.seen
      listed := by rw [htoasts]; exact h.listed
      told := by rw [htoasts]; exact h.told }
  | poll hnewest => exact h.polled hnewest

/-- A request that an answer lists, or that existed when the first was taken, existed when the latest
was taken. -/
theorem World.Sound.known {earlier : Poll} {older : List Poll} (h : w.Sound deployment)
    (hpolls : w.polls = earlier :: older)
    (hu : (∃ poll ∈ w.polls, poll.Lists u) ∨ ∃ first ∈ w.polls.getLast?, first.Knows u) :
    earlier.Knows u := by
  have hlater : ∀ poll ∈ w.polls, poll.Knows u → earlier.Knows u := by
    rintro poll hpoll ⟨id, r, hr, rfl⟩
    rw [hpolls] at hpoll
    rcases List.mem_cons.mp hpoll with rfl | hpoll
    · exact ⟨id, r, hr, rfl⟩
    · have hordered := h.ordered
      rw [hpolls] at hordered
      obtain ⟨r', hr', hdecides⟩ := ((List.pairwise_cons.mp hordered).1 poll hpoll).request id r hr
      exact ⟨id, r', hr', hdecides.requestUuid⟩
  rcases hu with ⟨poll, hpoll, hlists⟩ | ⟨first, hfirst, hknows⟩
  · obtain ⟨id, r, hr, hu, -⟩ := (h.taken poll hpoll).1.pending hlists
    exact hlater poll hpoll ⟨id, r, hr, hu⟩
  · exact hlater first (List.mem_of_getLast? hfirst) hknows

/-- A poll keeps that requests are announced once exactly if no request returns at it. -/
theorem World.Sound.announced_polled {earlier : Poll} {older : List Poll} (h : w.Sound deployment)
    (hpolls : w.polls = earlier :: older) (hnewest : Newest w.backend.shared data) :
    (w.polled data).Announced ↔
      w.Announced ∧ ∀ u, ¬ Returns u ⟨w.backend.shared, data⟩ earlier older := by
  have htoasts := toasts_receive data h.consistent
  have hlast : (w.polled data).polls.getLast? = w.polls.getLast? :=
    List.getLast?_cons_of_ne_nil (hpolls ▸ List.cons_ne_nil _ _)
  have hfresh : ∀ u, u ∈ (w.provider.freshlyArrived data).map requestUuid ↔
      u ∈ idsOf data.items ∧ ¬ earlier.Lists u := fun u => by
    rw [h.mem_fresh, hpolls]
    simp
  constructor
  · rintro ⟨honce, hnew⟩
    rw [World.polled, htoasts] at honce
    rw [hlast] at hnew
    simp only [World.polled, htoasts] at hnew
    obtain ⟨hold, -, hdisjoint⟩ := List.nodup_append.mp honce
    refine ⟨⟨hold, fun first hfirst u hknows hu =>
      hnew first hfirst u hknows (List.mem_append_left _ hu)⟩, ?_⟩
    rintro u ⟨hlists, ⟨-, hcrowded⟩, hbefore⟩
    have hmem : u ∈ (w.provider.freshlyArrived data).map requestUuid :=
      (hfresh u).mpr ⟨hlists, hcrowded⟩
    have hunknown : ¬ ∃ first ∈ w.polls.getLast?, first.Knows u := by
      rintro ⟨first, hfirst, hknows⟩
      exact hnew first hfirst u hknows (List.mem_append_right _ hmem)
    rcases hbefore with ⟨poll, hpoll, hlisted⟩ | hknown
    · have htold := h.told poll (hpolls ▸ List.mem_cons_of_mem _ hpoll) u hlisted
      exact hdisjoint u (htold.resolve_left hunknown) u hmem rfl
    · exact hunknown (hpolls ▸ hknown)
  · rintro ⟨⟨honce, hnew⟩, hreturns⟩
    -- a request that is announced and was known is crowded out of the answer before
    have hcrowded : ∀ u ∈ (w.provider.freshlyArrived data).map requestUuid, ∀ _ : earlier.Knows u,
        earlier.CrowdsOut u := fun u hu hknows => by
      obtain ⟨hlists, hunseen⟩ := (hfresh u).mp hu
      have hevolves := (h.taken earlier (hpolls ▸ List.mem_cons_self)).2
      exact ⟨pending_before h.good.inv hevolves hknows (hnewest.pending hlists), hunseen⟩
    refine ⟨?_, ?_⟩
    · rw [World.polled, htoasts]
      refine List.nodup_append.mpr ⟨honce, ?_, ?_⟩
      · exact (hnewest.nodup h.good.inv).sublist (List.Sublist.map _ (by
          rw [Provider.freshlyArrived]
          split
          · exact List.nil_sublist _
          · exact List.filter_sublist))
      · rintro u hold _ hmem rfl
        obtain ⟨poll, hpoll, hlisted⟩ := h.listed u hold
        obtain ⟨hlists, hunseen⟩ := (hfresh u).mp hmem
        refine hreturns u ⟨hlists, hcrowded u hmem (h.known hpolls (Or.inl ⟨poll, hpoll, hlisted⟩)),
          Or.inl ⟨poll, ?_, hlisted⟩⟩
        rcases List.mem_cons.mp (hpolls ▸ hpoll) with rfl | hpoll
        · exact absurd hlisted hunseen
        · exact hpoll
    · rw [hlast]
      intro first hfirst u hknows hu
      rw [World.polled, htoasts] at hu
      rcases List.mem_append.mp hu with hold | hmem
      · exact hnew first hfirst u hknows hold
      · have hknown : ∃ first ∈ w.polls.getLast?, first.Knows u := ⟨first, hfirst, hknows⟩
        exact hreturns u ⟨((hfresh u).mp hmem).1, hcrowded u hmem (h.known hpolls (Or.inr hknown)),
          Or.inr (hpolls ▸ hknown)⟩

/-- The first poll announces nothing. -/
theorem World.Sound.announced_first (h : w.Sound deployment) (hpolls : w.polls = []) :
    (w.polled data).Announced := by
  have hnone : (w.polled data).provider.toasts.map Toast.about = [] := by
    rw [World.polled, toasts_receive _ h.consistent,
      freshlyArrived_first (by rw [h.seen, hpolls]; rfl), List.map_nil, List.append_nil]
    refine List.eq_nil_iff_forall_not_mem.mpr fun u hu => ?_
    obtain ⟨poll, hpoll, -⟩ := h.listed u hu
    rw [hpolls] at hpoll
    contradiction
  constructor
  · rw [hnone]
    exact .nil
  · intro first _ u _ hu
    rw [hnone] at hu
    contradiction

/-- Every reachable world is sound, and requests are announced once exactly if none resurfaces. -/
theorem World.Reachable.spec (h : w.Reachable deployment) :
    w.Sound deployment ∧ (w.Announced ↔ ∀ u, ¬ Resurfaces u w.polls) := by
  obtain ⟨s, hinv, hsteps⟩ := h
  induction hsteps with
  | refl =>
    refine ⟨⟨Discipline.good_init hinv, consistent_mounted, rfl, ?_, ?_, .nil, ?_, ?_⟩, ?_⟩
    · exact fun _ h => by contradiction
    · exact fun _ h => by contradiction
    · exact fun _ h => by contradiction
    · exact fun _ h => by contradiction
    · exact ⟨fun _ _ h => h, fun _ => ⟨.nil, fun _ h => by contradiction⟩⟩
  | @tail w w' _ hstep ih =>
    obtain ⟨hsound, hiff⟩ := ih
    refine ⟨hsound.step hstep, ?_⟩
    cases hstep with
    | serve => exact ⟨fun h => hiff.mp ⟨h.once, h.fresh⟩, fun h =>
        ⟨(hiff.mpr h).once, (hiff.mpr h).fresh⟩⟩
    | elapse helapse hquiet =>
      obtain ⟨htoasts, -⟩ := step_quiet helapse hquiet
      rw [← hiff]
      constructor
      · rintro ⟨honce, hfresh⟩
        exact ⟨htoasts ▸ honce, htoasts ▸ hfresh⟩
      · rintro ⟨honce, hfresh⟩
        exact ⟨htoasts.symm ▸ honce, htoasts.symm ▸ hfresh⟩
    | @poll data hnewest =>
      change (w.polled data).Announced ↔ ∀ u, ¬ Resurfaces u (⟨w.backend.shared, data⟩ :: w.polls)
      obtain hpolls | ⟨earlier, older, hpolls⟩ :
          w.polls = [] ∨ ∃ earlier older, w.polls = earlier :: older := by
        cases w.polls <;> simp
      · rw [hpolls]
        exact ⟨fun _ _ h => h, fun _ => hsound.announced_first hpolls⟩
      · rw [hsound.announced_polled hpolls hnewest, hiff, hpolls]
        simp only [Resurfaces, not_or, forall_and]
        exact and_comm

/-- Nothing is crowded out of an answer while at most a hundred requests are pending. -/
theorem Newest.not_crowdsOut {poll : Poll} (h : Newest poll.taken poll.data)
    (hinv : Inv deployment poll.taken) (hshort : (pendingRequests poll.taken).length ≤ 100) :
    ¬ poll.CrowdsOut u := by
  rintro ⟨⟨id, r, hr, rfl, hpending⟩, hcrowded⟩
  obtain ⟨l, harranged, hitems⟩ := h
  have hid : id < poll.taken.nextId .elevationRequests := by
    by_contra hge
    have hnone := (hinv.fresh ⟨.elevationRequests, id⟩ (Nat.le_of_not_lt hge)).1
    rw [State.request, State.com, hnone] at hr
    contradiction
  have hmem : r ∈ pendingRequests poll.taken :=
    List.mem_filter.mpr ⟨List.mem_filterMap.mpr ⟨id, List.mem_range.mpr hid, hr⟩,
      decide_eq_true hpending⟩
  rw [List.take_of_length_le (harranged.perm.length_eq ▸ hshort)] at hitems
  rw [← harranged.perm.mem_iff, ← hitems] at hmem
  obtain ⟨item, hitem, rfl⟩ := List.mem_map.mp hmem
  exact hcrowded (mem_idsOf.mpr ⟨item, hitem, rfl⟩)

/-- So requests are announced once while the queue is never longer than an answer. -/
theorem World.Reachable.announced_of_short (h : w.Reachable deployment)
    (hshort : ∀ poll ∈ w.polls, (pendingRequests poll.taken).length ≤ 100) : w.Announced := by
  obtain ⟨hsound, hiff⟩ := h.spec
  have hcrowded : ∀ poll ∈ w.polls, ∀ u, ¬ poll.CrowdsOut u := fun poll hpoll _ =>
    (hsound.taken poll hpoll).1.not_crowdsOut (hsound.inv poll hpoll) (hshort poll hpoll)
  refine hiff.mpr fun u => ?_
  clear hiff
  revert hcrowded
  induction w.polls with
  | nil => exact fun _ h => h
  | cons later polls ih =>
    intro hcrowded hresurfaces
    match polls, ih, hcrowded, hresurfaces with
    | earlier :: older, ih, hcrowded, .inl hreturns =>
      exact hcrowded earlier (List.mem_cons_of_mem _ List.mem_cons_self) u hreturns.2.1
    | earlier :: older, ih, hcrowded, .inr hrest =>
      exact ih (fun poll hpoll => hcrowded poll (List.mem_cons_of_mem _ hpoll)) hrest

/-- In every run of the provider and the backend, each new request is announced at most once and no
request that existed before the first answer is, if and only if no request that is crowded out of an
answer resurfaces. -/
theorem announced_once_iff (h : w.Reachable deployment) :
    w.Announced ↔ ∀ u, ¬ Resurfaces u w.polls := h.spec.2

end Runs

namespace Sample

open Backend.Sample

/-- A database with a hundred and one pending requests. -/
def queue : State :=
  { database with
    db :=
      { committed := fun
          | ⟨.elevationRequests, id⟩ =>
            if h : id < 101 then some ⟨request ⟨id, by omega⟩, rfl⟩ else none
          | k => database.db.committed k
        dirty := fun _ => none }
    nextId := Function.update database.nextId .elevationRequests 101 }

/-- The requests from one number down to another. -/
def down (high low : Fin 256) : List (Fin 256) :=
  (List.range (high + 1 - low)).map fun n => high - number n

/-- The steps in which the newest request is denied. -/
def denial : List (Label Sid Choice Backend.Event Call) :=
  [.spawn 1 (.denyElevationRequest 100 none (some "token")), .perform 1 .unit,
    .perform 1 (order 101 0 0), .perform 1 (order 101 0 0), .perform 1 .unit, .perform 1 .unit,
    .perform 1 .unit, .perform 1 .unit, .perform 1 .unit]

/-- Steps of the backend are steps of the world. -/
theorem serves {deployment : Deployment} {w : World} {labels : List (Label Sid Choice Backend.Event Call)}
    {c : Config Op Res PyError Answer Sid Call State}
    (hrun : (system deployment).run labels w.backend = some c) :
    ReflTransGen (World.Step deployment) w { w with backend := c } := by
  induction labels generalizing w with
  | nil =>
    obtain rfl := Option.some.inj hrun
    exact .refl
  | cons label labels ih =>
    obtain ⟨mid, hstep, hrest⟩ := Option.bind_eq_some_iff.mp hrun
    exact .head (.serve hstep) (ih (w := { w with backend := mid }) hrest)

/-- The requests differ. -/
theorem uuid_injective : Function.Injective uuid := by
  intro n m h
  have hdigits := congrArg Uuid.digits h
  simp only [uuid, List.cons_append, List.cons.injEq, Fin.mk.injEq] at hdigits
  omega

/-- The requests of the queue. -/
theorem request_of_queue {id : Nat} {r : ElevationRequest} (hr : queue.request id = some r) :
    ∃ n : Fin 256, n = id ∧ n < 101 ∧ r = request n := by
  change ((if h : id < 101 then some ⟨request ⟨id, by omega⟩, rfl⟩ else none :
    Option (Row ⟨.elevationRequests, id⟩)).map Row.record) = some r at hr
  split at hr
  · next hid => exact ⟨⟨id, by omega⟩, rfl, hid, (Option.some.inj hr).symm⟩
  · contradiction

/-- The queue satisfies the backend's invariant. -/
theorem queue_inv : Inv deployment queue := by
  have happroval : ∀ id, queue.approval id = none := fun _ => rfl
  have hown : ∀ j t id, queue.own j t id = none := fun _ _ _ => rfl
  constructor
  · exact fun _ _ h => by contradiction
  · rintro ⟨t, id⟩ hid
    by_cases ht : t = .elevationRequests
    · subst ht
      exact ⟨dif_neg (Nat.not_lt.mpr hid), rfl⟩
    · have hbound : database.nextId t ≤ id := by simpa [queue, ht] using hid
      have hnone : queue.db.committed ⟨t, id⟩ = database.db.committed ⟨t, id⟩ := by
        cases t <;> first | rfl | contradiction
      exact ⟨hnone.trans (database_initial.bounded ⟨t, id⟩ hbound), rfl⟩
  · rintro t (rfl | rfl) id id' r r' hne (hr | ⟨j, hr⟩) (hr' | ⟨j', hr'⟩)
    · obtain ⟨n, rfl, -, rfl⟩ := request_of_queue hr
      obtain ⟨m, rfl, -, rfl⟩ := request_of_queue hr'
      refine decide_eq_false fun heq => hne ?_
      rw [uuid_injective heq]
    all_goals contradiction
  · intro t _ id j r r' _ hr'
    rw [hown] at hr'
    contradiction
  · constructor
    · intro id r hr
      obtain ⟨n, -, -, rfl⟩ := request_of_queue hr
      exact ⟨fun h => by contradiction, fun h => absurd rfl h⟩
    · intro id r hr hstatus
      obtain ⟨n, -, -, rfl⟩ := request_of_queue hr
      contradiction
    · intro aid a ha
      rw [happroval] at ha
      contradiction
    · intro aid aid' a a' ha
      rw [happroval] at ha
      contradiction
  · exact fun _ _ h => by contradiction

/-- The requests below a number, as the database lists them. -/
def below (n : Nat) : List ElevationRequest := ((List.range n).map number).map request

/-- A list of numbers that is an answer. -/
theorem newest_answer {s : State} {numbers : List (Fin 256)} (high : Fin 256)
    (hperm : (down high 0).Perm ((List.range (high + 1)).map number))
    (hpending : pendingRequests s = below (high + 1))
    (hsorted : ((down high 0).map request).Pairwise fun r r' =>
      r'.requestedAt.micros ≤ r.requestedAt.micros)
    (htake : (answer numbers).items.map ElevationRequestRead.request =
      ((down high 0).map request).take 100) : Newest s (answer numbers) :=
  ⟨_, ⟨hpending ▸ hperm.map request, hsorted⟩, htake⟩

/-- The newest hundred requests of the queue. -/
theorem newest_queue : Newest queue (answer (down 100 1)) :=
  newest_answer 100 (by decide +kernel) (by decide +kernel) (by decide +kernel) (by decide +kernel)

/-- The newest hundred requests are listed, the newest is denied, and the oldest is listed in its
place. -/
theorem exists_flooded : ∃ w : World, w.Reachable deployment ∧
    w.polls.getLast? = some ⟨queue, answer (down 100 1)⟩ ∧
      uuid 0 ∈ w.provider.toasts.map Toast.about := by
  have hdenial : ((system deployment).run denial (System.init queue)).map (fun c =>
      decide (pendingRequests c.shared = below 100)) = some true := by
    decide +kernel
  obtain ⟨c, hrun, hpending⟩ := Option.map_eq_some_iff.mp hdenial
  have hsecond : Newest c.shared (answer (down 99 0)) :=
    newest_answer 99 (by decide +kernel) (of_decide_eq_true hpending) (by decide +kernel)
      (by decide +kernel)
  have htoasts : ((Provider.mounted.receive (answer (down 100 1))).receive
      (answer (down 99 0))).toasts.map Toast.about = [uuid 0] := by
    decide +kernel
  refine ⟨⟨c, (Provider.mounted.receive (answer (down 100 1))).receive (answer (down 99 0)),
    [⟨c.shared, answer (down 99 0)⟩, ⟨queue, answer (down 100 1)⟩]⟩, ⟨queue, queue_inv, ?_⟩, rfl, ?_⟩
  · refine .head (.poll newest_queue) (.tail (serves (w := ⟨System.init queue,
      Provider.mounted.receive (answer (down 100 1)), [⟨queue, answer (down 100 1)⟩]⟩) hrun) ?_)
    exact .poll hsecond
  · rw [htoasts]
    exact List.mem_singleton_self _

/-- The steps in which another request is submitted. -/
def arrival : List (Label Sid Choice Backend.Event Call) :=
  [.env (.advance (request (number 101)).requestedAt),
    .spawn 0 (.agentSubmitRequest (some (deviceUuid.textD ++ ".secret"))
      { body with requestId := uuid (number 101) } true),
    .perform 0 (order 101 0 0), .perform 0 .unit, .perform 0 .unit, .perform 0 .unit,
    .perform 0 .unit, .perform 0 .unit]

/-- The request that is submitted. -/
def arrived : ElevationRequest :=
  { request (number 101) with expiresAt := ⟨noon.micros + 3600000101, by decide⟩ }

/-- The answer that lists it first. -/
def grown : ElevationRequestList where
  items := ⟨arrived, deviceUuid, "workstation"⟩ :: (answer (down (number 100) (number 2))).items
  total := 102

/-- The newest hundred requests are listed, another one is submitted, and it is listed in the place of
one more of the old ones. -/
theorem exists_grown : ∃ w : World, w.Reachable deployment ∧
    (∃ s, w.polls = [⟨s, grown⟩, ⟨queue, answer (down 100 1)⟩]) ∧
      w.provider.toasts.map Toast.about = [uuid 101] := by
  have harrival : ((system deployment).run arrival (System.init queue)).map (fun c =>
      decide (pendingRequests c.shared = below 101 ++ [arrived])) = some true := by
    decide +kernel
  obtain ⟨c, hrun, hpending⟩ := Option.map_eq_some_iff.mp harrival
  have hnumbers : (down 100 0).Perm ((List.range 101).map number) := by
    decide +kernel
  have hperm : (arrived :: (down 100 0).map request).Perm (pendingRequests c.shared) := by
    rw [of_decide_eq_true hpending]
    exact ((hnumbers.map request).cons arrived).trans (List.perm_append_singleton _ _).symm
  have hsecond : Newest c.shared grown := ⟨_, ⟨hperm, by decide +kernel⟩, by decide +kernel⟩
  have htoasts : ((Provider.mounted.receive (answer (down 100 1))).receive grown).toasts.map
      Toast.about = [uuid 101] := by
    decide +kernel
  refine ⟨⟨c, (Provider.mounted.receive (answer (down 100 1))).receive grown,
    [⟨c.shared, grown⟩, ⟨queue, answer (down 100 1)⟩]⟩, ⟨queue, queue_inv, ?_⟩, ⟨c.shared, rfl⟩,
    htoasts⟩
  refine .head (.poll newest_queue) (.tail (serves (w := ⟨System.init queue,
    Provider.mounted.receive (answer (down 100 1)), [⟨queue, answer (down 100 1)⟩]⟩) hrun) ?_)
  exact .poll hsecond

end Sample

/-- A request arrives in a queue of a hundred and one: it is announced, and the old ones that the answers
have no room for stay out. -/
theorem announced_once_iff_sample : ∃ w : World, w.Reachable Backend.Sample.deployment ∧
    w.polls.getLast? = some ⟨Sample.queue, Sample.answer (Sample.down 100 1)⟩ ∧
      w.provider.toasts.map Toast.about = [Sample.uuid 101] ∧ w.Announced := by
  obtain ⟨w, hreachable, ⟨s, hpolls⟩, htoasts⟩ := Sample.exists_grown
  refine ⟨w, hreachable, by rw [hpolls]; rfl, htoasts,
    (announced_once_iff hreachable).mpr fun u hresurfaces => ?_⟩
  rw [hpolls] at hresurfaces
  obtain ⟨hlisted, ⟨⟨id, r, hr, rfl, -⟩, hcrowded⟩, -⟩ := hresurfaces.resolve_right id
  obtain ⟨n, rfl, hn, rfl⟩ := Sample.request_of_queue hr
  have hkept : Sample.down (Sample.number 100) (Sample.number 2) ⊆ Sample.down 100 1 := by
    decide +kernel
  have hitems : (Sample.answer (Sample.down (Sample.number 100) (Sample.number 2))).items ⊆
      (Sample.answer (Sample.down 100 1)).items :=
    List.map_subset _ hkept
  obtain ⟨item, hitem, heq⟩ := mem_idsOf.mp hlisted
  rcases List.mem_cons.mp hitem with rfl | hold
  · obtain rfl : Sample.number 101 = n := Sample.uuid_injective heq
    exact absurd hn (by decide)
  · exact hcrowded (mem_idsOf.mpr ⟨item, hitems hold, heq⟩)

/-- There the oldest request is announced, although it existed before the first answer. -/
theorem old_request_announced : ∃ w : World, w.Reachable Backend.Sample.deployment ∧ ¬ w.Announced := by
  obtain ⟨w, hreachable, hfirst, htoast⟩ := Sample.exists_flooded
  refine ⟨w, hreachable, fun hannounced => ?_⟩
  exact hannounced.fresh _ hfirst (Sample.uuid 0) ⟨0, Sample.request 0, rfl, rfl⟩ htoast

end ElevateGate.Dashboard
