import ElevateGate.Agent.Paths
import ElevateGate.Agent.SelfUpdate
import ElevateGate.Platform.Version

/-!
# Update checks

`UpdateCoordinator` asks for the latest release, compares the version that its tag names with that of
the running service, and applies a release that is newer. The service then stops, and starts again from
the executable that has been installed. Whatever is published in between, the versions that are applied
ascend.
-/

namespace ElevateGate.Agent.Updates

open Interaction Text SelfUpdate

/-- `GitHubRelease`. -/
structure GitHubRelease where
  tagName : String
  zipDownloadUrl : String
  deriving DecidableEq

/-- `JsonElement`, without the values that are never read. -/
inductive JsonElement
  | null
  | string (value : String)
  | array (elements : List JsonElement)
  | object (properties : List (String × JsonElement))
  | other

namespace JsonElement

/-- `TryGetProperty`: of several properties with one name the last counts. It throws unless the element
is an object. -/
def tryGetProperty (name : String) : JsonElement → Option (Option JsonElement)
  | .object properties => some ((properties.reverse.find? (·.1 == name)).map (·.2))
  | _ => none

/-- `GetString`, which throws unless the element is a string or null. -/
def getString : JsonElement → Option (Option String)
  | .string value => some (some value)
  | .null => some none
  | _ => none

/-- `EnumerateArray`, which throws unless the element is an array. -/
def enumerateArray : JsonElement → Option (List JsonElement)
  | .array elements => some elements
  | _ => none

/-- The text of a property that may be missing. -/
def text (name : String) (element : JsonElement) : Option (Option String) := do
  let property ← element.tryGetProperty name
  match property with
  | some value => value.getString
  | none => some none

end JsonElement

/-- A response of the release endpoint, and its content where that is JSON. -/
structure Response where
  isSuccessStatusCode : Bool
  content : Option JsonElement

section Model

variable (casing : Casing)

/-- `StartsWith` with `StringComparison.OrdinalIgnoreCase`. -/
def startsWith (s t : String) : Bool :=
  (t.toList.map casing.toUpperOrdinal).isPrefixOf (s.toList.map casing.toUpperOrdinal)

/-- `EndsWith` with `StringComparison.OrdinalIgnoreCase`. -/
def endsWith (s t : String) : Bool :=
  (t.toList.map casing.toUpperOrdinal).isSuffixOf (s.toList.map casing.toUpperOrdinal)

/-- The URL of an asset, if it is a package of the agent. -/
def packageUrl (asset : JsonElement) : Option (Option String) := do
  let name ← asset.text "name"
  match name with
  | none => some none
  | some name =>
    if startsWith casing name "ElevateGate-Agent-" && endsWith casing name "-win-x64.zip" then do
      let downloadUrl ← asset.text "browser_download_url"
      some (downloadUrl.filter fun url => !isWhiteSpace url)
    else some none

/-- The URL of the first package. -/
def findPackage : List JsonElement → Option (Option String)
  | [] => some none
  | asset :: rest => do
    let url ← packageUrl casing asset
    match url with
    | some url => some (some url)
    | none => findPackage rest

/-- The release that a response describes, or nothing where reading it throws. -/
def readRelease (response : Response) : Option (Option GitHubRelease) := do
  if response.isSuccessStatusCode then
    let root ← response.content
    let tagName ← root.text "tag_name"
    match tagName.filter fun tagName => !isWhiteSpace tagName with
    | none => some none
    | some tagName =>
      let assets ← root.tryGetProperty "assets"
      match assets with
      | none => some none
      | some assets =>
        let elements ← assets.enumerateArray
        let url ← findPackage casing elements
        some (url.map fun url => ⟨tagName, url⟩)
  else some none

/-- What `GetLatestReleaseAsync` makes of a response, or of none: whatever is thrown is swallowed. -/
def latestRelease (response : Option Response) : Option GitHubRelease :=
  (response.bind (readRelease casing)).join

/-- `TrimStart('v', 'V')`. -/
def trimStart (tagName : String) : String :=
  String.ofList (tagName.toList.dropWhile fun c => c == 'v' || c == 'V')

/-- `GitHubUpdateChecker.IsNewer`. -/
def isNewer (currentVersion : Version) (tagName : String) : Bool :=
  match Version.tryParse (trimStart tagName) with
  | some latest => latest.greaterThan currentVersion
  | none => false

/-- The operations of a check. -/
inductive Op
  /-- `_gate.WaitAsync(0)`: whether no other check is in progress. -/
  | wait
  /-- `_gate.Release`. -/
  | release
  /-- The version of the running assembly. -/
  | assemblyVersion
  /-- `HttpClient.SendAsync`. -/
  | send
  /-- An operation of `SelfUpdateApplier`. -/
  | apply (o : SelfUpdate.Op)
  | stopApplication

/-- The answer to an operation. -/
def Res : Op → Type
  | .wait => Except UpdateError Bool
  | .release => Unit
  | .assemblyVersion => Option Version
  | .send => Option Response
  | .apply o => SelfUpdate.Res o
  | .stopApplication => Unit

/-- The program of a check or of a part of it. -/
abbrev Coordinator (α : Type) := Program Op Res UpdateError α

/-- Perform an operation. -/
def op (o : Op) : Coordinator (Res o) := Program.op o

/-- `GetLatestReleaseAsync`. -/
def getLatestReleaseAsync : Coordinator (Option GitHubRelease) := do
  let response ← op .send
  return latestRelease casing response

/-- `ApplyAsync`. -/
def applyAsync : Coordinator Unit := SelfUpdate.applyAsync.lift .apply fun _ answer => answer

/-- `IHostApplicationLifetime.StopApplication`. -/
def stopApplication : Coordinator Unit := op .stopApplication

/-- What `CheckAndApplyAsync` does once it has entered. -/
def check : Coordinator Unit := do
  let version : Option Version ← op .assemblyVersion
  let currentVersion := version.getD Version.zero
  let release ← getLatestReleaseAsync casing
  match release with
  | none => return
  | some release =>
    if isNewer currentVersion release.tagName then
      applyAsync
      stopApplication
    else return

/-- `CheckAndApplyAsync`. -/
def checkAndApplyAsync : Coordinator Unit := do
  let answer : Except UpdateError Bool ← op .wait
  let entered ← Program.liftExcept answer
  if entered then
    (tryCatch (check casing) fun _ => pure ()).finally_ (op .release)
  else return

/-- The installation, the version of the running service, whether the service is stopping, and the
releases that have been applied so far, the latest first. -/
structure Service where
  host : SelfUpdate.Host
  running : Option Version
  stopping : Bool
  applied : List GitHubRelease

/-- What a check meets: whether it may enter, the response that it gets, and the conditions for an
update. -/
structure Check where
  entered : Except UpdateError Bool
  response : Option Response
  conditions : Conditions

/-- Perform an operation of a check. -/
def perform (met : Check) : (o : Op) → Service → Option (Res o × Service)
  | .wait, s => some (met.entered, s)
  | .release, s => some ((), s)
  | .assemblyVersion, s => some (s.running, s)
  | .send, s => some (met.response, s)
  | .apply o, s =>
    (SelfUpdate.perform met.conditions o s.host).map fun answer =>
      (answer.1, { s with host := answer.2 })
  | .stopApplication, s => some ((), { s with stopping := true })

variable (versionOf : List UInt8 → Option Version)

/-- A service that stops after it has applied a release is started again from the executable that is
installed then. -/
def Service.restart (met : Check) (s : Service) : Service :=
  if s.stopping then
    { s with
      running := (s.host.file (.installed .service)).bind versionOf
      stopping := false
      applied := (latestRelease casing met.response).toList ++ s.applied }
  else s

/-- A check, and the restart that follows it where it has applied a release. -/
def Service.next (met : Check) (s : Service) : Option Service :=
  ((checkAndApplyAsync casing).execute (perform met) s).map fun outcome =>
    outcome.2.restart casing versionOf met

/-- One check after the other. -/
def Service.run : List Check → Service → Option Service
  | [], s => some s
  | met :: rest, s => (s.next casing versionOf met).bind (Service.run rest)

/-- The version that a tag names, if it names one. -/
def GitHubRelease.version (release : GitHubRelease) : Option Version :=
  (Version.tryParse (trimStart release.tagName)).map Version.padded

/-- One release's version is less than another's. -/
def GitHubRelease.Precedes (earlier later : GitHubRelease) : Prop :=
  ∃ v w, earlier.version = some v ∧ later.version = some w ∧ v.components < w.components

/-- The package of the release that a check is offered carries the version that the tag names. -/
def Check.Carries (met : Check) : Prop :=
  ∀ release, latestRelease casing met.response = some release → ∃ content,
    met.conditions.package .service = some content ∧ versionOf content = release.version

end Model

/-- A release is newer exactly where its tag names a version whose components, with zeros for those that
are missing, are lexicographically greater. -/
theorem isNewer_iff {currentVersion : Version} (h : currentVersion.Full) (tagName : String) :
    isNewer currentVersion tagName = true ↔ ∃ latest,
      Version.tryParse (trimStart tagName) = some latest ∧
        currentVersion.components < latest.padded.components := by
  unfold isNewer
  cases Version.tryParse (trimStart tagName) with
  | none => simp
  | some latest =>
    change latest.greaterThan currentVersion = true ↔ _
    rw [Version.greaterThan_iff, h.lt_padded_iff]
    exact ⟨fun hlt => ⟨latest, rfl, hlt⟩, fun ⟨_, heq, hlt⟩ => Option.some.inj heq ▸ hlt⟩

example : isNewer Version.zero "vV1.0" = true ∧ isNewer Version.zero "v0.0" = false ∧
    isNewer Version.zero "not-a-version" = false := by
  decide +kernel

section Steps

variable {casing : Casing} {versionOf : List UInt8 → Option Version} {met : Check} {s : Service}

/-- An update that returns has installed the service that the release contains, and touches nothing but
the installation. -/
theorem execute_applyAsync (met : Check) (s : Service) :
    ∃ result host, applyAsync.execute (perform met) s = some (result, { s with host := host }) ∧
      ∀ content, met.conditions.package .service = some content → result = .ok () →
        host.file (.installed .service) = some content := by
  obtain ⟨result, host, hexecute, hinstalled⟩ := applyAsync_installs met.conditions s.host
  refine ⟨result, host, ?_, hinstalled⟩
  have hlift : applyAsync.execute (perform met) s =
      (SelfUpdate.applyAsync.execute (SelfUpdate.perform met.conditions) s.host).map
        fun outcome => (outcome.1, { s with host := outcome.2 }) :=
    Program.execute_lift Service.host (fun host s => { s with host := host })
      (fun _ _ => Option.map_map _ _ _) (fun _ _ => rfl) (fun _ _ _ => rfl) (fun _ => rfl) _ s
  rw [hlift, hexecute]
  rfl

/-- What a check comes to once it has entered: nothing has changed but the installation, or a newer
release has been applied and the service stops. -/
theorem execute_check (casing : Casing) (met : Check) (s : Service) :
    ∃ result s', (check casing).execute (perform met) s = some (result, s') ∧
      s'.running = s.running ∧ s'.applied = s.applied ∧
      (s'.stopping = s.stopping ∨
        ∃ release, latestRelease casing met.response = some release ∧
          isNewer (s.running.getD Version.zero) release.tagName = true ∧
          ∀ content, met.conditions.package .service = some content →
            s'.host.file (.installed .service) = some content) := by
  have hcheck : (check casing).execute (perform met) s =
      (match latestRelease casing met.response with
        | none => pure ()
        | some release =>
          if isNewer (s.running.getD Version.zero) release.tagName then
            applyAsync >>= fun _ => stopApplication
          else pure () : Coordinator Unit).execute (perform met) s := rfl
  rw [hcheck]
  cases hrelease : latestRelease casing met.response with
  | none => exact ⟨_, s, rfl, rfl, rfl, Or.inl rfl⟩
  | some release =>
    by_cases hnewer : isNewer (s.running.getD Version.zero) release.tagName = true
    · obtain ⟨result, host, happly, hinstalled⟩ := execute_applyAsync met s
      simp only [if_pos hnewer]
      rw [Program.execute_bind, happly, Option.bind_some]
      cases result with
      | error error => exact ⟨_, _, rfl, rfl, rfl, Or.inl rfl⟩
      | ok _ =>
        exact ⟨_, _, rfl, rfl, rfl, Or.inr ⟨release, rfl, hnewer,
          fun content hcontent => hinstalled content hcontent rfl⟩⟩
    · simp only [if_neg hnewer]
      exact ⟨_, s, rfl, rfl, rfl, Or.inl rfl⟩

/-- A check of a service that is not stopping ends, and either leaves the version that runs or has
applied a newer release, which runs from then on. -/
theorem Service.exists_next (casing : Casing) (versionOf : List UInt8 → Option Version) (met : Check)
    (hstopping : s.stopping = false) :
    ∃ s', s.next casing versionOf met = some s' ∧ s'.stopping = false ∧
      (s'.running = s.running ∧ s'.applied = s.applied ∨
        ∃ release, latestRelease casing met.response = some release ∧
          isNewer (s.running.getD Version.zero) release.tagName = true ∧
          s'.applied = release :: s.applied ∧
          ∀ content, met.conditions.package .service = some content →
            s'.running = versionOf content) := by
  have hsame : s.restart casing versionOf met = s := by
    rw [Service.restart, hstopping]
    rfl
  unfold Service.next
  cases hentered : met.entered with
  | error error =>
    have hexecute : (checkAndApplyAsync casing).execute (perform met) s = some (.error error, s) := by
      change (Program.liftExcept met.entered >>= _ : Coordinator Unit).execute (perform met) s = _
      rw [hentered]
      rfl
    rw [hexecute, Option.map_some, hsame]
    exact ⟨s, rfl, hstopping, Or.inl ⟨rfl, rfl⟩⟩
  | ok entered =>
    cases entered with
    | false =>
      have hexecute : (checkAndApplyAsync casing).execute (perform met) s = some (.ok (), s) := by
        change (Program.liftExcept met.entered >>= _ : Coordinator Unit).execute (perform met) s = _
        rw [hentered]
        rfl
      rw [hexecute, Option.map_some, hsame]
      exact ⟨s, rfl, hstopping, Or.inl ⟨rfl, rfl⟩⟩
    | true =>
      obtain ⟨result, s', hcheck, hrunning, happlied, hcases⟩ := execute_check casing met s
      have hexecute : (checkAndApplyAsync casing).execute (perform met) s = some (.ok (), s') := by
        change (Program.liftExcept met.entered >>= _ : Coordinator Unit).execute (perform met) s = _
        rw [hentered]
        refine (Program.execute_finally (perform met) _ (op .release) s).trans ?_
        refine (congrArg (fun outcome => Option.bind outcome _)
          (Program.execute_tryCatch (perform met) (check casing) (fun _ => pure ()) s)).trans ?_
        rw [hcheck]
        cases result <;> rfl
      rw [hexecute, Option.map_some]
      refine ⟨_, rfl, ?_⟩
      unfold Service.restart
      rcases hcases with hstay | ⟨release, hrelease, hnewer, hinstalled⟩
      · rw [hstay, hstopping, if_neg Bool.false_ne_true]
        exact ⟨hstay.trans hstopping, Or.inl ⟨hrunning, happlied⟩⟩
      · cases hstop : s'.stopping with
        | false => exact ⟨hstop, Or.inl ⟨hrunning, happlied⟩⟩
        | true =>
          refine ⟨rfl, Or.inr ⟨release, hrelease, hnewer, ?_, fun content hcontent => ?_⟩⟩
          · rw [if_pos rfl, hrelease, happlied]
            rfl
          · rw [if_pos rfl]
            change (s'.host.file (.installed .service)).bind versionOf = _
            rw [hinstalled content hcontent]
            rfl

end Steps

section Runs

variable {casing : Casing} {versionOf : List UInt8 → Option Version} {met : Check} {s s' : Service}

/-- What holds between checks: all that was applied ascends to the version that runs. -/
structure Ascending (s : Service) : Prop where
  stopping : s.stopping = false
  reached : ∃ v, s.running = some v ∧ v.Full ∧
    ∀ release ∈ s.applied, ∃ w, release.version = some w ∧ w.components ≤ v.components
  sorted : s.applied.Pairwise fun later earlier => earlier.Precedes later

/-- No release precedes itself. -/
theorem GitHubRelease.Precedes.ne {earlier later : GitHubRelease} (h : earlier.Precedes later) :
    later ≠ earlier := by
  rintro rfl
  obtain ⟨v, w, hv, hw, hlt⟩ := h
  obtain rfl := Option.some.inj (hv.symm.trans hw)
  exact lt_irrefl _ hlt

/-- A check keeps what was applied ascending. -/
theorem Ascending.next (h : Ascending s) (hnext : s.next casing versionOf met = some s')
    (hcarries : s'.applied ≠ s.applied → met.Carries casing versionOf) : Ascending s' := by
  obtain ⟨s'', hnext', hstopping, hcases⟩ :=
    Service.exists_next casing versionOf met h.stopping
  obtain rfl := Option.some.inj (hnext'.symm.trans hnext)
  obtain ⟨v, hv, hfull, hbelow⟩ := h.reached
  rcases hcases with ⟨hrunning, happlied⟩ | ⟨release, hrelease, hnewer, happlied, hrunning⟩
  · exact ⟨hstopping, ⟨v, hrunning.trans hv, hfull, happlied ▸ hbelow⟩, happlied ▸ h.sorted⟩
  · rw [hv, Option.getD_some, isNewer_iff hfull] at hnewer
    obtain ⟨latest, hparse, hlt⟩ := hnewer
    have hversion : release.version = some latest.padded := by
      rw [GitHubRelease.version, hparse]
      rfl
    obtain ⟨content, hcontent, hof⟩ := hcarries (by simp [happlied]) release hrelease
    have hreached : s''.running = some latest.padded := by
      rw [hrunning content hcontent, hof, hversion]
    refine ⟨hstopping, ⟨latest.padded, hreached, latest.full_padded, fun other hother => ?_⟩, ?_⟩
    · rw [happlied] at hother
      rcases List.mem_cons.mp hother with rfl | hother
      · exact ⟨latest.padded, hversion, le_refl _⟩
      · obtain ⟨w, hw, hle⟩ := hbelow other hother
        exact ⟨w, hw, (hle.trans_lt hlt).le⟩
    · rw [happlied]
      refine List.pairwise_cons.mpr ⟨fun other hother => ?_, h.sorted⟩
      obtain ⟨w, hw, hle⟩ := hbelow other hother
      exact ⟨w, latest.padded, hw, hversion, hle.trans_lt hlt⟩

/-- So does a run. -/
theorem Ascending.run {checks : List Check} (h : Ascending s)
    (hcarries : ∀ first met rest b b', checks = first ++ met :: rest →
      s.run casing versionOf first = some b → b.next casing versionOf met = some b' →
      b'.applied ≠ b.applied → met.Carries casing versionOf) :
    ∃ s', s.run casing versionOf checks = some s' ∧ Ascending s' := by
  induction checks generalizing s with
  | nil => exact ⟨s, rfl, h⟩
  | cons met rest ih =>
    obtain ⟨s', hnext, -⟩ :=
      Service.exists_next casing versionOf met h.stopping
    have hascending := h.next hnext fun hne => hcarries [] met rest s s' rfl rfl hnext hne
    obtain ⟨s'', hrun, hdone⟩ := ih hascending fun first met' rest' b b' heq hfirst =>
      hcarries (met :: first) met' rest' b b' (by rw [heq]; rfl)
        (by rw [Service.run, hnext]; exact hfirst)
    exact ⟨s'', by rw [Service.run, hnext]; exact hrun, hdone⟩

/-- A release is newer exactly where its tag names a lexicographically greater version, and whatever is
published between the checks, the versions that are applied ascend and no release is applied twice. -/
theorem updates_ascend (casing : Casing) (versionOf : List UInt8 → Option Version) :
    (∀ (currentVersion : Version) (tagName : String), currentVersion.Full →
      (isNewer currentVersion tagName = true ↔ ∃ latest,
        Version.tryParse (trimStart tagName) = some latest ∧
          currentVersion.components < latest.padded.components)) ∧
    ∀ (s : Service) (v : Version) (checks : List Check), s.running = some v → v.Full →
      s.stopping = false → s.applied = [] →
      (∀ first met rest b b', checks = first ++ met :: rest →
        s.run casing versionOf first = some b → b.next casing versionOf met = some b' →
        b'.applied ≠ b.applied → met.Carries casing versionOf) →
      ∃ s', s.run casing versionOf checks = some s' ∧
        (s'.applied.Pairwise fun later earlier => earlier.Precedes later) ∧ s'.applied.Nodup := by
  refine ⟨fun currentVersion tagName hfull => isNewer_iff hfull tagName, ?_⟩
  intro s v checks hrunning hfull hstopping happlied hcarries
  have hstart : Ascending s :=
    ⟨hstopping, ⟨v, hrunning, hfull, by simp [happlied]⟩, by simp [happlied]⟩
  obtain ⟨s', hrun, hascending⟩ := hstart.run hcarries
  exact ⟨s', hrun, hascending.sorted, hascending.sorted.imp fun h => h.ne⟩

end Runs

namespace Sample

/-- The content of an executable lists the components of its version. -/
def versionOf (content : List UInt8) : Option Version :=
  Version.ofParts (content.map fun b => ⟨b.toNat, b.toNat_lt.trans (by decide)⟩)

/-- Version 1.0.4.0, installed and running. -/
def service : Service where
  host := ⟨fun
    | .installed _ => some [1, 0, 4, 0]
    | _ => none, fun _ => false, []⟩
  running := versionOf [1, 0, 4, 0]
  stopping := false
  applied := []

/-- A release with one package. -/
def response (tagName : String) : Response where
  isSuccessStatusCode := true
  content := some (.object
    [("tag_name", .string tagName),
      ("assets", .array
        [.object [("name", .string "checksums.txt")],
          .object
            [("name", .string "elevategate-agent-win-x64.zip"),
              ("browser_download_url", .string "https://example.test/agent.zip")]])])

/-- A check that nothing hinders. -/
def offer (tagName : String) (content : List UInt8) : Check where
  entered := .ok true
  response := some (response tagName)
  conditions := ⟨fun _ => some content, .ok (), fun _ => none, .ok (), .ok ()⟩

/-- An older release, a newer one, and the newer one again under two tags. -/
def checks : List Check :=
  [offer "v1.0" [1, 0, 0, 0], offer "v1.1" [1, 1, 0, 0], offer "V1.1.0.0" [1, 1, 0, 0],
    offer "v1.1" [1, 1, 0, 0]]

/-- The release that an offer describes. -/
def release (tagName : String) : GitHubRelease := ⟨tagName, "https://example.test/agent.zip"⟩

theorem offer_carries {tagName : String} {content : List UInt8}
    (hlatest : latestRelease .ascii (some (response tagName)) = some (release tagName))
    (hversion : versionOf content = (release tagName).version) :
    (offer tagName content).Carries .ascii versionOf := by
  intro r hr
  obtain rfl := Option.some.inj (hlatest.symm.trans hr)
  exact ⟨content, rfl, hversion⟩

theorem checks_carry : ∀ met ∈ checks, met.Carries .ascii versionOf := by
  simp only [checks, List.forall_mem_cons]
  exact ⟨offer_carries (by decide +kernel) (by decide +kernel),
    offer_carries (by decide +kernel) (by decide +kernel),
    offer_carries (by decide +kernel) (by decide +kernel),
    offer_carries (by decide +kernel) (by decide +kernel), by simp⟩

theorem run_checks : (service.run .ascii versionOf checks).map Service.applied =
    some [release "v1.1"] := by
  decide +kernel

end Sample

/-- Of four offers one is applied. -/
theorem updates_ascend_sample : ∃ s', Sample.service.run .ascii Sample.versionOf Sample.checks = some s' ∧
    (s'.applied.Pairwise fun later earlier => earlier.Precedes later) ∧ s'.applied.Nodup ∧
    s'.applied = [Sample.release "v1.1"] := by
  obtain ⟨v, hv, hfull⟩ : ∃ v, Sample.versionOf [1, 0, 4, 0] = some v ∧ v.Full :=
    ⟨⟨[1, 0, 4, 0], by decide, by decide⟩, rfl, rfl⟩
  obtain ⟨s', hrun, hsorted, hnodup⟩ := (updates_ascend .ascii Sample.versionOf).2 Sample.service v
    Sample.checks hv hfull rfl rfl fun first met rest b b' heq _ _ _ =>
      Sample.checks_carry met (by simp [heq])
  obtain ⟨s'', hrun', happlied⟩ := Option.map_eq_some_iff.mp Sample.run_checks
  obtain rfl := Option.some.inj (hrun'.symm.trans hrun)
  exact ⟨s'', hrun, hsorted, hnodup, happlied⟩

end ElevateGate.Agent.Updates
