import BatchFetch.Job.Reach
import BatchFetch.Proofs.Job.Breadth
import BatchFetch.Proofs.Job.Loop

namespace BatchFetch

def Entry.file? : Entry → Option Url
  | file url => some url
  | queue _ => none

theorem Entry.file?_eq_some {entry : Entry} {url : Url} :
    entry.file? = some url ↔ entry = file url := by
  cases entry <;> simp only [file?, Option.some.injEq, file.injEq, reduceCtorEq]

namespace Site

/-- The files that a URL resolves to. -/
def files (site : Site) (url : Url) : List Url :=
  (site.entries url).filterMap Entry.file?

theorem mem_files {site : Site} {url file : Url} :
    file ∈ site.files url ↔ Entry.file file ∈ site.entries url := by
  simp only [files, List.mem_filterMap, Entry.file?_eq_some, exists_eq_right]

/-- An unclaimed target leads to nothing, so it may be left out of what is gone through. -/
theorem flatMap_filter_claims {site : Site} {leads : Url → List Url}
    (nothing : ∀ url, ¬ site.claims url → leads url = []) (urls : List Url) :
    (urls.filter site.claims).flatMap leads = urls.flatMap leads := by
  induction urls with
  | nil => rfl
  | cons url rest ih =>
    by_cases claimed : site.claims url
    · rw [List.filter_cons_of_pos claimed, List.flatMap_cons, List.flatMap_cons, ih]
    · rw [List.filter_cons_of_neg claimed, List.flatMap_cons, nothing url claimed,
        List.nil_append, ih]

theorem entries_of_unclaimed {site : Site} {url : Url} (unclaimed : ¬ site.claims url) :
    site.entries url = [] := by
  rw [entries, expand, if_neg unclaimed]
  rfl

theorem children_of_unclaimed {site : Site} {url : Url} (unclaimed : ¬ site.claims url) :
    site.children url = [] := by
  rw [children, entries_of_unclaimed unclaimed]
  rfl

theorem files_of_unclaimed {site : Site} {url : Url} (unclaimed : ¬ site.claims url) :
    site.files url = [] := by
  rw [files, entries_of_unclaimed unclaimed]
  rfl

end Site

namespace Download

namespace Deed

def resolved? : Deed → Option Url
  | resolve url => some url
  | _ => none

def reported? : Deed → Option Url
  | report url => some url
  | _ => none

def handed? : Deed → Option Url
  | hand url => some url
  | _ => none

theorem resolved?_eq_some {deed : Deed} {url : Url} :
    deed.resolved? = some url ↔ deed = resolve url := by
  cases deed <;> simp only [resolved?, Option.some.injEq, resolve.injEq, reduceCtorEq]

theorem reported?_eq_some {deed : Deed} {url : Url} :
    deed.reported? = some url ↔ deed = report url := by
  cases deed <;> simp only [reported?, Option.some.injEq, report.injEq, reduceCtorEq]

theorem handed?_eq_some {deed : Deed} {url : Url} : deed.handed? = some url ↔ deed = hand url := by
  cases deed <;> simp only [handed?, Option.some.injEq, hand.injEq, reduceCtorEq]

theorem mem_resolved {deeds : List Deed} {url : Url} :
    url ∈ deeds.filterMap resolved? ↔ resolve url ∈ deeds := by
  simp only [List.mem_filterMap, resolved?_eq_some, exists_eq_right]

theorem mem_reported {deeds : List Deed} {url : Url} :
    url ∈ deeds.filterMap reported? ↔ report url ∈ deeds := by
  simp only [List.mem_filterMap, reported?_eq_some, exists_eq_right]

theorem mem_handed {deeds : List Deed} {url : Url} :
    url ∈ deeds.filterMap handed? ↔ hand url ∈ deeds := by
  simp only [List.mem_filterMap, handed?_eq_some, exists_eq_right]

end Deed

variable {site : Site} {settings : DownloadSettings} {root : Url}

/-- The targets that the loop has yet to see from a stage on, if these are the deeds to come: new
ones among the entries that are left, and then on the playlists that are yet to be resolved. -/
def Stage.ahead (site : Site) (stage : Stage) (deeds : List Deed) : List Url :=
  Site.fresh stage.seen
    (Site.targets stage.entries ++ (deeds.filterMap Deed.resolved?).flatMap site.children)

/-- The deeds to come from a stage on, when the target is not aborted. -/
structure Stage.Account (site : Site) (stage : Stage) (deeds : List Deed) : Prop where
  resolved : deeds.filterMap Deed.resolved? =
    stage.queue ++ (stage.ahead site deeds).filter site.claims
  reported : deeds.filterMap Deed.reported? =
    (stage.ahead site deeds).filter fun url => !site.claims url
  handed : deeds.filterMap Deed.handed? =
    stage.entries.filterMap Entry.file? ++ (deeds.filterMap Deed.resolved?).flatMap site.files

theorem Step.account {stage middle : Stage} {deeds more : List Deed}
    (step : Step site settings root stage deeds middle) (account : middle.Account site more) :
    stage.Account site (deeds ++ more) := by
  obtain ⟨resolved, reported, handed⟩ := account
  cases step with
  | @resolve seen queue url state =>
    refine ⟨?_, reported, ?_⟩
    · show url :: more.filterMap Deed.resolved? = url :: queue ++ _
      rw [resolved]
      rfl
    · exact handed
  | @hand seen queue url entries state after aborted _ =>
    refine ⟨resolved, reported, ?_⟩
    show url :: more.filterMap Deed.handed? = _
    rw [handed]
    rfl
  | @known seen queue child entries state old =>
    have ahead : Stage.ahead site ⟨seen, queue, .queue child :: entries, state, false⟩ more =
        Stage.ahead site ⟨seen, queue, entries, state, false⟩ more :=
      Site.fresh_of_seen old _
    refine ⟨?_, ?_, handed⟩
    · rw [List.nil_append, ahead]
      exact resolved
    · rw [List.nil_append, ahead]
      exact reported
  | @discover seen queue child entries state new claimed =>
    have ahead : Stage.ahead site ⟨seen, queue, .queue child :: entries, state, false⟩ more =
        child :: Stage.ahead site ⟨child :: seen, queue ++ [child], entries, state, false⟩ more :=
      Site.fresh_of_unseen new _
    refine ⟨?_, ?_, handed⟩
    · rw [List.nil_append, ahead, List.filter_cons_of_pos claimed, resolved, List.append_assoc]
      rfl
    · rw [List.nil_append, ahead, List.filter_cons_of_neg (by simp [claimed])]
      exact reported
  | @report seen queue child entries state new unclaimed =>
    have ahead : Stage.ahead site ⟨seen, queue, .queue child :: entries, state, false⟩
          (.report child :: more) =
        child :: Stage.ahead site ⟨child :: seen, queue, entries,
          { state with trail := state.trail.unclaimed child }, false⟩ more :=
      Site.fresh_of_unseen new _
    refine ⟨?_, ?_, handed⟩
    · rw [List.singleton_append, ahead, List.filter_cons_of_neg unclaimed]
      exact resolved
    · rw [List.singleton_append, ahead, List.filter_cons_of_pos (by simp [unclaimed]), ← reported]
      rfl

/-- The account is given from the end of the loop backwards. -/
theorem Steps.account {stage last : Stage} {deeds : List Deed}
    (steps : Steps site settings root stage deeds last) (ended : last.Ended)
    (whole : last.aborted = false) : stage.Account site deeds := by
  induction steps with
  | refl stage =>
    rcases ended with aborted | ⟨noQueue, noEntries⟩
    · rw [whole] at aborted
      cases aborted
    · have ahead : stage.ahead site [] = [] := by
        rw [Stage.ahead, noEntries]
        rfl
      refine ⟨?_, ?_, ?_⟩
      · rw [ahead, noQueue]
        rfl
      · rw [ahead]
        rfl
      · rw [noEntries]
        rfl
  | head step _ ih => exact step.account (ih ended whole)

/-- What waits can be reached. -/
def Stage.Inside (site : Site) (root : Url) (stage : Stage) : Prop :=
  ∀ url ∈ stage.queue ++ Site.targets stage.entries, site.Reaches root url

/-- What is resolved or reported can be reached. -/
def Sound (site : Site) (root : Url) (deeds : List Deed) : Prop :=
  ∀ url, .resolve url ∈ deeds ∨ .report url ∈ deeds → site.Reaches root url

theorem Step.inside {stage middle : Stage} {deeds : List Deed}
    (step : Step site settings root stage deeds middle) (inside : stage.Inside site root) :
    middle.Inside site root ∧ Sound site root deeds := by
  cases step with
  | @resolve seen queue url state =>
    have reach : site.Reaches root url := inside url List.mem_cons_self
    refine ⟨?_, ?_⟩
    · intro other member
      rcases List.mem_append.mp member with waiting | named
      · exact inside other (List.mem_cons_of_mem _ (List.mem_append_left _ waiting))
      · exact reach.child named
    · rintro other (equal | absent)
      · cases List.mem_singleton.mp equal
        exact reach
      · cases List.mem_singleton.mp absent
  | @hand seen queue url entries state after aborted _ =>
    refine ⟨inside, ?_⟩
    rintro other (absent | absent) <;> cases List.mem_singleton.mp absent
  | @known seen queue child entries state _ =>
    refine ⟨?_, ?_⟩
    · intro other member
      rcases List.mem_append.mp member with waiting | named
      · exact inside other (List.mem_append_left _ waiting)
      · exact inside other (List.mem_append_right _ (List.mem_cons_of_mem _ named))
    · rintro other (absent | absent) <;> cases absent
  | @discover seen queue child entries state _ _ =>
    refine ⟨?_, ?_⟩
    · intro other member
      rw [List.append_assoc] at member
      exact inside other member
    · rintro other (absent | absent) <;> cases absent
  | @report seen queue child entries state _ _ =>
    have reach : site.Reaches root child :=
      inside child (List.mem_append_right _ List.mem_cons_self)
    refine ⟨?_, ?_⟩
    · intro other member
      rcases List.mem_append.mp member with waiting | named
      · exact inside other (List.mem_append_left _ waiting)
      · exact inside other (List.mem_append_right _ (List.mem_cons_of_mem _ named))
    · rintro other (absent | equal)
      · cases List.mem_singleton.mp absent
      · cases List.mem_singleton.mp equal
        exact reach

theorem Steps.sound {stage last : Stage} {deeds : List Deed}
    (steps : Steps site settings root stage deeds last) (inside : stage.Inside site root) :
    Sound site root deeds := by
  induction steps with
  | refl =>
    rintro url (member | member) <;> cases member
  | head step _ ih =>
    obtain ⟨insideMiddle, soundStep⟩ := step.inside inside
    have soundRest := ih insideMiddle
    rintro url (resolved | reported)
    · rcases List.mem_append.mp resolved with now | later
      · exact soundStep url (Or.inl now)
      · exact soundRest url (Or.inl later)
    · rcases List.mem_append.mp reported with now | later
      · exact soundStep url (Or.inr now)
      · exact soundRest url (Or.inr later)

/-- The deeds go through all that a root leads to, breadth first and once each. -/
structure BreadthFirst (site : Site) (root : Url) (deeds : List Deed) : Prop where
  order : ∃ distance, site.wave root distance = [] ∧
    deeds.filterMap Deed.resolved? = (site.met root distance).filter site.claims
  resolved_once : (deeds.filterMap Deed.resolved?).Nodup
  resolved_iff : ∀ url, url ∈ deeds.filterMap Deed.resolved? ↔
    site.Reaches root url ∧ site.claims url = true
  reported_once : (deeds.filterMap Deed.reported?).Nodup
  reported_iff : ∀ url, url ∈ deeds.filterMap Deed.reported? ↔
    site.Reaches root url ∧ site.claims url = false
  handed_eq : deeds.filterMap Deed.handed? = (deeds.filterMap Deed.resolved?).flatMap site.files
  handed_iff : ∀ file, file ∈ deeds.filterMap Deed.handed? ↔
    ∃ url, site.Reaches root url ∧ Entry.file file ∈ site.entries url

/-- All that the job has come upon: the root, and what it was led to. -/
def discovered (site : Site) (root : Url) (deeds : List Deed) : List Url :=
  root :: Site.fresh [root] ((deeds.filterMap Deed.resolved?).flatMap site.children)

namespace Stage.Account

variable {files : FileSystem} {deeds : List Deed}

theorem resolved_eq (account : (Stage.start root files).Account site deeds)
    (claimed : site.claims root = true) :
    deeds.filterMap Deed.resolved? = (discovered site root deeds).filter site.claims := by
  rw [discovered, List.filter_cons_of_pos claimed]
  exact account.resolved

theorem reported_eq (account : (Stage.start root files).Account site deeds)
    (claimed : site.claims root = true) :
    deeds.filterMap Deed.reported? =
      (discovered site root deeds).filter fun url => !site.claims url := by
  rw [discovered, List.filter_cons_of_neg (by simp [claimed])]
  exact account.reported

theorem unfolds (account : (Stage.start root files).Account site deeds)
    (claimed : site.claims root = true) : site.Unfolds root (discovered site root deeds) := by
  rw [Site.Unfolds, ← Site.flatMap_filter_claims fun _ => Site.children_of_unclaimed,
    ← account.resolved_eq claimed]
  rfl

end Stage.Account

/-- What is discovered is resolved or reported, so it can be reached. -/
theorem Sound.reaches {deeds : List Deed} (sound : Sound site root deeds)
    (resolved : deeds.filterMap Deed.resolved? = (discovered site root deeds).filter site.claims)
    (reported : deeds.filterMap Deed.reported? =
      (discovered site root deeds).filter fun url => !site.claims url) :
    ∀ url ∈ discovered site root deeds, site.Reaches root url := by
  intro url member
  by_cases claimed : site.claims url
  · have isResolved : url ∈ deeds.filterMap Deed.resolved? := by
      rw [resolved]
      exact List.mem_filter.mpr ⟨member, claimed⟩
    exact sound url (Or.inl (Deed.mem_resolved.mp isResolved))
  · have isReported : url ∈ deeds.filterMap Deed.reported? := by
      rw [reported]
      exact List.mem_filter.mpr ⟨member, by simpa using claimed⟩
    exact sound url (Or.inr (Deed.mem_reported.mp isReported))

theorem Stage.inside_start (site : Site) (root : Url) (files : FileSystem) :
    (Stage.start root files).Inside site root := by
  intro url member
  cases List.mem_singleton.mp member
  exact .root

theorem Steps.breadthFirst {files : FileSystem} {last : Stage} {deeds : List Deed}
    (steps : Steps site settings root (Stage.start root files) deeds last) (ended : last.Ended)
    (whole : last.aborted = false) (claimed : site.claims root = true) :
    BreadthFirst site root deeds := by
  have account := steps.account ended whole
  have resolved := account.resolved_eq claimed
  have reported := account.reported_eq claimed
  have unfolds := account.unfolds claimed
  have reaches := (steps.sound (Stage.inside_start site root files)).reaches resolved reported
  have members : ∀ url, url ∈ discovered site root deeds ↔ site.Reaches root url := fun url =>
    ⟨reaches url, unfolds.mem_of_reaches⟩
  have handed : deeds.filterMap Deed.handed? =
      (deeds.filterMap Deed.resolved?).flatMap site.files := account.handed
  obtain ⟨distance, noMore, order⟩ := unfolds.eq_met reaches
  refine ⟨⟨distance, noMore, ?_⟩, ?_, ?_, ?_, ?_, handed, ?_⟩
  · rw [resolved, order]
  · rw [resolved]
    exact unfolds.nodup.filter _
  · intro url
    rw [resolved, List.mem_filter, members]
  · rw [reported]
    exact unfolds.nodup.filter _
  · intro url
    rw [reported, List.mem_filter, members, Bool.not_eq_true']
  · intro file
    rw [handed, resolved, Site.flatMap_filter_claims fun _ => Site.files_of_unclaimed,
      List.mem_flatMap]
    simp only [members, Site.mem_files]

end Download

namespace Handler

theorem file_not_mem_playlistEntries {naming : Host.Naming} {base url : Url} {body : List Char} :
    Entry.file url ∉ (playlistEntries naming base body).1 := by
  intro member
  simp only [playlistEntries, List.mem_filterMap, List.mem_map] at member
  obtain ⟨_, ⟨line, _, rfl⟩, value⟩ := member
  unfold playlistEntry at value
  split at value <;> cases value

theorem files_playlist (naming : Host.Naming) (get : Url → Exchange) (url : Url) :
    (playlist.resolveBy naming get url).entries.filterMap Entry.file? = [] := by
  rw [List.filterMap_eq_nil_iff]
  intro entry member
  cases entry with
  | queue => rfl
  | file other =>
    simp only [resolveBy] at member
    split at member
    · cases member
    · split at member
      · cases member
      · split at member
        · cases member
        · exact absurd member file_not_mem_playlistEntries

end Handler

namespace Registry

/-- No handlers but those for playlists and for single files. -/
def BuiltIn (registry : Registry) : Prop :=
  ∀ handler ∈ registry.handlers, handler = .playlist ∨ handler = .direct

theorem files_of_builtIn {registry : Registry} (builtIn : registry.BuiltIn) (get : Url → Exchange)
    (url : Url) :
    (registry.siteBy get).files url = [] ∨ (registry.siteBy get).files url = [url] := by
  cases found : registry.find? url with
  | none =>
    have unclaimed : ¬ (registry.siteBy get).claims url := by
      simp only [siteBy, found, Option.isSome_none, Bool.false_eq_true, not_false_eq_true]
    exact Or.inl (Site.files_of_unclaimed unclaimed)
  | some handler =>
    have claimed : (registry.siteBy get).claims url = true := by
      simp only [siteBy, found, Option.isSome_some]
    rw [Site.files, Site.entries, Site.expand, if_pos claimed, resolve_siteBy found]
    rcases builtIn handler (List.mem_of_find?_eq_some found) with playlist | direct
    · rw [playlist]
      exact Or.inl (Handler.files_playlist registry.naming get url)
    · rw [direct]
      exact Or.inr rfl

theorem nodup_flatMap_files {registry : Registry} (builtIn : registry.BuiltIn)
    (get : Url → Exchange) {urls : List Url} (once : urls.Nodup) :
    (urls.flatMap (registry.siteBy get).files).Nodup := by
  have kept : (urls.flatMap (registry.siteBy get).files).Sublist urls := by
    clear once
    induction urls with
    | nil => exact .slnil
    | cons url rest ih =>
      rw [List.flatMap_cons]
      rcases files_of_builtIn builtIn get url with none | itself
      · rw [none]
        exact ih.cons url
      · rw [itself]
        exact ih.cons_cons url
  exact once.sublist kept

/-- A download whose root leads to finitely many targets comes to an end, and its turns can only
lead there. Unless the target is aborted, it goes through all that the root leads to, breadth first
and once each; built-in handlers name no file twice either. -/
theorem download_breadth_first (registry : Registry) (get : Url → Exchange)
    (settings : DownloadSettings) (root : Url) (files : FileSystem)
    (claimed : (registry.find? root).isSome)
    (finite : (registry.siteBy get).FinitelyReaches root) :
    ∃ deeds last,
      Download.Steps (registry.siteBy get) settings root (.start root files) deeds last ∧
      last.Ended ∧
      Download.run (registry.siteBy get) settings root finite files =
        ⟨last.outcome, last.state⟩ ∧
      (∀ done middle,
        Download.Steps (registry.siteBy get) settings root (.start root files) done middle →
        ∃ more, Download.Steps (registry.siteBy get) settings root middle more last ∧
          deeds = done ++ more) ∧
      (last.outcome ≠ .aborted →
        Download.BreadthFirst (registry.siteBy get) root deeds ∧
        (registry.BuiltIn → (deeds.filterMap Download.Deed.handed?).Nodup)) := by
  obtain ⟨deeds, last, steps, ended, answer⟩ := Download.exists_steps_run finite files
  refine ⟨deeds, last, steps, ended, answer, fun _ _ begun => steps.leads_on ended begun, ?_⟩
  intro notAborted
  have whole : last.aborted = false := by
    rw [← Bool.not_eq_true]
    intro aborted
    exact notAborted (by rw [Download.Stage.outcome, if_pos aborted])
  have breadth := steps.breadthFirst ended whole claimed
  refine ⟨breadth, ?_⟩
  intro builtIn
  rw [breadth.handed_eq]
  exact nodup_flatMap_files builtIn get breadth.resolved_once

theorem standard_builtIn : standard.BuiltIn := by
  intro handler member
  simpa only [standard, List.mem_cons, List.not_mem_nil, or_false] using member

/-- A URL of one host. -/
def cyclicUrl (name : String) : Url where
  scheme := "http"
  authority := some { host := .name "h" }
  route := .segments [name]

/-- Two playlists that name each other; the first names itself too, a file twice, and a target that
nothing claims. -/
def cyclicWeb : Web where
  pages :=
    [(cyclicUrl "a.m3u", { body := Text.Utf8.encode "a.m3u\nb.m3u\nf.jpg\nf.jpg\nx\n".toList }),
      (cyclicUrl "b.m3u", { body := Text.Utf8.encode "a.m3u\ng.jpg\nx\n".toList })]

theorem download_breadth_first_cyclic :
    (standard.find? (cyclicUrl "a.m3u")).isSome ∧
    (standard.siteBy cyclicWeb.get).FinitelyReaches (cyclicUrl "a.m3u") ∧
    ∃ deeds last,
      Download.Steps (standard.siteBy cyclicWeb.get) {} (cyclicUrl "a.m3u")
        (.start (cyclicUrl "a.m3u") {}) deeds last ∧
      last.Ended ∧
      last.outcome ≠ .aborted ∧
      deeds.filterMap Download.Deed.resolved? =
        ["a.m3u", "b.m3u", "f.jpg", "g.jpg"].map cyclicUrl ∧
      deeds.filterMap Download.Deed.handed? = ["f.jpg", "g.jpg"].map cyclicUrl ∧
      (deeds.filterMap Download.Deed.handed?).Nodup := by
  have claimed : (standard.find? (cyclicUrl "a.m3u")).isSome := by decide +kernel
  have finite := finitelyReaches standard cyclicWeb (cyclicUrl "a.m3u")
  obtain ⟨deeds, last, steps, ended, _, _, goes⟩ :=
    download_breadth_first standard cyclicWeb.get {} (cyclicUrl "a.m3u") {} claimed finite
  have gentle : ∀ limit, ({} : DownloadSettings).skip ≠ .abort limit := by
    intro limit asked
    cases asked
  have whole : last.outcome ≠ .aborted := by
    rw [Download.Stage.outcome, steps.not_aborted gentle rfl]
    intro absurdity
    cases absurdity
  obtain ⟨breadth, once⟩ := goes whole
  obtain ⟨distance, noMore, resolved⟩ := breadth.order
  have third : (standard.siteBy cyclicWeb.get).wave (cyclicUrl "a.m3u") 3 = [] := by
    decide +kernel
  have order : deeds.filterMap Download.Deed.resolved? =
      ["a.m3u", "b.m3u", "f.jpg", "g.jpg"].map cyclicUrl := by
    rw [resolved, Site.met_eq_met noMore third]
    decide +kernel
  have handed : deeds.filterMap Download.Deed.handed? = ["f.jpg", "g.jpg"].map cyclicUrl := by
    rw [breadth.handed_eq, order]
    decide +kernel
  exact ⟨claimed, finite, deeds, last, steps, ended, whole, order, handed, once standard_builtIn⟩

end Registry
end BatchFetch
