import BatchFetch.Proofs.Job.Failures
import BatchFetch.Proofs.Job.Targets
import BatchFetch.Proofs.Job.Unrolled

namespace BatchFetch

namespace Listing

variable {site : Site} {root : Url}

/-- The root is always resolved, so that a depth of nothing is as good as a depth of one level. -/
theorem run_zero (site : Site) (root : Url) (out : OutStream) :
    run site 0 root out = run site 1 root out := by
  have same (state : State) : visit site 0 [(root, 1)] state = visit site 1 [(root, 1)] state := by
    rw [visit_cons, visit_cons]
    simp only [Nat.zero_le, Nat.le_refl, decide_true, Pass.target_found_of_deepest, List.map_nil,
      List.append_nil]
    cases (Pass.target site true root state).failure with
    | some failure => rfl
    | none => rw [visit, visit]
  unfold run
  rw [same]

section

variable {below : Nat} {deeds : List Download.Deed}
  (breadth : Download.BreadthFirst site root deeds) (claimed : site.claims root = true)

include breadth claimed

/-- The bits that a listing meets at a target, a download adds in its own turns. -/
theorem deeds_contain_bits {url : Url} {steps : Nat} (inLevel : url ∈ site.level [root] steps)
    (deepest : Bool) :
    (ExitStatus.all (deeds.map (Download.Deed.bits site))).contains (bits site deepest url) = true := by
  obtain ⟨inLayer, claims⟩ := (Site.mem_level_iff claimed).mp inLevel
  have reach := Site.reaches_of_mem_layer inLayer
  have has {deed : Download.Deed} (among : deed ∈ deeds) :
      (ExitStatus.all (deeds.map (Download.Deed.bits site))).contains (deed.bits site) = true :=
    ExitStatus.all_contains_of_mem (List.mem_map_of_mem among)
  refine ExitStatus.contains_of_union.mpr ⟨?_, ExitStatus.contains_all_iff.mpr ?_⟩
  · exact has (Download.Deed.mem_resolved.mp ((breadth.resolved_iff url).mpr ⟨reach, claims⟩))
  · intro status member
    obtain ⟨child, isReported, rfl⟩ := List.mem_map.mp member
    obtain ⟨_, named, unclaimed⟩ := mem_reported.mp isReported
    exact has (Download.Deed.mem_reported.mp
      ((breadth.reported_iff child).mpr ⟨reach.child named, unclaimed⟩))

variable (ended : site.layer root (below + 1) = [])

include ended

/-- What a download adds in resolving or reporting a target, a listing meets on some level. -/
theorem tower_contains_deed {deed : Download.Deed} (member : deed ∈ deeds) :
    (ExitStatus.all ((tower site below 1 [root]).map (bitsAt site (below + 1)))).contains
      (deed.bits site) = true := by
  cases deed with
  | resolve url =>
    obtain ⟨reach, claims⟩ := (breadth.resolved_iff url).mp (Download.Deed.mem_resolved.mpr member)
    obtain ⟨steps, within, inLayer⟩ := Site.exists_layer_of_reaches ended reach
    have inLevel := (Site.mem_level_iff claimed).mpr ⟨inLayer, claims⟩
    have inTower : (url, 1 + steps) ∈ tower site below 1 [root] :=
      mem_tower.mpr ⟨steps, within, inLevel, rfl⟩
    exact ExitStatus.contains_trans
      (ExitStatus.all_contains_of_mem (List.mem_map_of_mem inTower))
      (ExitStatus.contains_union_left _ _)
  | report child =>
    obtain ⟨reach, unclaimed⟩ :=
      (breadth.reported_iff child).mp (Download.Deed.mem_reported.mpr member)
    obtain ⟨steps, within, inLayer⟩ := Site.exists_layer_of_reaches ended reach
    cases steps with
    | zero =>
      rw [List.mem_singleton.mp inLayer, claimed] at unclaimed
      cases unclaimed
    | succ steps =>
      obtain ⟨url, above, named⟩ := List.mem_flatMap.mp inLayer
      have claims : site.claims url = true := by
        by_contra absurdity
        rw [Site.children_of_unclaimed absurdity] at named
        cases named
      have inLevel := (Site.mem_level_iff claimed).mpr ⟨above, claims⟩
      have inside : (bits site (decide (below ≤ steps)) url).contains .noHandler = true :=
        bits_contains_noHandler.mpr
          ⟨decide_eq_false (Nat.not_le.mpr within), child, named, unclaimed⟩
      exact (tower_bits_contains ExitStatus.isBit_noHandler).mpr
        ⟨steps, Nat.le_of_succ_le within, url, inLevel, inside⟩
  | hand url => exact ExitStatus.contains_success _

/-- The bits of a listing that leaves no target unvisited are those of resolving and reporting all
targets, once each. -/
theorem all_tower_eq :
    ExitStatus.all ((tower site below 1 [root]).map (bitsAt site (below + 1))) =
      ExitStatus.all (deeds.map (Download.Deed.bits site)) := by
  refine ExitStatus.contains_antisymm (ExitStatus.contains_all_iff.mpr ?_)
    (ExitStatus.contains_all_iff.mpr ?_)
  · intro status member
    obtain ⟨deed, among, rfl⟩ := List.mem_map.mp member
    exact tower_contains_deed breadth claimed ended among
  · intro status member
    obtain ⟨⟨url, place⟩, inTower, rfl⟩ := List.mem_map.mp member
    obtain ⟨steps, _, inLevel, _⟩ := mem_tower.mp inTower
    exact deeds_contain_bits breadth claimed inLevel _

end

end Listing

namespace Registry

variable {registry : Registry} {get : Url → Exchange} {root : Url}

/-- So many playlists, each of them named by the one before, lead from a root to a URL. -/
inductive Nests (registry : Registry) (get : Url → Exchange) (root : Url) : Nat → Url → Prop
  | root : registry.IsPlaylist root → Nests registry get root 1 root
  | child {count : Nat} {url child : Url} : Nests registry get root count url →
      child ∈ (registry.siteBy get).children url → registry.IsPlaylist child →
      Nests registry get root (count + 1) child

theorem BuiltIn.nests_of_mem_layer (builtIn : registry.BuiltIn) {url : Url} {steps : Nat}
    (member : url ∈ (registry.siteBy get).layer root steps) (isPlaylist : registry.IsPlaylist url) :
    registry.Nests get root (steps + 1) url := by
  induction steps generalizing url with
  | zero =>
    cases List.mem_singleton.mp member
    exact .root isPlaylist
  | succ steps ih =>
    obtain ⟨parent, above, named⟩ := List.mem_flatMap.mp member
    obtain ⟨parentIsPlaylist, _⟩ := (builtIn.mem_children_iff get).mp named
    exact .child (ih above parentIsPlaylist) named isPlaylist

/-- Playlists that are nested less deeply name nothing further down. -/
theorem BuiltIn.layer_ended (builtIn : registry.BuiltIn) {below : Nat}
    (shallow : ∀ count url, registry.Nests get root count url → count < below + 1) :
    (registry.siteBy get).layer root (below + 1) = [] := by
  refine List.eq_nil_iff_forall_not_mem.mpr fun child member => ?_
  obtain ⟨url, above, named⟩ := List.mem_flatMap.mp member
  obtain ⟨isPlaylist, _⟩ := (builtIn.mem_children_iff get).mp named
  exact Nat.lt_irrefl _ (shallow _ url (builtIn.nests_of_mem_layer above isPlaylist))

/-- Without repetitions, the lines of a listing that leaves no target unvisited are the files that a
download hands on. -/
theorem BuiltIn.eraseDups_listing (builtIn : registry.BuiltIn) (served : root.Served) {below : Nat}
    {deeds : List Download.Deed}
    (breadth : Download.BreadthFirst (registry.siteBy get) root deeds)
    (claimed : (registry.siteBy get).claims root = true)
    (ended : (registry.siteBy get).layer root (below + 1) = []) :
    (((registry.siteBy get).listing root below).map Url.text).eraseDups =
      (deeds.filterMap Download.Deed.handed?).map Url.text := by
  let site := registry.siteBy get
  obtain ⟨distance, noMore, order⟩ := breadth.order
  have isServed : ∀ file ∈ (site.unrolled root below).flatMap site.files, file.Served := by
    intro file member
    obtain ⟨url, among, own⟩ := List.mem_flatMap.mp member
    exact builtIn.served_of_reachesFile served
      ⟨url, Site.reaches_of_mem_unrolled among, Site.mem_files.mp own⟩
  have once : Site.fresh [] ((site.unrolled root below).flatMap site.files) =
      deeds.filterMap Download.Deed.handed? := by
    calc Site.fresh [] ((site.unrolled root below).flatMap site.files)
        = (Site.fresh [] (site.unrolled root below)).flatMap site.files :=
          Site.fresh_flatMap_own (files_of_builtIn builtIn get) (fun _ _ => Iff.rfl) _
      _ = (site.met root distance).flatMap site.files := by rw [Site.fresh_unrolled ended noMore]
      _ = (deeds.filterMap Download.Deed.resolved?).flatMap site.files := by
          rw [order, Site.flatMap_filter_claims fun _ => Site.files_of_unclaimed]
      _ = deeds.filterMap Download.Deed.handed? := breadth.handed_eq.symm
  rw [Site.listing_eq claimed ended, ← once]
  exact Site.eraseDups_map fun url member other memberToo =>
    (isServed url member).text_inj (isServed other memberToo)

/-- Where playlists are nested less deeply than a listing goes, the lines of the listing without
repetitions are the files that a download of the same target hands on, in order, if it is not to
be aborted. The bits of the listing are those that the download adds in resolving and reporting
targets; its other bits come from files. -/
theorem listing_agrees_with_download (registry : Registry) (builtIn : registry.BuiltIn)
    (get : Url → Exchange) (target : String) (root : Url) (handler : Handler)
    (found : registry.findFor? target = some (root, handler)) (depth : Nat)
    (shallow : ∀ count url, registry.Nests get root count url → count < depth) (out : OutStream)
    (accepts : ∀ attempt, out.refuses attempt = none) (flushes : out.flushFault = none)
    (settings : DownloadSettings) (gentle : ∀ limit, settings.skip ≠ .abort limit)
    (files : FileSystem) :
    let site := registry.siteBy get
    let report := Listing.run site depth root out
    let start := Download.Stage.start root files
    ∃ (finite : site.FinitelyReaches root) (deeds : List Download.Deed) (last : Download.Stage),
      Download.Steps site settings root start deeds last ∧ last.Ended ∧
      Download.run site settings root finite files =
        ⟨.completed last.state.trail.status, last.state⟩ ∧
      (∃ lines : List String, report.state.out.pieces = out.pieces ++ lines.flatMap OutStream.piecesOf ∧
        lines.eraseDups = (deeds.filterMap Download.Deed.handed?).map Url.text) ∧
      report.outcome = .completed (.all (deeds.map (Download.Deed.bits site))) ∧
      Download.Contributed site settings deeds (start.Meets site settings root)
        last.state.trail.status := by
  intro site report start
  obtain ⟨below, sameReport, ended⟩ : ∃ below, report = Listing.run site (below + 1) root out ∧
      site.layer root (below + 1) = [] := by
    cases depth with
    | zero =>
      have shallowToo : ∀ count url, registry.Nests get root count url → count < 1 :=
        fun count url nests => Nat.lt_succ_of_lt (shallow count url nests)
      exact ⟨0, Listing.run_zero site root out, builtIn.layer_ended shallowToo⟩
    | succ below => exact ⟨below, rfl, builtIn.layer_ended shallow⟩
  have claimed : site.claims root = true := claims_of_findFor found get
  have finite : site.FinitelyReaches root := Site.finitelyReaches_of_ended ended
  obtain ⟨deeds, last, steps, endedToo, whole, answer⟩ :=
    Download.exists_steps_of_gentle gentle finite files
  have breadth := steps.breadthFirst endedToo whole claimed
  obtain ⟨outcome, wrote, status⟩ :=
    Listing.run_of_written (OutStream.writePieces_of_accepted fun _ _ => accepts _)
  rw [← sameReport] at outcome wrote status
  refine ⟨finite, deeds, last, steps, endedToo, answer, ⟨_, by rw [wrote], ?_⟩, ?_,
    steps.contributed_of_start endedToo⟩
  · exact builtIn.eraseDups_listing (builtIn.served_of_findFor found) breadth claimed ended
  · have flushesToo : report.state.out.flushFault = none := by rw [wrote, flushes]
    rw [outcome, Listing.result_of_flushed flushesToo, status,
      Listing.all_tower_eq breadth claimed ended]
    rfl

/-- A playlist that two others name, and that names a file and a target that nothing claims. -/
def sharedWeb : Web where
  pages :=
    [(cyclicUrl "a.m3u", { body := Text.Utf8.encode "b.m3u\nf.jpg\nc.m3u\n".toList }),
      (cyclicUrl "b.m3u", { body := Text.Utf8.encode "f.jpg\nc.m3u\n".toList }),
      (cyclicUrl "c.m3u", { body := Text.Utf8.encode "g.jpg\nx\n".toList })]

theorem listing_agrees_with_download_shared :
    standard.BuiltIn ∧
    standard.findFor? "http://h/a.m3u" = some (cyclicUrl "a.m3u", .playlist) ∧
    (∀ count url, standard.Nests sharedWeb.get (cyclicUrl "a.m3u") count url → count < 4) ∧
    ∃ (lines : List String) (deeds : List Download.Deed),
      (Listing.run (standard.siteBy sharedWeb.get) 4 (cyclicUrl "a.m3u") {}).state.out.pieces =
        lines.flatMap OutStream.piecesOf ∧
      lines.eraseDups = (deeds.filterMap Download.Deed.handed?).map Url.text ∧
      (Listing.run (standard.siteBy sharedWeb.get) 4 (cyclicUrl "a.m3u") {}).outcome =
        .completed (.all (deeds.map (Download.Deed.bits (standard.siteBy sharedWeb.get)))) := by
  have found : standard.findFor? "http://h/a.m3u" = some (cyclicUrl "a.m3u", .playlist) := by
    decide +kernel
  let site := standard.siteBy sharedWeb.get
  have first : ∀ child ∈ site.children (cyclicUrl "a.m3u"), standard.find? child = some .playlist →
      child = cyclicUrl "b.m3u" ∨ child = cyclicUrl "c.m3u" := by decide +kernel
  have second : ∀ child ∈ site.children (cyclicUrl "b.m3u"), standard.find? child = some .playlist →
      child = cyclicUrl "c.m3u" := by decide +kernel
  have third : ∀ child ∈ site.children (cyclicUrl "c.m3u"),
      standard.find? child ≠ some .playlist := by decide +kernel
  have places : ∀ count url, standard.Nests sharedWeb.get (cyclicUrl "a.m3u") count url →
      (count = 1 ∧ url = cyclicUrl "a.m3u") ∨ (count = 2 ∧ url = cyclicUrl "b.m3u") ∨
        (count ≤ 3 ∧ url = cyclicUrl "c.m3u") := by
    intro count url nests
    induction nests with
    | root => exact Or.inl ⟨rfl, rfl⟩
    | @child count url child _ named isPlaylist ih =>
      rcases ih with ⟨rfl, rfl⟩ | ⟨rfl, rfl⟩ | ⟨_, rfl⟩
      · rcases first child named isPlaylist with isB | isC
        · exact Or.inr (Or.inl ⟨rfl, isB⟩)
        · exact Or.inr (Or.inr ⟨by decide, isC⟩)
      · exact Or.inr (Or.inr ⟨by decide, second child named isPlaylist⟩)
      · exact absurd isPlaylist (third child named)
  have shallow : ∀ count url, standard.Nests sharedWeb.get (cyclicUrl "a.m3u") count url →
      count < 4 := by
    intro count url nests
    rcases places count url nests with ⟨rfl, _⟩ | ⟨rfl, _⟩ | ⟨atMost, _⟩
    · decide
    · decide
    · exact Nat.lt_succ_of_le atMost
  obtain ⟨_, deeds, _, _, _, _, ⟨lines, wrote, once⟩, outcome, _⟩ :=
    listing_agrees_with_download standard standard_builtIn sharedWeb.get "http://h/a.m3u"
      (cyclicUrl "a.m3u") .playlist found 4 shallow {} (fun _ => rfl) rfl {}
      Download.default_gentle {}
  exact ⟨standard_builtIn, found, shallow, lines, deeds, wrote, once, outcome⟩

end Registry
end BatchFetch
