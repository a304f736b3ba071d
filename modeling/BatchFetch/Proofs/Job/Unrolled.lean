import BatchFetch.Proofs.Job.Levels

namespace BatchFetch.Site

theorem fresh_eq_nil {seen urls : List Url} (old : ∀ url ∈ urls, url ∈ seen) :
    fresh seen urls = [] := by
  refine List.eq_nil_iff_forall_not_mem.mpr fun url member => ?_
  obtain ⟨among, new⟩ := mem_fresh.mp member
  exact new (old url among)

/-- What repeated targets lead to is no news. The members of `old` are repeated, too, if all that
they lead to was seen. -/
theorem fresh_flatMap_fresh {leads : Url → List Url} {old seen : List Url} (urls : List Url)
    (known : ∀ url ∈ old, ∀ child ∈ leads url, child ∈ seen) :
    fresh seen ((fresh old urls).flatMap leads) = fresh seen (urls.flatMap leads) := by
  induction urls generalizing old seen with
  | nil => rfl
  | cons url rest ih =>
    rw [List.flatMap_cons, fresh_append]
    by_cases repeated : url ∈ old
    · rw [fresh_of_seen repeated, ih known, fresh_eq_nil (known url repeated), List.nil_append,
        List.append_nil]
    · rw [fresh_of_unseen repeated, List.flatMap_cons, fresh_append]
      congr 1
      refine ih fun other member child named => ?_
      rw [List.mem_append, mem_fresh]
      rcases List.mem_cons.mp member with rfl | before
      · by_cases seenBefore : child ∈ seen
        · exact Or.inl seenBefore
        · exact Or.inr ⟨named, seenBefore⟩
      · exact Or.inl (known other before child named)

/-- Where each target stands for itself or for nothing, it is all the same whether repetitions are
left out before or after. -/
theorem fresh_flatMap_own {own : Url → List Url} (isOwn : ∀ url, own url = [] ∨ own url = [url])
    {seen other : List Url} (same : ∀ url, own url = [url] → (url ∈ seen ↔ url ∈ other))
    (urls : List Url) : fresh seen (urls.flatMap own) = (fresh other urls).flatMap own := by
  induction urls generalizing seen other with
  | nil => rfl
  | cons url rest ih =>
    rcases isOwn url with none | itself
    · rw [List.flatMap_cons, none, List.nil_append]
      by_cases old : url ∈ other
      · rw [fresh_of_seen old, ih same]
      · rw [fresh_of_unseen old, List.flatMap_cons, none, List.nil_append]
        refine ih fun file stands => ?_
        have differs : file ≠ url := by
          rintro rfl
          rw [none] at stands
          cases stands
        rw [List.mem_cons, or_iff_right differs]
        exact same file stands
    · rw [List.flatMap_cons, itself, List.singleton_append]
      by_cases old : url ∈ other
      · rw [fresh_of_seen old, fresh_of_seen ((same url itself).mpr old), ih same]
      · rw [fresh_of_unseen old, fresh_of_unseen (mt (same url itself).mp old), List.flatMap_cons,
          itself, List.singleton_append]
        congr 1
        refine ih fun file stands => ?_
        rw [List.mem_cons, List.mem_cons, same file stands]

/-- Leaving out repeated texts leaves the texts of first occurrences, if texts tell URLs apart. -/
theorem eraseDups_filter_map {text : Url → String} {among : Url → Prop}
    (inj : ∀ url other, among url → among other → text url = text other → url = other)
    {seen urls : List Url} (seenAmong : ∀ url ∈ seen, among url)
    (urlsAmong : ∀ url ∈ urls, among url) :
    ((urls.map text).filter (· ∉ seen.map text)).eraseDups = (fresh seen urls).map text := by
  induction urls generalizing seen with
  | nil => rfl
  | cons url rest ih =>
    obtain ⟨here, restAmong⟩ := List.forall_mem_cons.mp urlsAmong
    have known : text url ∈ seen.map text ↔ url ∈ seen := by
      refine ⟨fun member => ?_, List.mem_map_of_mem⟩
      obtain ⟨other, before, equal⟩ := List.mem_map.mp member
      rwa [inj url other here (seenAmong other before) equal.symm]
    rw [List.map_cons]
    by_cases old : url ∈ seen
    · rw [List.filter_cons_of_neg (by simpa using known.mpr old), fresh_of_seen old]
      exact ih seenAmong restAmong
    · rw [List.filter_cons_of_pos (by simpa using mt known.mp old), fresh_of_unseen old,
        List.eraseDups_cons, List.map_cons, List.filter_filter,
        ← ih (List.forall_mem_cons.mpr ⟨here, seenAmong⟩) restAmong]
      congr 2
      refine List.filter_congr fun other _ => Bool.eq_iff_iff.mpr ?_
      simp only [List.map_cons, List.mem_cons, not_or, Bool.and_eq_true, Bool.not_eq_true',
        beq_eq_false_iff_ne, decide_eq_true_eq, ne_eq]

theorem eraseDups_map {text : Url → String} {urls : List Url}
    (inj : ∀ url ∈ urls, ∀ other ∈ urls, text url = text other → url = other) :
    (urls.map text).eraseDups = (fresh [] urls).map text := by
  have told : ∀ url other, url ∈ urls → other ∈ urls → text url = text other → url = other :=
    fun url other member memberToo => inj url member other memberToo
  rw [← eraseDups_filter_map told (fun _ absent => absurd absent List.not_mem_nil)
    fun _ member => member]
  simp

/-- The targets so many steps below a root, claimed or not, in order and with repetitions. -/
def layer (site : Site) (root : Url) : Nat → List Url
  | 0 => [root]
  | steps + 1 => (site.layer root steps).flatMap site.children

/-- All targets down to so many steps below a root. -/
def unrolled (site : Site) (root : Url) (below : Nat) : List Url :=
  (List.range (below + 1)).flatMap (site.layer root)

variable {site : Site} {root : Url} {below : Nat}

/-- The levels of a listing are the claimed targets among these. -/
theorem level_eq_filter (claimed : site.claims root = true) (steps : Nat) :
    site.level [root] steps = (site.layer root steps).filter site.claims := by
  induction steps with
  | zero =>
    rw [layer, List.filter_cons_of_pos claimed]
    rfl
  | succ steps ih =>
    have nothing : ∀ url, ¬ site.claims url = true → site.next url = [] := by
      intro url unclaimed
      rw [next, children_of_unclaimed unclaimed, List.filter_nil]
    rw [level, layer, ih, flatMap_filter_claims nothing, List.filter_flatMap]
    rfl

theorem mem_level_iff (claimed : site.claims root = true) {url : Url} {steps : Nat} :
    url ∈ site.level [root] steps ↔ url ∈ site.layer root steps ∧ site.claims url = true := by
  rw [level_eq_filter claimed, List.mem_filter]

theorem unrolled_eq (ended : site.layer root (below + 1) = []) :
    site.unrolled root below = root :: (site.unrolled root below).flatMap site.children := by
  have later : (site.unrolled root below).flatMap site.children =
      (List.range (below + 1)).flatMap fun steps => site.layer root (steps + 1) :=
    List.flatMap_assoc
  rw [later, List.range_succ, List.flatMap_append, List.flatMap_singleton, ended, List.append_nil,
    unrolled, List.range_succ_eq_map, List.flatMap_cons, List.flatMap_map]
  rfl

theorem finitelyReaches_of_ended (ended : site.layer root (below + 1) = []) :
    site.FinitelyReaches root := by
  refine ⟨site.unrolled root below, ?_, fun url member child named => ?_⟩
  · rw [unrolled_eq ended]
    exact List.mem_cons_self
  · rw [unrolled_eq ended]
    exact List.mem_cons_of_mem _ (List.mem_flatMap.mpr ⟨url, member, named⟩)

theorem reaches_of_mem_layer {url : Url} {steps : Nat} (member : url ∈ site.layer root steps) :
    site.Reaches root url := by
  induction steps generalizing url with
  | zero =>
    cases List.mem_singleton.mp member
    exact .root
  | succ steps ih =>
    obtain ⟨parent, above, named⟩ := List.mem_flatMap.mp member
    exact .child (ih above) named

theorem reaches_of_mem_unrolled {url : Url} (member : url ∈ site.unrolled root below) :
    site.Reaches root url := by
  obtain ⟨steps, _, inLayer⟩ := List.mem_flatMap.mp member
  exact reaches_of_mem_layer inLayer

theorem unfolds_unrolled (ended : site.layer root (below + 1) = []) :
    site.Unfolds root (fresh [] (site.unrolled root below)) := by
  have known : ∀ url ∈ ([] : List Url), ∀ child ∈ site.children url, child ∈ [root] :=
    fun _ absent => absurd absent List.not_mem_nil
  rw [Unfolds, fresh_flatMap_fresh _ known]
  conv => lhs; rw [unrolled_eq ended]
  exact fresh_of_unseen List.not_mem_nil _

theorem exists_layer_of_reaches {url : Url} (ended : site.layer root (below + 1) = [])
    (reach : site.Reaches root url) : ∃ steps ≤ below, url ∈ site.layer root steps := by
  obtain ⟨member, _⟩ := mem_fresh.mp ((unfolds_unrolled ended).mem_of_reaches reach)
  obtain ⟨steps, within, inLayer⟩ := List.mem_flatMap.mp member
  exact ⟨steps, Nat.le_of_lt_succ (List.mem_range.mp within), inLayer⟩

/-- Without repetitions, the targets level by level are the breadth-first order. -/
theorem fresh_unrolled {distance : Nat} (ended : site.layer root (below + 1) = [])
    (noMore : site.wave root distance = []) :
    fresh [] (site.unrolled root below) = site.met root distance := by
  obtain ⟨other, noMoreToo, order⟩ := (unfolds_unrolled ended).eq_met fun url member =>
    reaches_of_mem_unrolled (mem_fresh.mp member).1
  rw [order, met_eq_met noMoreToo noMore]

theorem map_url_of_noTargets {entries : List Entry} (none : targets entries = []) :
    entries.map Entry.url = entries.filterMap Entry.file? := by
  induction entries with
  | nil => rfl
  | cons entry rest ih =>
    cases entry with
    | queue => cases none
    | file url => exact congrArg (url :: ·) (ih none)

/-- A listing that leaves no target unvisited writes the files of all of them. -/
theorem listing_eq (claimed : site.claims root = true) (ended : site.layer root (below + 1) = []) :
    site.listing root below = (site.unrolled root below).flatMap site.files := by
  have filesOf (steps : Nat) : (site.level [root] steps).flatMap site.files =
      (site.layer root steps).flatMap site.files := by
    rw [level_eq_filter claimed, flatMap_filter_claims fun _ => files_of_unclaimed]
  have deepest : ((site.level [root] below).flatMap fun url => (site.entries url).map Entry.url) =
      (site.level [root] below).flatMap site.files := by
    refine List.flatMap_congr fun url member => map_url_of_noTargets ?_
    exact List.flatMap_eq_nil_iff.mp ended url ((mem_level_iff claimed).mp member).1
  rw [listing, deepest, filesOf, unrolled, List.range_succ, List.flatMap_append,
    List.flatMap_singleton, List.flatMap_append, List.flatMap_assoc]
  simp only [filesOf]

end BatchFetch.Site
