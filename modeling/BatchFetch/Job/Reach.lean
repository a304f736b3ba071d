import BatchFetch.Job.Site

namespace BatchFetch

namespace Url

/-- The user name and the password. -/
def credentials (url : Url) : Option (String × String) :=
  url.authority.map fun authority => (authority.username, authority.password)

/-- A URL with other credentials; without credentials it has no authority. -/
def withCredentials (url : Url) (credentials : Option (String × String)) : Url :=
  { url with
    authority := url.authority.bind fun authority =>
      credentials.map fun (username, password) => { authority with username, password } }

theorem requested_withCredentials (url : Url) :
    { url.requested.withCredentials url.credentials with fragment := url.fragment } = url := by
  obtain ⟨_, authority, _, _, _⟩ := url
  cases authority <;> rfl

theorem credentials_withCredentials (url : Url) (credentials : Option (String × String)) :
    (url.withCredentials credentials).credentials = none ∨
      (url.withCredentials credentials).credentials = credentials := by
  obtain ⟨_, authority, _, _, _⟩ := url
  cases authority <;> cases credentials <;> simp [withCredentials, Url.credentials]

end Url

namespace Reference

/-- The credentials that a reference brings along, if it names an authority or a whole URL. -/
def credentials? : Reference → Option (Option (String × String))
  | whole url => some url.credentials
  | network authority _ _ => some (some (authority.username, authority.password))
  | _ => none

theorem resolve_fragment (base : Url) (fragment : Option String) (reference : Reference) :
    reference.resolve { base with fragment := fragment } = reference.resolve base := by
  cases reference <;> rfl

theorem credentials_resolve (base : Url) (reference : Reference) :
    (reference.resolve base).credentials = base.credentials ∨
      reference.credentials? = some (reference.resolve base).credentials := by
  cases reference <;> first | exact Or.inl rfl | exact Or.inr rfl

end Reference

/-- What is found in a table is one of its members. -/
theorem Url.mem_of_lookup {α : Type} {table : List (Url × α)} {url : Url} {value : α}
    (found : table.lookup url = some value) : (url, value) ∈ table := by
  induction table with
  | nil => cases found
  | cons head rest ih =>
    obtain ⟨key, value⟩ := head
    rw [List.lookup_cons] at found
    split at found
    · rename_i same
      cases found
      rw [eq_of_beq same]
      exact List.mem_cons_self
    · exact List.mem_cons_of_mem _ (ih found)

namespace Web

/-- The lines of all playlists. -/
def lines (web : Web) : List (List Char) :=
  web.pages.flatMap fun (_, page) =>
    Handler.playlistLines page.text

/-- What the lines say, read from the URLs of the table. -/
def references (web : Web) (naming : Host.Naming) : List (Url × Reference) :=
  web.pages.flatMap fun (key, _) =>
    web.lines.filterMap fun line =>
      ((Reference.read naming key.scheme key.isOpaque (String.ofList line)).toOption).map (key, ·)

/-- An answer with any status but 404 is in the table. -/
theorem mem_of_page {web : Web} {url : Url} (known : (web.page url).status ≠ 404) :
    (url, web.page url) ∈ web.pages := by
  unfold page at known ⊢
  cases found : web.pages.lookup url with
  | none => rw [found] at known; exact absurd rfl known
  | some page => exact Url.mem_of_lookup found

theorem ne_missing_of_success {status : Nat} (success : isSuccessStatus status) : status ≠ 404 := by
  rintro rfl
  cases success

theorem ne_missing_of_redirect {url next : Url} {page : Page}
    {web : Web} (redirect : web.redirectTarget? url page = some next) : page.status ≠ 404 := by
  intro missing
  rw [redirectTarget?, missing] at redirect
  cases redirect

/-- A successful answer is in the table, and so is the URL that was asked for first. -/
theorem follow_success {web : Web} {first current : Url} {left : Nat} {page : Page}
    (answered : (web.follow first current left).result = .ok page)
    (success : isSuccessStatus page.status) :
    (∃ start, (current.requested, start) ∈ web.pages) ∧ ∃ key, (key, page) ∈ web.pages := by
  fun_induction follow web first current left with
  | case1 => cases answered
  | case2 => cases answered
  | case3 => cases answered
  | case4 =>
    obtain rfl := Except.ok.inj answered
    have member := mem_of_page (ne_missing_of_success success)
    exact ⟨⟨_, member⟩, _, member⟩
  | case5 => cases answered
  | case6 current _ _ _ _ _ next redirect left _ ih =>
    exact ⟨⟨_, mem_of_page (ne_missing_of_redirect redirect)⟩, (ih answered).2⟩

/-- A successful answer is in the table, and so is the URL that was asked for. -/
theorem get_success {web : Web} {url : Url} {page : Page}
    (answered : (web.get url).result = .ok page) (success : isSuccessStatus page.status) :
    (∃ start, (url.requested, start) ∈ web.pages) ∧ ∃ key, (key, page) ∈ web.pages := by
  unfold get at answered
  split at answered
  · exact follow_success answered success
  · cases answered

end Web

/-- The targets that a handler knows by heart. -/
def Handler.fixedTargets : Handler → List Url
  | .fixed _ _ table => table.flatMap fun
    | (_, .entries entries) => Site.targets entries
    | (_, .failure _) => []
  | _ => []

theorem Site.mem_targets {entries : List Entry} {url : Url} :
    url ∈ targets entries ↔ Entry.queue url ∈ entries := by
  induction entries with
  | nil => simp [targets]
  | cons entry rest ih =>
    unfold targets at ih ⊢
    cases entry <;> simp [ih]

namespace Handler

theorem mem_playlistEntries {naming : Host.Naming} {base child : Url} {body : List Char}
    (member : Entry.queue child ∈ (playlistEntries naming base body).1) :
    ∃ line ∈ playlistLines body, base.join (String.ofList line) naming = .ok child := by
  simp only [playlistEntries, List.mem_filterMap, List.mem_map] at member
  obtain ⟨_, ⟨line, inBody, rfl⟩, value⟩ := member
  refine ⟨line, inBody, ?_⟩
  unfold playlistEntry at value
  split at value
  · rename_i url joined
    cases value
    exact joined
  · cases value

/-- A target that a playlist names is a reference of the table, resolved from the playlist. -/
theorem mem_resolve_playlist {naming : Host.Naming} {web : Web} {url child : Url}
    (member : Entry.queue child ∈ (playlist.resolveBy naming web.get url).entries) :
    ∃ reference, (url.requested, reference) ∈ web.references naming ∧ child = reference.resolve url := by
  simp only [resolveBy] at member
  split at member
  · cases member
  · rename_i page answered
    split at member
    · cases member
    · rename_i failed
      split at member
      · cases member
      · obtain ⟨line, inBody, joined⟩ := mem_playlistEntries member
        obtain ⟨⟨start, asked⟩, key, inTable⟩ := Web.get_success answered (by simpa using failed)
        cases read : Reference.read naming url.scheme url.isOpaque (String.ofList line) with
        | error e => rw [Url.join, read] at joined; cases joined
        | ok reference =>
          rw [Url.join, read] at joined
          refine ⟨reference, ?_, (Except.ok.inj joined).symm⟩
          refine List.mem_flatMap.2 ⟨_, asked, List.mem_filterMap.2 ⟨line, ?_, ?_⟩⟩
          · exact List.mem_flatMap.2 ⟨_, inTable, inBody⟩
          · have same : Reference.read naming url.requested.scheme url.requested.isOpaque
                (String.ofList line) = .ok reference := read
            rw [same]
            rfl

theorem mem_resolve_fixed {naming : Host.Naming} {web : Web} {url child : Url} {name lead : String}
    {table : List (Url × FixedAnswer)}
    (member : Entry.queue child ∈ ((fixed name lead table).resolveBy naming web.get url).entries) :
    child ∈ (fixed name lead table).fixedTargets := by
  simp only [resolveBy] at member
  split at member
  · cases member
  · rename_i entries found
    exact List.mem_flatMap.2 ⟨_, Url.mem_of_lookup found, Site.mem_targets.2 member⟩
  · cases member

end Handler

namespace Registry

/-- The targets that handlers know by heart. -/
def fixedTargets (registry : Registry) : List Url :=
  registry.handlers.flatMap Handler.fixedTargets

/-- The credentials with which playlists may be asked for. -/
def credentials (registry : Registry) (web : Web) (root : Url) : List (Option (String × String)) :=
  none :: (root :: registry.fixedTargets).map Url.credentials ++
    (web.references registry.naming).filterMap fun (_, reference) => reference.credentials?

/-- All targets that can be reached from a root. -/
def reach (registry : Registry) (web : Web) (root : Url) : List Url :=
  root :: registry.fixedTargets ++
    (registry.credentials web root).flatMap fun credentials =>
      (web.references registry.naming).map fun (key, reference) =>
        reference.resolve (key.withCredentials credentials)

/-- What a target leads to is known by heart, or a reference resolved from it. -/
theorem mem_children {registry : Registry} {web : Web} {url child : Url}
    (member : child ∈ (registry.site web).children url) :
    child ∈ registry.fixedTargets ∨
      ∃ reference, (url.requested, reference) ∈ web.references registry.naming ∧
        child = reference.resolve url := by
  have member := Site.mem_targets.1 member
  unfold Site.entries Site.expand at member
  split at member
  · cases found : registry.find? url with
    | none => simp [site, siteBy, found, Resolution.entries] at member
    | some handler =>
      have registered : handler ∈ registry.handlers := List.mem_of_find?_eq_some found
      rw [site, resolve_siteBy found] at member
      cases handler with
      | playlist => exact Or.inr (Handler.mem_resolve_playlist member)
      | direct => simp [Handler.resolveBy, Resolution.entries] at member
      | fixed =>
        exact Or.inl (List.mem_flatMap.2 ⟨_, registered, Handler.mem_resolve_fixed member⟩)
  · cases member

theorem credentials_mem {registry : Registry} {web : Web} {root url : Url}
    (member : url ∈ registry.reach web root) :
    url.credentials ∈ registry.credentials web root := by
  rcases List.mem_append.1 member with start | named
  · exact List.mem_append_left _ (List.mem_cons_of_mem _ (List.mem_map_of_mem start))
  · obtain ⟨credentials, known, named⟩ := List.mem_flatMap.1 named
    obtain ⟨⟨key, reference⟩, inTable, rfl⟩ := List.mem_map.1 named
    rcases Reference.credentials_resolve (key.withCredentials credentials) reference with base | own
    · rw [base]
      rcases key.credentials_withCredentials credentials with absent | same
      · rw [absent]
        exact List.mem_append_left _ List.mem_cons_self
      · rw [same]
        exact known
    · exact List.mem_append_right _ (List.mem_filterMap.2 ⟨_, inTable, own⟩)

/-- Only finitely many targets can be reached when answers come from tables. -/
theorem finitelyReaches (registry : Registry) (web : Web) (root : Url) :
    (registry.site web).FinitelyReaches root := by
  refine ⟨registry.reach web root, List.mem_append_left _ List.mem_cons_self, ?_⟩
  intro url inside child member
  rcases mem_children member with fixed | ⟨reference, inTable, rfl⟩
  · exact List.mem_append_left _ (List.mem_cons_of_mem _ fixed)
  · refine List.mem_append_right _ (List.mem_flatMap.2 ⟨_, credentials_mem inside, ?_⟩)
    refine List.mem_map.2 ⟨_, inTable, ?_⟩
    simp only
    rw [← Reference.resolve_fragment _ url.fragment, url.requested_withCredentials]

end Registry
end BatchFetch
