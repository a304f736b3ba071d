import BatchFetch.Job.Reach
import BatchFetch.Proofs.Job.Order
import BatchFetch.Proofs.Status

namespace BatchFetch

namespace ExitStatus

/-- The bits that fetching or resolving contributes. -/
def ofFetch {α : Type} : Except FetchError α → ExitStatus
  | .ok _ => success
  | .error e => e.exitStatus

theorem ofFetch_map {α β : Type} (f : α → β) (result : Except FetchError α) :
    ofFetch (result.map f) = ofFetch result := by
  cases result <;> rfl

/-- A failure is either that something is not there, or one of all others. -/
theorem ofFetch_cases {α : Type} (result : Except FetchError α) :
    ofFetch result = success ∨ ofFetch result = missing ∨ ofFetch result = http := by
  cases result with
  | ok => exact Or.inl rfl
  | error error =>
    simp only [ofFetch, FetchError.exitStatus]
    split
    · exact Or.inr (Or.inl rfl)
    · exact Or.inr (Or.inr rfl)

theorem known_contains_ofFetch {α : Type} (result : Except FetchError α) :
    known.contains (ofFetch result) = true := by
  rcases ofFetch_cases result with equal | equal | equal <;> rw [equal] <;> decide

theorem not_ofFetch_contains_general {α : Type} (result : Except FetchError α) :
    ¬ (ofFetch result).contains general = true := by
  rcases ofFetch_cases result with equal | equal | equal <;> rw [equal] <;> decide

theorem not_ofFetch_contains_noHandler {α : Type} (result : Except FetchError α) :
    ¬ (ofFetch result).contains noHandler = true := by
  rcases ofFetch_cases result with equal | equal | equal <;> rw [equal] <;> decide

theorem ok_of_ofFetch {α : Type} {result : Except FetchError α} (clean : ofFetch result = success) :
    ∃ value, result = .ok value := by
  cases result with
  | ok value => exact ⟨value, rfl⟩
  | error error =>
    simp only [ofFetch, FetchError.exitStatus] at clean
    split at clean
    · exact absurd clean (by decide)
    · exact absurd clean (by decide)

end ExitStatus

namespace Exchange

/-- The server says that it does not have what was asked for. -/
def IsMissing (exchange : Exchange) : Prop :=
  ∃ page, exchange.result = .ok page ∧ page.status = 404

/-- The page has come back whole. -/
def Yields (exchange : Exchange) (page : Page) : Prop :=
  exchange.result = .ok page ∧ isSuccessStatus page.status = true ∧ page.truncate = false

/-- Nothing has come back, or not the whole of it, or a status that tells of another failure. -/
def IsBroken (exchange : Exchange) : Prop :=
  (∃ error, exchange.result = .error error) ∨
    ∃ page, exchange.result = .ok page ∧ page.status ≠ 404 ∧
      (isSuccessStatus page.status = false ∨ page.truncate = true)

/-- The page that a request for a URL has brought, or why it has brought none. -/
def page (exchange : Exchange) (url : Url) : Except FetchError Page :=
  match exchange.result with
  | .error e => .error (.request e)
  | .ok page =>
    if !isSuccessStatus page.status then .error (.status page.status url)
    else if page.truncate then .error (.request .body)
    else .ok page

theorem fetched_result (exchange : Exchange) (url : Url) :
    (exchange.fetched url).result = (exchange.page url).map Page.body := by
  obtain ⟨result, requests⟩ := exchange
  cases result with
  | error => rfl
  | ok page =>
    simp only [fetched, Exchange.page]
    cases isSuccessStatus page.status with
    | false => rfl
    | true => cases page.truncate <;> rfl

/-- A request yields a page, or is answered that there is none, or is broken, never two of these. -/
inductive Ends (exchange : Exchange) (url : Url) : Prop
  | yields {page : Page} : exchange.Yields page → ¬ exchange.IsMissing → ¬ exchange.IsBroken →
      exchange.page url = .ok page → Ends exchange url
  | missing : exchange.IsMissing → ¬ exchange.IsBroken →
      exchange.page url = .error (.status 404 url) → Ends exchange url
  | broken {error : FetchError} : exchange.IsBroken → ¬ exchange.IsMissing →
      error.exitStatus = .http → exchange.page url = .error error → Ends exchange url

theorem ends (exchange : Exchange) (url : Url) : exchange.Ends url := by
  have noSuccess : isSuccessStatus 404 = false := by decide
  cases answer : exchange.result with
  | error error =>
    have status : (FetchError.request error).exitStatus = .http := rfl
    refine .broken (Or.inl ⟨error, answer⟩) ?_ status ?_
    · simp [IsMissing, answer]
    · simp only [page, answer]
  | ok page =>
    by_cases missing : page.status = 404
    · refine .missing ⟨page, answer, missing⟩ ?_ ?_
      · simp [IsBroken, answer, missing]
      · simp [Exchange.page, answer, missing, noSuccess]
    · have notMissing : ¬ exchange.IsMissing := by simp [IsMissing, answer, missing]
      cases success : isSuccessStatus page.status with
      | false =>
        have status : (FetchError.status page.status url).exitStatus = .http := by
          simp only [FetchError.exitStatus]
          split
          · exact absurd (FetchError.status.inj ‹_›).1 missing
          · rfl
        refine .broken (Or.inr ⟨page, answer, missing, Or.inl success⟩) notMissing status ?_
        simp [Exchange.page, answer, success]
      | true =>
        cases truncated : page.truncate with
        | true =>
          have status : (FetchError.request .body).exitStatus = .http := rfl
          refine .broken (Or.inr ⟨page, answer, missing, Or.inr truncated⟩) notMissing status ?_
          simp [Exchange.page, answer, success, truncated]
        | false =>
          refine .yields ⟨answer, success, truncated⟩ notMissing ?_ ?_
          · simp [IsBroken, answer, success, truncated]
          · simp [Exchange.page, answer, success, truncated]

variable {exchange : Exchange} {url : Url}

theorem page_ok_iff {page : Page} : exchange.page url = .ok page ↔ exchange.Yields page := by
  constructor
  · intro came
    cases exchange.ends url with
    | yields yields _ _ result =>
      rw [result] at came
      exact Except.ok.inj came ▸ yields
    | missing _ _ result => rw [result] at came; cases came
    | broken _ _ _ result => rw [result] at came; cases came
  · rintro ⟨answer, success, whole⟩
    simp [Exchange.page, answer, success, whole]

theorem page_missing_iff :
    (ExitStatus.ofFetch (exchange.page url)).contains .missing = true ↔ exchange.IsMissing := by
  cases exchange.ends url with
  | yields _ notMissing _ result =>
    rw [result, ExitStatus.ofFetch]
    exact iff_of_false (by decide) notMissing
  | missing missing _ result =>
    rw [result, ExitStatus.ofFetch, FetchError.exitStatus]
    exact iff_of_true (by decide) missing
  | broken _ notMissing status result =>
    rw [result, ExitStatus.ofFetch, status]
    exact iff_of_false (by decide) notMissing

theorem page_http_iff :
    (ExitStatus.ofFetch (exchange.page url)).contains .http = true ↔ exchange.IsBroken := by
  cases exchange.ends url with
  | yields _ _ notBroken result =>
    rw [result, ExitStatus.ofFetch]
    exact iff_of_false (by decide) notBroken
  | missing _ notBroken result =>
    rw [result, ExitStatus.ofFetch, FetchError.exitStatus]
    exact iff_of_false (by decide) notBroken
  | broken broken _ status result =>
    rw [result, ExitStatus.ofFetch, status]
    exact iff_of_true (by decide) broken

end Exchange

/-- The entries of the page of a playlist. -/
def Registry.entriesOf (registry : Registry) (url : Url) (page : Page) : List Entry :=
  (Handler.playlistEntries registry.naming url page.text).1

theorem Handler.resolveBy_playlist_result (registry : Registry) (get : Url → Exchange) (url : Url) :
    (playlist.resolveBy registry.naming get url).result =
      ((get url).page url).map (registry.entriesOf url) := by
  simp only [resolveBy, Exchange.page]
  cases (get url).result with
  | error => rfl
  | ok page =>
    simp only
    cases isSuccessStatus page.status with
    | false => rfl
    | true => cases page.truncate <;> rfl

namespace Registry

variable {registry : Registry} {get : Url → Exchange} {url : Url}

/-- The handler of playlists has the URL. -/
def IsPlaylist (registry : Registry) (url : Url) : Prop :=
  registry.find? url = some .playlist

theorem expand_siteBy {handler : Handler} (found : registry.find? url = some handler) :
    (registry.siteBy get).expand url = handler.resolveBy registry.naming get url := by
  have claimed : (registry.siteBy get).claims url = true := by
    simp only [siteBy, found, Option.isSome_some]
  rw [Site.expand, if_pos claimed, resolve_siteBy found]

theorem expand_playlist (isPlaylist : registry.IsPlaylist url) (get : Url → Exchange) :
    ((registry.siteBy get).expand url).result = ((get url).page url).map (registry.entriesOf url) := by
  rw [expand_siteBy isPlaylist, Handler.resolveBy_playlist_result]

/-- With built-in handlers, what is no playlist resolves to itself, or is unclaimed. -/
theorem BuiltIn.expand_other (builtIn : registry.BuiltIn) (get : Url → Exchange)
    (notPlaylist : ¬ registry.IsPlaylist url) :
    (registry.siteBy get).expand url =
      { result := .ok (if (registry.find? url).isSome then [.file url] else []) } := by
  cases found : registry.find? url with
  | none =>
    have unclaimed : ¬ (registry.siteBy get).claims url = true := by
      simp only [siteBy, found, Option.isSome_none, Bool.false_eq_true, not_false_eq_true]
    rw [Site.expand, if_neg unclaimed]
    rfl
  | some handler =>
    rcases builtIn handler (List.mem_of_find?_eq_some found) with playlist | direct
    · rw [playlist] at found
      exact absurd found notPlaylist
    · rw [expand_siteBy found, direct]
      rfl

theorem BuiltIn.ofFetch_expand (builtIn : registry.BuiltIn) (get : Url → Exchange)
    (notPlaylist : ¬ registry.IsPlaylist url) :
    ExitStatus.ofFetch ((registry.siteBy get).expand url).result = .success := by
  rw [builtIn.expand_other get notPlaylist, ExitStatus.ofFetch]

theorem BuiltIn.expand_missing_iff (builtIn : registry.BuiltIn) (get : Url → Exchange) (url : Url) :
    (ExitStatus.ofFetch ((registry.siteBy get).expand url).result).contains .missing = true ↔
      registry.IsPlaylist url ∧ (get url).IsMissing := by
  by_cases isPlaylist : registry.IsPlaylist url
  · rw [expand_playlist isPlaylist, ExitStatus.ofFetch_map, Exchange.page_missing_iff]
    exact (and_iff_right isPlaylist).symm
  · rw [builtIn.ofFetch_expand get isPlaylist]
    exact iff_of_false (by decide) fun both => isPlaylist both.1

theorem BuiltIn.expand_http_iff (builtIn : registry.BuiltIn) (get : Url → Exchange) (url : Url) :
    (ExitStatus.ofFetch ((registry.siteBy get).expand url).result).contains .http = true ↔
      registry.IsPlaylist url ∧ (get url).IsBroken := by
  by_cases isPlaylist : registry.IsPlaylist url
  · rw [expand_playlist isPlaylist, ExitStatus.ofFetch_map, Exchange.page_http_iff]
    exact (and_iff_right isPlaylist).symm
  · rw [builtIn.ofFetch_expand get isPlaylist]
    exact iff_of_false (by decide) fun both => isPlaylist both.1

/-- With built-in handlers, targets are named by playlists whose page has come, and only by them. -/
theorem BuiltIn.mem_children_iff (builtIn : registry.BuiltIn) (get : Url → Exchange)
    {url child : Url} :
    child ∈ (registry.siteBy get).children url ↔
      registry.IsPlaylist url ∧
        ∃ page, (get url).Yields page ∧ Entry.queue child ∈ registry.entriesOf url page := by
  rw [Site.children, Site.mem_targets]
  constructor
  · intro member
    by_cases isPlaylist : registry.IsPlaylist url
    · refine ⟨isPlaylist, ?_⟩
      rw [Site.entries, Resolution.entries, expand_playlist isPlaylist] at member
      cases came : (get url).page url with
      | error =>
        rw [came] at member
        cases member
      | ok page =>
        rw [came] at member
        exact ⟨page, Exchange.page_ok_iff.mp came, member⟩
    · rw [Site.entries, Resolution.entries, builtIn.expand_other get isPlaylist] at member
      split_ifs at member with claimed
      · cases List.mem_singleton.mp member
      · cases member
  · rintro ⟨isPlaylist, page, yields, member⟩
    rw [Site.entries, Resolution.entries, expand_playlist isPlaylist,
      Exchange.page_ok_iff.mpr yields]
    exact member

theorem fetch_result (registry : Registry) (get : Url → Exchange) (url : Url) :
    ((registry.siteBy get).fetch url).result = ((get url).page url).map Page.body :=
  Exchange.fetched_result (get url) url

theorem fetch_missing_iff (registry : Registry) (get : Url → Exchange) (url : Url) :
    (ExitStatus.ofFetch ((registry.siteBy get).fetch url).result).contains .missing = true ↔
      (get url).IsMissing := by
  rw [fetch_result, ExitStatus.ofFetch_map, Exchange.page_missing_iff]

theorem fetch_http_iff (registry : Registry) (get : Url → Exchange) (url : Url) :
    (ExitStatus.ofFetch ((registry.siteBy get).fetch url).result).contains .http = true ↔
      (get url).IsBroken := by
  rw [fetch_result, ExitStatus.ofFetch_map, Exchange.page_http_iff]

theorem fetch_ok_iff {bytes : Bytes} :
    ((registry.siteBy get).fetch url).result = .ok bytes ↔
      ∃ page, (get url).Yields page ∧ page.body = bytes := by
  rw [fetch_result]
  constructor
  · intro came
    cases result : (get url).page url with
    | error =>
      rw [result] at came
      cases came
    | ok page =>
      rw [result] at came
      exact ⟨page, Exchange.page_ok_iff.mp result, Except.ok.inj came⟩
  · rintro ⟨page, yields, rfl⟩
    rw [Exchange.page_ok_iff.mpr yields]
    rfl

theorem not_claims_iff : (registry.siteBy get).claims url = false ↔ registry.find? url = none := by
  simp only [siteBy, Option.isSome_eq_false_iff, Option.isNone_iff_eq_none]

end Registry

end BatchFetch
