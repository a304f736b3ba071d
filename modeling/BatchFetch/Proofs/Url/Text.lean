import BatchFetch.Proofs.Url.Served

namespace BatchFetch

namespace Authority

/-- The port of an authority behind a colon. -/
def portText (authority : Authority) : List Char :=
  Text.behind ':' (authority.port.map (Nat.toDigits 10))

/-- The user name and the password, parted by a colon. -/
def userText (authority : Authority) : List Char :=
  authority.username.toList ++
    Text.behind ':' (if authority.password = "" then none else some authority.password.toList)

theorem text_toList (authority : Authority) :
    authority.text.toList =
      (if authority.username = "" ∧ authority.password = "" then [] else authority.userText ++ ['@']) ++
        (authority.host.text.toList ++ authority.portText) := by
  have port : ((authority.port.map fun n => s!":{n}").getD "").toList = authority.portText := by
    rw [portText]
    cases authority.port with
    | none => rfl
    | some n =>
      simp only [Option.map_some, Option.getD_some, Text.behind, String.toList_append]
      rw [Text.toList_toString]
      rfl
  have user : authority.userinfo.toList =
      if authority.username = "" ∧ authority.password = "" then []
      else authority.userText ++ ['@'] := by
    rw [userinfo, userText]
    simp only [Bool.and_eq_true, String.isEmpty_iff]
    split_ifs <;> simp [Text.behind]
  rw [text, String.toList_append, String.toList_append, port, user, List.append_assoc]

theorem not_mem_portText {c : Char} (strange : c ∉ ':' :: (List.range 16).map Nat.digitChar)
    (authority : Authority) : c ∉ authority.portText := by
  intro member
  rw [portText] at member
  cases port : authority.port with
  | none =>
    rw [port] at member
    cases member
  | some n =>
    rw [port] at member
    rcases List.mem_cons.mp member with rfl | digit
    · exact strange List.mem_cons_self
    · exact strange (List.mem_cons_of_mem _ (Text.mem_toDigits (by decide) (by decide) c digit))

theorem port_inj {authority other : Authority} (equal : authority.portText = other.portText) :
    authority.port = other.port := by
  have bare : ':' ∉ ([] : List Char) := List.not_mem_nil
  have same := (Text.append_behind_inj bare bare equal).2
  exact Option.map_injective (fun _ _ => Text.toDigits_inj (by decide) (by decide)) same

/-- A host and a port are known from their text. -/
theorem Proper.place_inj {authority other : Authority} (proper : authority.Proper)
    (properToo : other.Proper)
    (equal : authority.host.text.toList ++ authority.portText =
      other.host.text.toList ++ other.portText) :
    authority.host = other.host ∧ authority.port = other.port := by
  have noBracket (a : Authority) : '[' ∉ a.portText := not_mem_portText (by decide +kernel) a
  have starts (groups : List Nat) : '[' ∈ (Host.ipv6 groups).text.toList := by
    rw [Host.ipv6_toList]
    exact List.mem_cons_self
  rcases proper.host.cases_text with ⟨noColon, plain⟩ | ⟨groups, host, _⟩
  · rcases properToo.host.cases_text with ⟨noColonToo, _⟩ | ⟨groups, host, _⟩
    · obtain ⟨texts, ports⟩ := Text.append_behind_inj noColon noColonToo equal
      refine ⟨proper.host.text_inj properToo.host (String.toList_inj.mp texts), port_inj ?_⟩
      rw [portText, portText, ports]
    · have inside : '[' ∈ authority.host.text.toList ++ authority.portText := by
        rw [equal, host]
        exact List.mem_append_left _ (starts groups)
      exact absurd (List.mem_append.mp inside) (not_or.mpr ⟨plain, noBracket _⟩)
  · rcases properToo.host.cases_text with ⟨_, plainToo⟩ | ⟨others, hostToo, _⟩
    · have inside : '[' ∈ other.host.text.toList ++ other.portText := by
        rw [← equal, host]
        exact List.mem_append_left _ (starts groups)
      exact absurd (List.mem_append.mp inside) (not_or.mpr ⟨plainToo, noBracket _⟩)
    · have noEnd (gs : List Nat) : ']' ∉ (Host.ipv6Text gs).toList := fun member =>
        absurd (Host.mem_ipv6Text member) (by decide +kernel)
      have shape (gs : List Nat) (port : List Char) : (Host.ipv6 gs).text.toList ++ port =
          '[' :: ((Host.ipv6Text gs).toList ++ ']' :: port) := by
        rw [Host.ipv6_toList, List.cons_append, List.append_assoc, List.singleton_append]
      rw [host, hostToo, shape, shape] at equal
      obtain ⟨texts, ports⟩ :=
        Text.append_sep_inj (noEnd groups) (noEnd others) (List.cons.inj equal).2
      refine ⟨proper.host.text_inj properToo.host ?_, port_inj ports⟩
      rw [host, hostToo]
      exact String.toList_inj.mp (by rw [Host.ipv6_toList, Host.ipv6_toList, texts])

theorem Proper.not_mem_userText {authority : Authority} (proper : authority.Proper) {c : Char}
    (cut : c ∈ '@' :: Url.cuts) : c ∉ authority.userText := by
  have notColon : ∀ c ∈ '@' :: Url.cuts, c ≠ ':' ∧ c ∈ '@' :: ':' :: Url.cuts :=
    List.all_iff_forall_prop.mp (by decide +kernel)
  obtain ⟨other, listed⟩ := notColon c cut
  intro member
  rcases List.mem_append.mp member with name | behind
  · exact proper.username c listed name
  · split_ifs at behind
    · cases behind
    · rcases List.mem_cons.mp behind with colon | word
      · exact other colon
      · exact proper.password c listed word

theorem Proper.not_mem_place {authority : Authority} (proper : authority.Proper) {c : Char}
    (cut : c ∈ '@' :: Url.cuts) : c ∉ authority.host.text.toList ++ authority.portText := by
  have known : ∀ c ∈ '@' :: Url.cuts, Host.isDenied c = true ∧ c ∉ [':', '[', ']'] ∧
      c ∉ ':' :: (List.range 16).map Nat.digitChar :=
    List.all_iff_forall_prop.mp (by decide +kernel)
  obtain ⟨denied, other, strange⟩ := known c cut
  rw [List.mem_append, not_or]
  exact ⟨proper.host.not_mem_text denied other, not_mem_portText strange authority⟩

theorem Proper.not_mem_text {authority : Authority} (proper : authority.Proper) {c : Char}
    (cut : c ∈ Url.cuts) : c ∉ authority.text.toList := by
  have notAt : ∀ c ∈ Url.cuts, c ≠ '@' := List.all_iff_forall_prop.mp (by decide +kernel)
  have listed : c ∈ '@' :: Url.cuts := List.mem_cons_of_mem _ cut
  rw [text_toList, List.mem_append, not_or]
  refine ⟨?_, proper.not_mem_place listed⟩
  split_ifs
  · exact List.not_mem_nil
  · rw [List.mem_append, List.mem_singleton, not_or]
    exact ⟨proper.not_mem_userText listed, notAt c cut⟩

theorem Proper.user_inj {authority other : Authority} (proper : authority.Proper)
    (properToo : other.Proper) (equal : authority.userText = other.userText) :
    authority.username = other.username ∧ authority.password = other.password := by
  have listed : ':' ∈ '@' :: ':' :: Url.cuts := by decide +kernel
  obtain ⟨name, word⟩ := Text.append_behind_inj (proper.username ':' listed)
    (properToo.username ':' listed) equal
  refine ⟨String.toList_inj.mp name, ?_⟩
  split_ifs at word with empty emptyToo
  · rw [empty, emptyToo]
  · exact String.toList_inj.mp (Option.some.inj word)

theorem Proper.text_inj {authority other : Authority} (proper : authority.Proper)
    (properToo : other.Proper) (equal : authority.text = other.text) : authority = other := by
  have lists := congrArg String.toList equal
  rw [text_toList, text_toList] at lists
  have whole (user : authority.username = other.username ∧ authority.password = other.password)
      (place : authority.host = other.host ∧ authority.port = other.port) : authority = other := by
    obtain ⟨_, _, _, _⟩ := authority
    obtain ⟨_, _, _, _⟩ := other
    simp only [mk.injEq]
    exact ⟨user.1, user.2, place.1, place.2⟩
  have noAt (a : Authority) (proper : a.Proper) : '@' ∉ a.host.text.toList ++ a.portText :=
    proper.not_mem_place List.mem_cons_self
  split_ifs at lists with empty emptyToo emptyToo
  · refine whole ?_ (proper.place_inj properToo lists)
    rw [empty.1, empty.2, emptyToo.1, emptyToo.2]
    exact ⟨rfl, rfl⟩
  · refine absurd ?_ (noAt authority proper)
    rw [List.nil_append] at lists
    rw [lists]
    simp
  · refine absurd ?_ (noAt other properToo)
    rw [List.nil_append] at lists
    rw [← lists]
    simp
  · rw [List.append_assoc, List.append_assoc, List.singleton_append, List.singleton_append] at lists
    obtain ⟨users, places⟩ := Text.append_sep_inj (proper.not_mem_userText List.mem_cons_self)
      (properToo.not_mem_userText List.mem_cons_self) lists
    exact whole (proper.user_inj properToo users) (proper.place_inj properToo places)

end Authority

namespace Url

/-- The path of a list of segments. -/
def pathText (segments : List String) : List Char :=
  segments.flatMap fun segment => '/' :: segment.toList

theorem pathText_eq {segments : List String} (some : segments ≠ []) :
    pathText segments = '/' :: ['/'].intercalate (segments.map String.toList) := by
  induction segments with
  | nil => exact absurd rfl some
  | cons first rest ih =>
    rw [pathText, List.flatMap_cons, List.cons_append, List.map_cons]
    cases rest with
    | nil => rw [List.flatMap_nil, List.append_nil, List.map_nil, List.intercalate_singleton]
    | cons second more =>
      have later := ih (List.cons_ne_nil _ _)
      rw [pathText] at later
      rw [later, List.map_cons, List.intercalate_cons_cons, List.append_assoc, List.singleton_append]

theorem pathText_inj {segments others : List String} (some : segments ≠ []) (someToo : others ≠ [])
    (areSegments : ∀ segment ∈ segments, IsSegment segment)
    (areSegmentsToo : ∀ segment ∈ others, IsSegment segment)
    (equal : ['/'].intercalate (segments.map String.toList) =
      ['/'].intercalate (others.map String.toList)) : segments = others := by
  have noSlash {list : List String} (areSegments : ∀ segment ∈ list, IsSegment segment) :
      ∀ part ∈ list.map String.toList, '/' ∉ part := by
    intro part member
    obtain ⟨segment, inList, rfl⟩ := List.mem_map.mp member
    exact areSegments segment inList '/' (by decide)
  have cut := Text.pieces_intercalate (noSlash areSegments) (mt List.map_eq_nil_iff.mp some)
  rw [equal, Text.pieces_intercalate (noSlash areSegmentsToo) (mt List.map_eq_nil_iff.mp someToo)]
    at cut
  exact List.map_injective_iff.mpr (fun _ _ => String.toList_inj.mp) cut.symm

theorem not_mem_pathText {segments : List String}
    (areSegments : ∀ segment ∈ segments, IsSegment segment) {c : Char} (cut : c ∈ cuts)
    (other : c ≠ '/') : c ∉ pathText segments := by
  intro member
  obtain ⟨segment, inSegments, inside⟩ := List.mem_flatMap.mp member
  rcases List.mem_cons.mp inside with slash | inside
  · exact other slash
  · have listed : c ∈ notInSegments := List.mem_cons_of_mem _ (List.mem_cons_of_mem _ cut)
    exact areSegments segment inSegments c listed inside

/-- The text of a URL up to its query. -/
def frontText (scheme : String) (authority : Authority) (segments : List String) : List Char :=
  scheme.toList ++ ':' :: '/' :: '/' :: (authority.text.toList ++ pathText segments)

theorem text_toList {url : Url} {authority : Authority} {segments : List String}
    (served : url.authority = some authority) (route : url.route = .segments segments) :
    url.text.toList =
      frontText url.scheme authority segments ++ Text.behind '?' (url.query.map String.toList) ++
        Text.behind '#' (url.fragment.map String.toList) := by
  have marked (mark : String) (c : Char) (single : mark.toList = [c]) (part : Option String) :
      ((part.map (mark ++ ·)).getD "").toList = Text.behind c (part.map String.toList) := by
    cases part with
    | none => rfl
    | some text =>
      rw [Option.map_some, Option.getD_some, String.toList_append, single]
      rfl
  have path : url.path.toList = pathText segments := by
    rw [Url.path, route, String.toList_join, List.flatMap_map, pathText]
    congr 1
    funext segment
    rw [String.toList_append]
    rfl
  rw [text, String.toList_append, String.toList_append, marked "?" '?' rfl, marked "#" '#' rfl,
    served, String.toList_append, path, String.toList_append, String.toList_append,
    String.toList_append, frontText]
  simp

theorem scheme_free {url : Url} (http : url.isHttp = true) :
    ∀ c ∈ ':' :: cuts, c ∉ url.scheme.toList := by
  rw [isHttp, Bool.or_eq_true, beq_iff_eq, beq_iff_eq] at http
  rcases http with equal | equal <;> rw [equal] <;>
    exact List.all_iff_forall_prop.mp (by decide +kernel)

theorem not_mem_frontText {url : Url} (http : url.isHttp = true) {authority : Authority}
    (proper : authority.Proper) {segments : List String}
    (areSegments : ∀ segment ∈ segments, IsSegment segment) {c : Char} (cut : c ∈ cuts)
    (other : c ≠ '/') : c ∉ frontText url.scheme authority segments := by
  have notColon : ∀ c ∈ cuts, c ≠ ':' := List.all_iff_forall_prop.mp (by decide +kernel)
  have inScheme := scheme_free http c (List.mem_cons_of_mem _ cut)
  have inAuthority := proper.not_mem_text cut
  have inPath := not_mem_pathText areSegments cut other
  simp only [frontText, List.mem_append, List.mem_cons, not_or]
  exact ⟨inScheme, notColon c cut, other, other, inAuthority, inPath⟩

theorem Served.text_inj {url other : Url} (served : url.Served) (servedToo : other.Served)
    (equal : url.text = other.text) : url = other := by
  obtain ⟨authority, hasAuthority, proper⟩ := served.authority
  obtain ⟨authorityToo, hasAuthorityToo, properToo⟩ := servedToo.authority
  obtain ⟨segments, route, some, areSegments⟩ := served.route
  obtain ⟨others, routeToo, someToo, areSegmentsToo⟩ := servedToo.route
  have lists := congrArg String.toList equal
  rw [text_toList hasAuthority route, text_toList hasAuthorityToo routeToo] at lists
  have noMark {url : Url} (served : url.Served) {front : List Char} (free : '#' ∉ front) :
      '#' ∉ front ++ Text.behind '?' (url.query.map String.toList) := by
    rw [List.mem_append, not_or]
    refine ⟨free, ?_⟩
    cases query : url.query with
    | none => exact List.not_mem_nil
    | some text =>
      rw [Option.map_some, Text.behind, List.mem_cons, not_or]
      exact ⟨by decide, served.query text query⟩
  have free {c : Char} (cut : c ∈ cuts) (notSlash : c ≠ '/') :
      c ∉ frontText url.scheme authority segments :=
    not_mem_frontText served.http proper areSegments cut notSlash
  have freeToo {c : Char} (cut : c ∈ cuts) (notSlash : c ≠ '/') :
      c ∉ frontText other.scheme authorityToo others :=
    not_mem_frontText servedToo.http properToo areSegmentsToo cut notSlash
  -- From the back: the fragment, the query, then the scheme in front, the authority and the path.
  obtain ⟨lists, fragments⟩ := Text.append_behind_inj
    (noMark served (free (by decide) (by decide)))
    (noMark servedToo (freeToo (by decide) (by decide))) lists
  obtain ⟨fronts, queries⟩ := Text.append_behind_inj (free (by decide) (by decide))
    (freeToo (by decide) (by decide)) lists
  obtain ⟨schemes, rest⟩ := Text.append_sep_inj (scheme_free served.http ':' List.mem_cons_self)
    (scheme_free servedToo.http ':' List.mem_cons_self) fronts
  have places := List.append_cancel_left (show ['/', '/'] ++ _ = ['/', '/'] ++ _ from rest)
  rw [pathText_eq some, pathText_eq someToo] at places
  obtain ⟨authorities, paths⟩ := Text.append_sep_inj (proper.not_mem_text List.mem_cons_self)
    (properToo.not_mem_text List.mem_cons_self) places
  have sameAuthority : authority = authorityToo :=
    proper.text_inj properToo (String.toList_inj.mp authorities)
  have samePath : segments = others := pathText_inj some someToo areSegments areSegmentsToo paths
  have optional {a b : Option String} (same : a.map String.toList = b.map String.toList) : a = b :=
    Option.map_injective (fun _ _ => String.toList_inj.mp) same
  rw [samePath, ← routeToo] at route
  rw [sameAuthority, ← hasAuthorityToo] at hasAuthority
  obtain ⟨_, _, _, _, _⟩ := url
  obtain ⟨_, _, _, _, _⟩ := other
  simp only [mk.injEq]
  exact ⟨String.toList_inj.mp schemes, hasAuthority, route, optional queries, optional fragments⟩

end Url
end BatchFetch
