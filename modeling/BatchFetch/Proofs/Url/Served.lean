import BatchFetch.Proofs.Url.HostText
import BatchFetch.Url.Reference

namespace BatchFetch

namespace Percent

/-- The characters that escapes are written with. -/
def escapeChars : List Char :=
  '%' :: (List.range 16).map hexDigit

theorem mem_byte {b : UInt8} {c : Char} (member : c ∈ byte b) : c ∈ escapeChars := by
  have digit {n : Nat} (small : n < 16) : hexDigit n ∈ escapeChars :=
    List.mem_cons_of_mem _ (List.mem_map_of_mem (List.mem_range.mpr small))
  have size : b.toNat < 256 := b.toNat_lt
  simp only [byte, List.mem_cons, List.not_mem_nil, or_false] at member
  rcases member with rfl | rfl | rfl
  · exact List.mem_cons_self
  · exact digit (by omega)
  · exact digit (by omega)

theorem mem_encode {set text : List Char} {c : Char} (member : c ∈ encode set text) :
    c ∈ escapeChars ∨ (c ∈ text ∧ c ∉ set) := by
  obtain ⟨d, inText, member⟩ := List.mem_flatMap.mp member
  split_ifs at member with escaped
  · obtain ⟨b, _, member⟩ := List.mem_flatMap.mp member
    exact Or.inl (mem_byte member)
  · rw [List.mem_singleton.mp member]
    simp only [Bool.or_eq_true, not_or] at escaped
    exact Or.inr ⟨inText, by simpa using escaped.2⟩

theorem not_mem_encode {set text : List Char} {c : Char} (strange : c ∉ escapeChars)
    (left : c ∈ set ∨ c ∉ text) : c ∉ encode set text := by
  intro member
  rcases mem_encode member with escape | ⟨inText, notInSet⟩
  · exact strange escape
  · exact left.elim notInSet fun absent => absent inText

end Percent

/-- The characters at which a URL behind its scheme is cut into its parts. -/
def Url.cuts : List Char := ['/', '?', '#']

theorem Url.not_escape : ∀ c ∈ '@' :: ':' :: Url.cuts, c ∉ Percent.escapeChars :=
  List.all_iff_forall_prop.mp (by decide +kernel)

namespace Authority

/-- An authority as the parser makes it for a scheme whose hosts are looked up. -/
structure Proper (authority : Authority) : Prop where
  username : ∀ c ∈ '@' :: ':' :: Url.cuts, c ∉ authority.username.toList
  password : ∀ c ∈ '@' :: ':' :: Url.cuts, c ∉ authority.password.toList
  host : authority.host.Proper

end Authority

namespace Url

theorem cutCredentials_free (text : List Char) : ∀ c ∈ '@' :: ':' :: cuts,
    c ∉ (cutCredentials text).1.toList ∧ c ∉ (cutCredentials text).2.1.toList := by
  intro c cut
  have encoded (part : List Char) :
      c ∉ (String.ofList (Percent.encode Percent.userinfoSet part)).toList := by
    have inSet : ∀ c ∈ '@' :: ':' :: cuts, c ∈ Percent.userinfoSet :=
      List.all_iff_forall_prop.mp (by decide +kernel)
    rw [String.toList_ofList]
    exact Percent.not_mem_encode (not_escape c cut) (Or.inl (inSet c cut))
  have empty : c ∉ "".toList := List.not_mem_nil
  rw [cutCredentials]
  split
  · exact ⟨empty, empty⟩
  · split
    · exact ⟨encoded _, encoded _⟩
    · exact ⟨encoded _, empty⟩

theorem parseAuthority_proper {naming : Host.Naming} {scheme : String} {text : List Char}
    {authority : Authority}
    (special : isSpecialScheme scheme = true) (read : parseAuthority naming scheme text = .ok authority) :
    authority.Proper := by
  rw [parseAuthority] at read
  simp only [special, if_true] at read
  obtain ⟨host, hostRead, read⟩ := ok_of_bind read
  have proper (port : Option Nat) :
      Authority.Proper ⟨(cutCredentials text).1, (cutCredentials text).2.1, host, port⟩ :=
    ⟨fun c cut => (cutCredentials_free text c cut).1, fun c cut => (cutCredentials_free text c cut).2,
      Host.parse_proper hostRead⟩
  split_ifs at read
  · cases read
  · split at read
    · cases read
      exact proper none
    · obtain ⟨port, _, read⟩ := ok_of_bind read
      cases read
      exact proper port

/-- The characters that are never written in a segment of a path: it would end there, or they are
written as escapes. -/
def notInSegments : List Char := '\x7b' :: '\x7d' :: cuts

/-- A segment of a path. -/
def IsSegment (name : String) : Prop :=
  ∀ c ∈ notInSegments, c ∉ name.toList

/-- A URL of a server as the parser makes it. -/
structure Served (url : Url) : Prop where
  http : url.isHttp = true
  authority : ∃ authority, url.authority = some authority ∧ authority.Proper
  route : ∃ segments, url.route = .segments segments ∧ segments ≠ [] ∧
    ∀ segment ∈ segments, IsSegment segment
  query : ∀ query, url.query = some query → '#' ∉ query.toList

theorem cutTail_query {special : Bool} {text : List Char} {query : String}
    (cut : (cutTail special text).2.query = some query) : '#' ∉ query.toList := by
  have encoded (part : List Char) : '#' ∉ (String.ofList (Percent.encode
      (if special then Percent.specialQuerySet else Percent.querySet) part)).toList := by
    rw [String.toList_ofList]
    refine Percent.not_mem_encode (by decide +kernel) (Or.inl ?_)
    split_ifs <;> decide +kernel
  revert cut
  rw [cutTail]
  -- With a fragment or without one, the query is cut off what is in front.
  cases Text.cutFirst '#' text
  all_goals
    intro cut
    simp only at cut
    split at cut
    · rw [← Option.some.inj cut]
      exact encoded _
    · cases cut

/-- Steps enter segments only. -/
def AreSteps (steps : List PathStep) : Prop :=
  ∀ name, PathStep.enter name ∈ steps → IsSegment name

theorem isSegment_empty : IsSegment "" := fun _ _ => List.not_mem_nil

theorem isSegment_append {first second : String} :
    IsSegment (first ++ second) ↔ IsSegment first ∧ IsSegment second := by
  simp only [IsSegment, String.toList_append, List.mem_append, not_or, forall_and]

theorem pathSteps_areSteps (special : Bool) (text : List Char) :
    AreSteps (pathSteps special text) := by
  have known : ∀ c ∈ notInSegments, c ∉ Percent.escapeChars ∧ (c = '/' ∨ c ∈ Percent.pathSet) :=
    List.all_iff_forall_prop.mp (by decide +kernel)
  intro name member c strange
  obtain ⟨piece, inPieces, step⟩ := List.mem_map.mp member
  have same : name = String.ofList (Percent.encode Percent.pathSet piece) := by
    simp only [pathStep] at step
    split at step
    case h_7 => exact (PathStep.enter.inj step).symm
    all_goals cases step
  obtain ⟨noEscape, slash | inSet⟩ := known c strange
  · rw [same, String.toList_ofList]
    exact Percent.not_mem_encode noEscape (Or.inr (slash ▸ Text.not_mem_of_mem_pieces inPieces))
  · rw [same, String.toList_ofList]
    exact Percent.not_mem_encode noEscape (Or.inl inSet)

theorem pathSteps_ne_nil (special : Bool) (text : List Char) : pathSteps special text ≠ [] := by
  rw [pathSteps, ne_eq, List.map_eq_nil_iff]
  exact Text.pieces_ne_nil _ _

theorem pathAfter_areSteps (text : List Char) : AreSteps (pathAfter true text) := by
  cases text with
  | nil =>
    intro name member
    cases List.mem_singleton.mp member
    exact isSegment_empty
  | cons _ rest => exact pathSteps_areSteps true rest

theorem pathAfter_ne_nil (text : List Char) : pathAfter true text ≠ [] := by
  cases text with
  | nil => exact List.cons_ne_nil _ _
  | cons _ rest => exact pathSteps_ne_nil true rest

theorem walk_segments {segments : List String} {steps : List PathStep}
    (before : ∀ segment ∈ segments, IsSegment segment) (areSteps : AreSteps steps) :
    ∀ segment ∈ walk segments steps, IsSegment segment := by
  have later {step : PathStep} {rest : List PathStep} (areSteps : AreSteps (step :: rest)) :
      AreSteps rest := fun name member => areSteps name (List.mem_cons_of_mem _ member)
  have dropped {segments : List String} (before : ∀ segment ∈ segments, IsSegment segment) :
      ∀ segment ∈ segments.dropLast, IsSegment segment := fun segment member =>
    before segment (List.dropLast_subset _ member)
  have ended {segments : List String} {last : String}
      (before : ∀ segment ∈ segments, IsSegment segment) (isSegment : IsSegment last) :
      ∀ segment ∈ segments ++ [last], IsSegment segment := by
    intro segment member
    rcases List.mem_append.mp member with inside | same
    · exact before segment inside
    · exact List.mem_singleton.mp same ▸ isSegment
  fun_induction walk segments steps with
  | case1 => exact before
  | case2 => exact ended (dropped before) isSegment_empty
  | case3 => exact ended before isSegment_empty
  | case4 _ _ _ ih => exact ih (dropped before) (later areSteps)
  | case5 _ _ _ ih => exact ih before (later areSteps)
  | case6 _ name _ ih =>
    exact ih (ended before (areSteps name List.mem_cons_self)) (later areSteps)

theorem walk_ne_nil {segments : List String} {steps : List PathStep}
    (some : segments ≠ [] ∨ steps ≠ []) : walk segments steps ≠ [] := by
  fun_induction walk segments steps with
  | case1 => exact some.resolve_right fun differs => differs rfl
  | case2 => simp
  | case3 => simp
  | case4 _ _ more ih => exact ih (Or.inr more)
  | case5 _ _ more ih => exact ih (Or.inr more)
  | case6 _ _ _ ih => exact ih (Or.inl (by simp))

theorem route_of_steps {segments : List String} {steps : List PathStep}
    (before : ∀ segment ∈ segments, IsSegment segment) (areSteps : AreSteps steps)
    (some : steps ≠ []) :
    ∃ list, Route.segments (walk segments steps) = .segments list ∧ list ≠ [] ∧
      ∀ segment ∈ list, IsSegment segment :=
  ⟨_, rfl, walk_ne_nil (Or.inr some), walk_segments before areSteps⟩

theorem special_of_isHttp {url : Url} (http : url.isHttp = true) :
    isSpecialScheme url.scheme = true ∧ url.scheme ≠ "file" := by
  rw [isHttp, Bool.or_eq_true, beq_iff_eq, beq_iff_eq] at http
  rcases http with equal | equal <;> rw [equal] <;> decide

theorem parseServer_scheme {naming : Host.Naming} {scheme : String} {text : List Char} {url : Url}
    (read : parseServer naming scheme text = .ok url) : url.scheme = scheme := by
  obtain ⟨_, _, read⟩ := ok_of_bind read
  cases read
  rfl

theorem parseServer_served {naming : Host.Naming} {scheme : String} {text : List Char} {url : Url}
    (read : parseServer naming scheme text = .ok url) (http : url.isHttp = true) : url.Served := by
  obtain ⟨special, _⟩ := special_of_isHttp http
  rw [parseServer_scheme read] at special
  rw [parseServer, special] at read
  obtain ⟨authority, authorityRead, read⟩ := ok_of_bind read
  cases read
  refine ⟨http, ⟨authority, rfl, parseAuthority_proper special authorityRead⟩, ?_,
    fun query => cutTail_query⟩
  exact route_of_steps (fun _ absent => absurd absent List.not_mem_nil) (pathAfter_areSteps _)
    (pathAfter_ne_nil _)

theorem parseFile_scheme {naming : Host.Naming} {text : List Char} {url : Url}
    (read : parseFile naming text = .ok url) : url.scheme = "file" := by
  simp only [parseFile] at read
  split at read
  · split at read
    · cases read
      rfl
    · obtain ⟨_, _, read⟩ := ok_of_bind read
      cases read
      rfl
  · split at read
    · cases read
      rfl
    · cases read
      rfl

theorem parseOther_scheme {naming : Host.Naming} {scheme : String} {text : List Char} {url : Url}
    (read : parseOther naming scheme text = .ok url) : url.scheme = scheme := by
  rw [parseOther.eq_def] at read
  split at read
  · exact parseServer_scheme read
  · cases read
    rfl

theorem parseScheme_served {naming : Host.Naming} {scheme : String} {text : List Char} {url : Url}
    (read : parseScheme naming scheme text = .ok url) (http : url.isHttp = true) : url.Served := by
  obtain ⟨special, notFile⟩ := special_of_isHttp http
  rw [parseScheme] at read
  split_ifs at read with isFile isSpecial
  · exact absurd (parseFile_scheme read) notFile
  · exact parseServer_served read http
  · rw [parseOther_scheme read] at special
    exact absurd special isSpecial

/-- A URL that stands by itself. -/
theorem parse_served {naming : Host.Naming} {text : String} {url : Url}
    (read : parse text naming = .ok url) (http : url.isHttp = true) : url.Served := by
  rw [parse, parseChars] at read
  split at read
  · exact parseScheme_served read http
  · cases read

end Url

namespace Reference

open Url

/-- The query of a tail does not reach into the fragment. -/
def Cut (tail : Tail) : Prop :=
  ∀ query, tail.query = some query → '#' ∉ query.toList

/-- A reference as the parser makes it from the URL of a server. -/
inductive Proper : Reference → Prop
  | whole {url : Url} : (url.isHttp = true → url.Served) → Proper (.whole url)
  | network {authority : Authority} {steps : List PathStep} {tail : Tail} : authority.Proper →
      AreSteps steps → steps ≠ [] → Cut tail → Proper (.network authority steps tail)
  | rooted {steps : List PathStep} {tail : Tail} : AreSteps steps → steps ≠ [] → Cut tail →
      Proper (.rooted steps tail)
  | relative {steps : List PathStep} {tail : Tail} : AreSteps steps → steps ≠ [] → Cut tail →
      Proper (.relative steps tail)
  | query {tail : Tail} : Cut tail → Proper (.query tail)
  | fragment (fragment : Option String) : Proper (.fragment fragment)

theorem parseRelative_proper {naming : Host.Naming} {base : Url} {text : List Char} {reference : Reference}
    (http : base.isHttp = true) (read : parseRelative naming base.scheme text = .ok reference) :
    reference.Proper := by
  obtain ⟨special, notFile⟩ := special_of_isHttp http
  rw [parseRelative, special] at read
  have cut : Cut (cutTail true text).2 := fun query => cutTail_query
  simp only at read
  split at read
  · split at read
    · cases read
      exact .fragment _
    · cases read
      exact .query cut
  · split_ifs at read
    · obtain ⟨authority, authorityRead, rfl⟩ := ok_of_map read
      exact .network (parseAuthority_proper special authorityRead) (pathAfter_areSteps _)
        (pathAfter_ne_nil _) cut
    · cases read
      exact .rooted (pathSteps_areSteps true _) (pathSteps_ne_nil true _) cut
    · cases read
      exact .relative (pathSteps_areSteps true _) (pathSteps_ne_nil true _) cut

theorem parse_proper {naming : Host.Naming} {base : Url} {text : String} {reference : Reference}
    (http : base.isHttp = true) (read : parse naming base.scheme text = .ok reference) :
    reference.Proper := by
  simp only [parse] at read
  split at read
  · exact parseRelative_proper http read
  · split_ifs at read
    · exact parseRelative_proper http read
    · obtain ⟨url, urlRead, rfl⟩ := ok_of_map read
      exact .whole (parseScheme_served urlRead)

theorem follow_of_isHttp {base : Url} (http : base.isHttp = true) (segments : List String)
    (steps : List PathStep) :
    follow base.scheme segments steps = .segments (walk segments steps) := by
  rw [follow, if_neg (special_of_isHttp http).2]

theorem resolve_served {base : Url} {reference : Reference} (served : base.Served)
    (proper : reference.Proper) (http : (resolve base reference).isHttp = true) :
    (resolve base reference).Served := by
  have start : ∀ segment ∈ ([] : List String), IsSegment segment :=
    fun _ absent => absurd absent List.not_mem_nil
  cases proper with
  | whole isServed => exact isServed http
  | network authority areSteps some cut =>
    refine ⟨http, ⟨_, rfl, authority⟩, ?_, cut⟩
    rw [resolve, follow_of_isHttp served.http]
    exact route_of_steps start areSteps some
  | rooted areSteps some cut =>
    refine ⟨http, served.authority, ?_, cut⟩
    rw [resolve, follow_of_isHttp served.http]
    exact route_of_steps start areSteps some
  | relative areSteps some cut =>
    refine ⟨http, served.authority, ?_, cut⟩
    obtain ⟨list, route, _, areSegments⟩ := served.route
    have inFolder : ∀ segment ∈ folder base, IsSegment segment := by
      intro segment member
      rw [folder, route] at member
      exact areSegments segment (List.dropLast_subset _ member)
    rw [resolve, follow_of_isHttp served.http]
    exact route_of_steps inFolder areSteps some
  | query cut => exact ⟨http, served.authority, served.route, cut⟩
  | fragment _ => exact ⟨http, served.authority, served.route, served.query⟩

end Reference

namespace Url

/-- What a text names from the URL of a server is the URL of a server, if it is one for `http`. -/
theorem Served.join {naming : Host.Naming} {base url : Url} (served : base.Served) {text : String}
    (read : base.join text naming = .ok url) (http : url.isHttp = true) : url.Served := by
  obtain ⟨segments, route, _⟩ := served.route
  have notOpaque : base.isOpaque = false := by rw [isOpaque, route]
  rw [Url.join, notOpaque] at read
  obtain ⟨reference, referenceRead, rfl⟩ := ok_of_map read
  exact Reference.resolve_served served (Reference.parse_proper served.http referenceRead) http

/-- A URL that is read from a text, by itself or as what the text names from such a URL, with any
naming of its host. -/
inductive IsRead : Url → Prop
  | parse {naming : Host.Naming} {text : String} {url : Url} :
      Url.parse text naming = .ok url → IsRead url
  | join {naming : Host.Naming} {base url : Url} {text : String} :
      IsRead base → base.join text naming = .ok url → IsRead url

end Url

namespace Reference

/-- A text without a scheme of its own names a URL of the scheme it is read from. -/
theorem scheme_of_parseRelative {naming : Host.Naming} {base : Url} {scheme : String}
    {text : List Char} {reference : Reference} (read : parseRelative naming scheme text = .ok reference) :
    (resolve base reference).scheme = base.scheme := by
  rw [parseRelative] at read
  simp only at read
  split at read
  · split at read <;> cases read <;> rfl
  · split_ifs at read
    · obtain ⟨_, _, rfl⟩ := ok_of_map read
      rfl
    · obtain ⟨_, _, rfl⟩ := ok_of_map read
      rfl
    · cases read
      rfl
    · cases read
      rfl

/-- From elsewhere, the URL of a server is named in full. -/
theorem resolve_served_of_other {naming : Host.Naming} {base : Url} (other : base.isHttp = false)
    {text : String} {reference : Reference} (read : Reference.read naming base.scheme base.isOpaque text = .ok reference)
    (http : (resolve base reference).isHttp = true) : (resolve base reference).Served := by
  have notRelative {scheme : String} {text : List Char}
      (read : parseRelative naming scheme text = .ok reference) : False := by
    rw [Url.isHttp, scheme_of_parseRelative read] at http
    exact Bool.false_ne_true (other.symm.trans http)
  have parsed (read : parse naming base.scheme text = .ok reference) : (resolve base reference).Served := by
    simp only [parse] at read
    split at read
    · exact (notRelative read).elim
    · split_ifs at read
      · exact (notRelative read).elim
      · obtain ⟨url, urlRead, rfl⟩ := ok_of_map read
        exact Url.parseScheme_served urlRead http
  rw [Reference.read] at read
  split_ifs at read
  · simp only at read
    split at read
    · obtain ⟨url, urlRead, rfl⟩ := ok_of_map read
      exact Url.parseScheme_served urlRead http
    · split_ifs at read
      · exact parsed read
  · exact parsed read

end Reference

namespace Url

/-- All URLs of servers that are read are as the parser makes them. -/
theorem IsRead.served {url : Url} (read : url.IsRead) (http : url.isHttp = true) : url.Served := by
  induction read with
  | parse read => exact parse_served read http
  | @join _ base url text _ read ih =>
    cases fromServer : base.isHttp with
    | true => exact (ih fromServer).join read http
    | false =>
      obtain ⟨reference, referenceRead, rfl⟩ := ok_of_map read
      exact Reference.resolve_served_of_other fromServer referenceRead http

end Url
end BatchFetch
