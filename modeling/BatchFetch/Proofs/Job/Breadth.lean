import BatchFetch.Job.Site
import Mathlib.Data.List.Nodup
import Mathlib.Data.List.Infix

namespace BatchFetch.Site

/-- The targets that can be reached from a root. -/
inductive Reaches (site : Site) (root : Url) : Url → Prop
  | root : Reaches site root root
  | child {url child : Url} : Reaches site root url → child ∈ site.children url →
      Reaches site root child

/-- The first occurrences of those URLs that were not seen before. -/
def fresh (seen : List Url) : List Url → List Url
  | [] => []
  | url :: rest => if url ∈ seen then fresh seen rest else url :: fresh (url :: seen) rest

theorem fresh_of_seen {seen : List Url} {url : Url} (old : url ∈ seen) (rest : List Url) :
    fresh seen (url :: rest) = fresh seen rest := by
  rw [fresh, if_pos old]

theorem fresh_of_unseen {seen : List Url} {url : Url} (new : url ∉ seen) (rest : List Url) :
    fresh seen (url :: rest) = url :: fresh (url :: seen) rest := by
  rw [fresh, if_neg new]

theorem mem_fresh {seen urls : List Url} {url : Url} :
    url ∈ fresh seen urls ↔ url ∈ urls ∧ url ∉ seen := by
  induction urls generalizing seen with
  | nil => simp only [fresh, List.not_mem_nil, false_and]
  | cons head rest ih =>
    by_cases old : head ∈ seen
    · rw [fresh_of_seen old, ih, List.mem_cons]
      constructor
      · rintro ⟨member, new⟩
        exact ⟨Or.inr member, new⟩
      · rintro ⟨equal | member, new⟩
        · exact absurd (equal ▸ old) new
        · exact ⟨member, new⟩
    · rw [fresh_of_unseen old, List.mem_cons, ih, List.mem_cons, List.mem_cons]
      constructor
      · rintro (equal | ⟨member, new⟩)
        · exact ⟨Or.inl equal, equal ▸ old⟩
        · exact ⟨Or.inr member, fun seen => new (Or.inr seen)⟩
      · rintro ⟨equal | member, new⟩
        · exact Or.inl equal
        · by_cases equal : url = head
          · exact Or.inl equal
          · exact Or.inr ⟨member, fun either => either.elim equal new⟩

theorem nodup_fresh (seen urls : List Url) : (fresh seen urls).Nodup := by
  induction urls generalizing seen with
  | nil => exact List.nodup_nil
  | cons head rest ih =>
    by_cases old : head ∈ seen
    · rw [fresh_of_seen old]
      exact ih seen
    · rw [fresh_of_unseen old, List.nodup_cons, mem_fresh]
      exact ⟨fun again => again.2 List.mem_cons_self, ih (head :: seen)⟩

theorem fresh_congr {seen other : List Url} (same : ∀ url, url ∈ seen ↔ url ∈ other)
    (urls : List Url) : fresh seen urls = fresh other urls := by
  induction urls generalizing seen other with
  | nil => rfl
  | cons head rest ih =>
    by_cases old : head ∈ seen
    · rw [fresh_of_seen old, fresh_of_seen ((same head).mp old), ih same]
    · have grown : ∀ url, url ∈ head :: seen ↔ url ∈ head :: other := by
        intro url
        rw [List.mem_cons, List.mem_cons, same url]
      rw [fresh_of_unseen old, fresh_of_unseen fun member => old ((same head).mpr member), ih grown]

theorem fresh_append (seen first second : List Url) :
    fresh seen (first ++ second) = fresh seen first ++ fresh (seen ++ fresh seen first) second := by
  induction first generalizing seen with
  | nil => rw [List.nil_append, fresh, List.nil_append, List.append_nil]
  | cons head rest ih =>
    by_cases old : head ∈ seen
    · rw [List.cons_append, fresh_of_seen old, fresh_of_seen old, ih]
    · have moved : ∀ url, url ∈ (head :: seen) ++ fresh (head :: seen) rest ↔
          url ∈ seen ++ head :: fresh (head :: seen) rest := by
        intro url
        simp only [List.mem_append, List.mem_cons]
        tauto
      rw [List.cons_append, fresh_of_unseen old, fresh_of_unseen old, ih, fresh_congr moved,
        List.cons_append]

/-- The targets met up to a distance from the root, and the last of them, which are those at that
distance. Each wave names the new targets on the playlists of the wave before, in their order. -/
def waves (site : Site) (root : Url) : Nat → List Url × List Url
  | 0 => ([root], [root])
  | distance + 1 =>
    let (met, last) := waves site root distance
    let new := fresh met (last.flatMap site.children)
    (met ++ new, new)

/-- The targets up to a distance from the root, breadth first. -/
def met (site : Site) (root : Url) (distance : Nat) : List Url :=
  (site.waves root distance).1

/-- The targets at a distance from the root. -/
def wave (site : Site) (root : Url) (distance : Nat) : List Url :=
  (site.waves root distance).2

theorem wave_succ (site : Site) (root : Url) (distance : Nat) :
    site.wave root (distance + 1) =
      fresh (site.met root distance) ((site.wave root distance).flatMap site.children) := rfl

theorem met_succ (site : Site) (root : Url) (distance : Nat) :
    site.met root (distance + 1) = site.met root distance ++ site.wave root (distance + 1) := rfl

/-- All playlists met so far name no more new targets than those of the last wave. -/
theorem met_succ_eq_fresh (site : Site) (root : Url) (distance : Nat) :
    site.met root (distance + 1) =
      root :: fresh [root] ((site.met root distance).flatMap site.children) := by
  induction distance with
  | zero => rfl
  | succ distance ih =>
    rw [met_succ, wave_succ, met_succ site root distance, List.flatMap_append, fresh_append,
      ← List.cons_append, ← met_succ, ih]
    rfl

theorem mem_cons_fresh {root url : Url} {urls : List Url} :
    url ∈ root :: fresh [root] urls ↔ url = root ∨ url ∈ urls := by
  rw [List.mem_cons, mem_fresh, List.mem_singleton]
  tauto

theorem nodup_cons_fresh (root : Url) (urls : List Url) : (root :: fresh [root] urls).Nodup := by
  rw [List.nodup_cons, mem_fresh]
  exact ⟨fun again => again.2 (List.mem_singleton_self root), nodup_fresh [root] urls⟩

/-- An order that starts with the root and goes on with what its members lead to. -/
def Unfolds (site : Site) (root : Url) (order : List Url) : Prop :=
  order = root :: fresh [root] (order.flatMap site.children)

theorem Unfolds.nodup {site : Site} {root : Url} {order : List Url}
    (unfolds : site.Unfolds root order) : order.Nodup := by
  rw [Unfolds] at unfolds
  rw [unfolds]
  exact nodup_cons_fresh root _

theorem Unfolds.mem_of_reaches {site : Site} {root url : Url} {order : List Url}
    (unfolds : site.Unfolds root order) (reach : site.Reaches root url) : url ∈ order := by
  induction reach with
  | root =>
    rw [Unfolds] at unfolds
    rw [unfolds]
    exact List.mem_cons_self
  | child _ named ih =>
    have later := List.mem_flatMap.mpr ⟨_, ih, named⟩
    rw [Unfolds] at unfolds
    rw [unfolds]
    exact mem_cons_fresh.mpr (Or.inr later)

theorem Unfolds.starts_with_met {site : Site} {root : Url} {order : List Url}
    (unfolds : site.Unfolds root order) (distance : Nat) : site.met root distance <+: order := by
  induction distance with
  | zero =>
    rw [Unfolds] at unfolds
    rw [unfolds]
    exact ⟨_, rfl⟩
  | succ distance ih =>
    obtain ⟨rest, cut⟩ := ih
    have whole : order = root :: fresh [root]
        ((site.met root distance).flatMap site.children ++ rest.flatMap site.children) := by
      rw [← List.flatMap_append, cut]
      exact unfolds
    rw [whole, fresh_append, ← List.cons_append, ← met_succ_eq_fresh]
    exact List.prefix_append _ _

theorem length_met_of_waves {site : Site} {root : Url}
    (going : ∀ distance, site.wave root distance ≠ []) (distance : Nat) :
    distance < (site.met root distance).length := by
  induction distance with
  | zero => exact Nat.zero_lt_one
  | succ distance ih =>
    have more := List.length_pos_iff.mpr (going (distance + 1))
    rw [met_succ, List.length_append]
    omega

theorem Unfolds.exists_wave_nil {site : Site} {root : Url} {order : List Url}
    (unfolds : site.Unfolds root order) : ∃ distance, site.wave root distance = [] := by
  by_contra going
  have long := length_met_of_waves (not_exists.mp going) order.length
  have short := (unfolds.starts_with_met order.length).length_le
  omega

theorem unfolds_met {site : Site} {root : Url} {distance : Nat}
    (ended : site.wave root distance = []) : site.Unfolds root (site.met root distance) := by
  have next : site.wave root (distance + 1) = [] := by
    rw [wave_succ, ended]
    rfl
  rw [Unfolds, ← met_succ_eq_fresh, met_succ, next, List.append_nil]

/-- Once a wave is empty, no distance adds to what was met. -/
theorem met_eq_met {site : Site} {root : Url} {distance other : Nat}
    (ended : site.wave root distance = []) (endedToo : site.wave root other = []) :
    site.met root distance = site.met root other := by
  have first := (unfolds_met ended).starts_with_met other
  have second := (unfolds_met endedToo).starts_with_met distance
  exact second.eq_of_length_le first.length_le

/-- Only the breadth-first order unfolds and keeps to what can be reached. -/
theorem Unfolds.eq_met {site : Site} {root : Url} {order : List Url}
    (unfolds : site.Unfolds root order) (sound : ∀ url ∈ order, site.Reaches root url) :
    ∃ distance, site.wave root distance = [] ∧ order = site.met root distance := by
  obtain ⟨distance, ended⟩ := unfolds.exists_wave_nil
  obtain ⟨rest, cut⟩ := unfolds.starts_with_met distance
  cases rest with
  | nil => exact ⟨distance, ended, by rw [← cut, List.append_nil]⟩
  | cons url more =>
    have late : url ∈ order := cut ▸ List.mem_append_right _ List.mem_cons_self
    have early := (unfolds_met ended).mem_of_reaches (sound url late)
    have once := unfolds.nodup
    rw [← cut, List.nodup_append] at once
    exact absurd rfl (once.2.2 url early url List.mem_cons_self)

end BatchFetch.Site
