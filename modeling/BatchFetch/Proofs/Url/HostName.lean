import BatchFetch.Proofs.Results
import BatchFetch.Url.Host
import Mathlib.Data.Bool.AllAny

namespace BatchFetch

namespace Host

theorem Naming.asciiName?_not_denied {naming : Naming} {text name : List Char}
    (read : naming.asciiName? text = some name) : ∀ c ∈ name, isDenied c = false := by
  rw [asciiName?, Option.filter_eq_some_iff, Bool.not_eq_true', List.any_eq_false] at read
  exact fun c member => Bool.eq_false_iff.mpr (read.2 c member)

/-- A host as the parser makes it. -/
inductive Proper : Host → Prop
  | name {text : String} : (∀ c ∈ text.toList, isDenied c = false) →
      endsInNumber text.toList = false → Proper (.name text)
  | ipv4 (address : Nat) : Proper (.ipv4 address)
  | ipv6 {groups : List Nat} : groups.length = 8 → Proper (.ipv6 groups)

theorem parseIpv6_length {text : List Char} {groups : List Nat}
    (read : parseIpv6 text = .ok groups) : groups.length = 8 := by
  rw [parseIpv6] at read
  split at read
  · rename_i found
    cases read
    split at found
    · obtain ⟨all, _, whole⟩ := Option.bind_eq_some_iff.mp found
      split_ifs at whole with eight
      cases whole
      exact eight
    · split at found
      · split_ifs at found with fits
        cases found
        simp only [List.length_append, List.length_replicate]
        omega
      · cases found
  · cases read

theorem parse_proper {naming : Naming} {text : List Char} {host : Host}
    (read : parse naming text = .ok host) : host.Proper := by
  rw [parse.eq_def] at read
  split at read
  · cases read
  · split_ifs at read
    obtain ⟨groups, eight, rfl⟩ := ok_of_map read
    exact .ipv6 (parseIpv6_length eight)
  · split at read
    · cases read
    · cases read
    · rename_i ascii _ named
      obtain ⟨_, _, named⟩ := Option.bind_eq_some_iff.mp named
      split_ifs at read with number
      · obtain ⟨address, _, rfl⟩ := ok_of_map read
        exact .ipv4 address
      · cases read
        refine .name ?_ ?_
        · rw [String.toList_ofList]
          exact Naming.asciiName?_not_denied named
        · rw [String.toList_ofList]
          simpa using number

end Host
end BatchFetch
