import GwzTransport.Remote.Admission

/-!
# Canonical hosts

A host is a name or an address in IPv6 notation (`canonicalHost_cases`).  The canonical form of a
name has letters, digits, hyphens and dots only, and is its own.
-/

namespace GwzTransport.Remote

open Protocol Checks Strings

/-- A host that is no address in IPv6 notation. -/
def IsName (host : Text) : Prop := (strip ['['] host).bind (stripEnd [']']) = none ∧ ':' ∉ host

theorem canonicalHost_name {host : Text} (h : IsName host) :
    canonicalHost host = canonicalName (undotted host) := by
  unfold canonicalHost
  rw [h.1]
  exact if_neg (by simpa using h.2)

theorem toLower_ascii (c : Char) : (c.toLower.toNat < 0x80) = (c.toNat < 0x80) := by
  rcases toLower_cases c with h | h
  · rw [h]
  · have hall : upperLetters.all (fun c => decide (c.toLower.toNat < 0x80) &&
        decide (c.toNat < 0x80)) = true := by decide +kernel
    have hc := List.all_eq_true.1 hall c h
    simp only [Bool.and_eq_true, decide_eq_true_eq] at hc
    simp [hc]

theorem canonicalName_congr {host host' : Text}
    (h : host'.map Char.toLower = host.map Char.toLower) :
    canonicalName host' = canonicalName host := by
  have hascii : ∀ host : Text, (host.all fun c => decide (c.toNat < 0x80)) =
      (host.map Char.toLower).all fun c => decide (c.toNat < 0x80) := by
    intro host
    simp [List.all_map, Function.comp_def, toLower_ascii]
  have hlength : host'.length = host.length := by simpa using congrArg List.length h
  have hempty : host'.isEmpty = host.isEmpty := by
    rw [Bool.eq_iff_iff, List.isEmpty_iff_length_eq_zero, hlength, List.isEmpty_iff_length_eq_zero]
  unfold canonicalName
  rw [hascii host', hascii host, h, hlength, hempty]

theorem canonicalName_eq_ok {host out : Text} (h : canonicalName host = .ok out) :
    out = host.map Char.toLower ∧ ∀ label ∈ out.splitOn '.', badLabel label = false := by
  obtain ⟨_, -, h⟩ := bind_eq_ok.1 h
  obtain ⟨_, -, h⟩ := bind_eq_ok.1 h
  obtain ⟨_, hlabels, h⟩ := bind_eq_ok.1 h
  have hout : out = host.map Char.toLower := by
    split_ifs at h
    · obtain ⟨_, -, h⟩ := bind_eq_ok.1 h
      obtain ⟨_, -, h⟩ := bind_eq_ok.1 h
      exact (Except.ok.inj h).symm
    · exact (Except.ok.inj h).symm
  refine ⟨hout, fun label hlabel => ?_⟩
  rw [hout] at hlabel
  simpa using List.any_eq_false.1 (refuseIf_eq_ok.1 hlabels) label hlabel

/-- What a canonical name is made of. -/
theorem mem_canonicalName {host out : Text} (h : canonicalName host = .ok out) :
    ∀ c ∈ out, c = '.' ∨ (c.isLower || c.isDigit || c == '-') = true := by
  obtain ⟨-, hlabels⟩ := canonicalName_eq_ok h
  rw [show out = ['.'].intercalate (out.splitOn '.') from (List.intercalate_splitOn '.').symm]
  refine (forall_mem_intercalate (by simp)).2 fun label hlabel c hc => .inr ?_
  have hgood := hlabels label hlabel
  simp only [badLabel, Bool.or_eq_false_iff, Bool.not_eq_false'] at hgood
  exact List.all_eq_true.1 hgood.2 c hc

theorem isName_canonical {host out : Text} (h : canonicalName host = .ok out) :
    IsName out ∧ undotted out = out := by
  have hchars : ∀ c ∈ out, c ≠ ':' ∧ c ≠ '[' := by
    intro c hc
    constructor <;> rintro rfl <;> exact absurd (mem_canonicalName h _ hc) (by decide)
  refine ⟨⟨?_, fun hc => (hchars _ hc).1 rfl⟩, ?_⟩
  · cases hstrip : strip ['['] out with
    | none => rfl
    | some rest =>
      rw [strip_eq_some] at hstrip
      exact absurd rfl (hchars '[' (hstrip ▸ List.mem_append_left _ (by decide))).2
  · unfold undotted
    cases hdot : stripEnd ['.'] out with
    | none => rfl
    | some rest =>
      -- its last label would be empty
      have hempty : [] ∈ out.splitOn '.' := by
        rw [stripEnd_eq_some.1 hdot, List.splitOn_append_cons_self]
        simp
      exact absurd ((canonicalName_eq_ok h).2 [] hempty) (by decide)

/-- A host without the brackets of an address. -/
def addressOf (host : Text) : Text := ((strip ['['] host).bind (stripEnd [']'])).getD host

/-- A host with a canonical form is a name or an address. -/
theorem canonicalHost_cases {host out : Text} (h : canonicalHost host = .ok out) :
    (IsName host ∧ canonicalName (undotted host) = .ok out) ∨
      ∃ groups, parseIpv6 (addressOf host) = some groups ∧ out = ipv6Text groups := by
  by_cases hname : IsName host
  · exact .inl ⟨hname, (canonicalHost_name hname).symm.trans h⟩
  · right
    have hv6 : v6 (addressOf host) = .ok out := by
      unfold canonicalHost at h
      unfold addressOf
      split at h
      next inner hinner => rwa [hinner]
      next hnone =>
        rw [hnone]
        split_ifs at h with hcolon
        · exact h
        · exact absurd ⟨hnone, by simpa using hcolon⟩ hname
    obtain ⟨_, -, hv6⟩ := bind_eq_ok.1 hv6
    obtain ⟨groups, hgroups, hv6⟩ := bind_eq_ok.1 hv6
    cases hv6
    exact ⟨groups, required_eq_ok.1 hgroups, rfl⟩

end GwzTransport.Remote
