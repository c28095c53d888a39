/-
Which references are global.

A reference that begins with the scheme of global URIs is read as one, if it can be read
at all (`isGlobal_of_prefix`).  URIs of methods that an artifact owns begin in this way.
-/
import Stitch.MethodUri
import Stitch.Proofs.Text.Blank

namespace Stitch.MethodUri

theorem isGlobal_of_prefix {text : String} {uri : MethodUri}
    (hread : ofText text = .ok uri) (h : scheme.toList <+: text.toList) :
    uri.isGlobal = true := by
  have htrim : scheme.toList <+: Text.trim text.toList :=
    Text.prefix_trim (by decide +kernel) (by decide) h
  rw [ofText] at hread
  rw [read?, if_pos (List.isPrefixOf_iff_prefix.2 htrim)] at hread
  split at hread
  next uri' hsome =>
    obtain ⟨_, -, hsome⟩ := Option.bind_eq_some_iff.1 hsome
    obtain ⟨_, -, hsome⟩ := Option.bind_eq_some_iff.1 hsome
    cases hread
    cases hsome
    rfl
  next => cases hread

theorem isGlobal_of_ofText_qualify {owner : Coordinate} {member : String} {uri : MethodUri}
    (hread : ofText (qualify owner member) = .ok uri) : uri.isGlobal = true := by
  refine isGlobal_of_prefix hread ?_
  rw [qualify, String.append_assoc, String.toList_append]
  exact List.prefix_append _ _

end Stitch.MethodUri
