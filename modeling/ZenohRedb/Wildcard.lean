import ZenohRedb.Lib.Text

set_option autoImplicit false

/-! # Wildcard matching (`storage.rs`, lines 484 to 509)

A pattern is matched against a key segment by segment: `*` stands for one segment, `**` for
any number of them, and every other segment for itself.
-/

namespace ZenohRedb

/-- `matches_parts`, arm by arm. The slices are lists here, so that `&key_parts[1..]` is the
tail of a list that has a head. -/
def matchesParts : List String → List String → Bool
  | [], [] => true
  | _ :: _, [] => false
  | [], p :: ps => if p = "**" then matchesParts [] ps else false
  | k :: ks, p :: ps =>
      -- `**` ends here, or takes the first segment and stays
      if p = "**" then matchesParts (k :: ks) ps || matchesParts ks (p :: ps)
      else if p = "*" then matchesParts ks ps
      else k = p && matchesParts ks ps
  termination_by ks ps => ks.length + ps.length

/-- `RedbStorage::matches_wildcard`. -/
def matchesWildcard (key pattern : String) : Bool :=
  matchesParts (Str.split key '/') (Str.split pattern '/')

end ZenohRedb
