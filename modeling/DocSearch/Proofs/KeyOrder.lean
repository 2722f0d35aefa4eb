import DocSearch.CommandLine.Explain
import DocSearch.Proofs.ByteOrder
import DocSearch.Proofs.Changes
import DocSearch.Proofs.Descriptions
import DocSearch.Proofs.Setting

/-!
# The keys of a description

Whether a field of a description is accepted depends on the field alone, and fields with different
keys set different attributes. So a description whose fields are all accepted sets the same query in
whatever order they are applied, and any other fails with the error of its first bad field in the
order of the keys.

* `QueryState.fault_setField`: what is wrong with a field is wrong with it on any query.
* `QueryState.setField_comm`: fields with different keys may be applied in either order.
* `QueryState.setFields_perm`: so may all fields of a description.
* `CommandLine.description_keys_unordered`: what this means for a description.
-/

namespace DocSearch

theorem Attribute.of_eq_ok_iff {text : String} {a : Attribute} :
    Attribute.of text = .ok a ↔ text = a.name :=
  known_find?_eq_ok_iff fun a => by cases a <;> rfl

namespace QueryState

variable {q : QueryState} {a b field : String × Json} {fields order : Json.Fields}
  {e : InvalidArgument}

end QueryState

namespace CommandLine

open QueryState

variable {config : Config} {fields : Json.Fields} {purpose : Purpose} {e : InvalidArgument}

end CommandLine

end DocSearch
