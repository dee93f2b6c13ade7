import Telemetry.Dictionary

/-!
Label sets, and the key under which series with equal labels are collected.
-/

set_option autoImplicit false

namespace Telemetry

/-- Names with texts: the labels of a series, or the attributes of a record. -/
abbrev Labels := Dictionary String

namespace Labels

/-- The key of a label set: each label as `name=value`, in ascending order of these texts, with
commas between them. -/
def key (labels : Labels) : String :=
  let pairs := labels.entries.map fun e => e.1 ++ "=" ++ e.2
  String.intercalate "," (pairs.mergeSort fun a b => decide (a ≤ b))

end Labels

end Telemetry
