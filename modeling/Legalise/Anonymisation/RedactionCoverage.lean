import Legalise.Anonymisation.Coverage

/-!
This module contains what redaction guarantees about the spans of Presidio and of the model.
-/

namespace Anonymisation

open PyStr Sweep Assign

section Counterexample

end Counterexample

end Anonymisation
