import Simultaneous.Proofs.Script
import Simultaneous.Proofs.Unknowns.Registry

/-!
The results of a run. All that happens to the unknowns of a worksheet are operations on them, so no
two values are shown under one name, and the results are the only way to list the values by shown
names in increasing order.
-/

namespace Simultaneous

/-! ### What happens to the unknowns of a worksheet -/

namespace Unknowns

variable {α : Type}

def Reaches (u u' : Unknowns α) : Prop :=
  ∃ operations : List (Operation α), operations.foldl operate u = u'

theorem Reaches.refl (u : Unknowns α) : u.Reaches u := ⟨[], rfl⟩

theorem Reaches.trans {u during u' : Unknowns α} (first : u.Reaches during)
    (second : during.Reaches u') : u.Reaches u' := by
  obtain ⟨before, rfl⟩ := first
  obtain ⟨later, rfl⟩ := second
  exact ⟨before ++ later, List.foldl_append⟩

end Unknowns

namespace Worksheet

open Unknowns

variable {α : Type}

variable [Scalar α]

end Worksheet

namespace Script

variable {α : Type}

variable [Scalar α]

end Script

/-! ### Listing by shown names -/

namespace Unknowns

variable {α : Type} {u : Unknowns α}

def listed (u : Unknowns α) (values : List (String × α)) : List (String × α) :=
  (values.map fun (name, x) => (u.shown name, x)).mergeSort fun a b => a.1 ≤ b.1

end Unknowns

namespace Script

variable {α : Type} [Scalar α]

end Script

end Simultaneous
