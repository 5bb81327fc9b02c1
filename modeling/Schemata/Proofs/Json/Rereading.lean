import Schemata.Proofs.Json.Fitting
import Schemata.Proofs.Json.Parsing

/-!
# Schemata — Proofs — Json — Rereading

Values that are written to a text and read from it.  A value comes back with what each of its
numbers is read as, just where no more containers are open in the text at once than a reader allows
(`Json.Rereading.decodes`); and that is the value itself just where its numbers last
(`Json.Rereading.eq_self_iff`).
-/

namespace Schemata

namespace Json

variable {α : Type} {read : Nat → Json → Option α} {write : α → Json} {again : α → α} {a : α}

/-- **What is read from the text of a value.** -/
theorem Rereading.decodes (h : Rereading write again) (hreadable : (write a).readable = true)
    (hback : ReadsBack read write (again a)) :
    decode? read (write a).render =
      if (write a).depth ≤ maxDepth then some (again a) else none := by
  have hread := hback maxDepth
  rw [h a, depth_reread] at hread
  rw [decode?, parse?_render hreadable, Option.bind_some]
  split
  · next hdepth => exact (hread _).mpr ⟨hdepth, rfl⟩
  · next hdepth =>
      rw [Option.eq_none_iff_forall_ne_some]
      exact fun b hb => hdepth ((hread b).mp hb).1

/-- The value comes back itself just where its numbers last. -/
theorem Rereading.eq_self_iff (h : Rereading write again) (hback : ReadsBack read write a)
    (hagain : ReadsBack read write (again a)) : again a = a ↔ (write a).Lasts := by
  rw [← reread_eq_self_iff, ← h a]
  refine ⟨congrArg write, fun hsame => ?_⟩
  -- a reader with room for what is written finds the one and the other
  have hself := (hback (write a).depth a).mpr ⟨Nat.le_refl _, rfl⟩
  rw [← hsame] at hself
  exact (((hagain _ a).mp hself).2).symm

/-- What was read from a text comes back from the text that is written of it. -/
theorem Rereading.decodes_of_read (h : Rereading write again)
    (hreadable : (write a).readable = true) (hback : ReadsBack read write (again a))
    (hfits : FitsIn read write maxDepth) {text : String} (hread : decode? read text = some a) :
    decode? read (write a).render = some (again a) := by
  obtain ⟨j, -, hj⟩ := Option.bind_eq_some_iff.mp hread
  rw [h.decodes hreadable hback, if_pos (hfits j a hj)]

end Json

end Schemata
