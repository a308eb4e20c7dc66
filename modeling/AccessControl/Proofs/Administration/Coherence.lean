import AccessControl.Proofs.Administration.Order
import AccessControl.Proofs.Concurrency.Refill

/-! # Administration keeps the cache right

A write changes the data of some items only, and these are the ones that are removed afterwards.
So whoever keeps to the order and is alone leaves every coherent world coherent
(`World.Keeps`), whatever else may fail.
-/
namespace AccessControl.World
open Outside Program
variable {α : Type} {mayFail : Backend.Request → Bool} {catalog : Catalog} {x : Service α}

/-- **A service leaves every coherent world coherent**, whatever may fail. -/
abbrev Keeps (mayFail : Backend.Request → Bool) (catalog : Catalog) (x : Service α) : Prop :=
  (unreliable mayFail).Preserves (Coherent catalog) x

/-- **A service that keeps to the order keeps the cache right.** -/
theorem keeps_of_keepsOrder (hremove : RemovalsHold mayFail) (hx : KeepsOrder catalog x) :
    Keeps mayFail catalog x := by
  intro w hw t r w' ht hf key value _ hheld
  -- The service is the only caller, so it is overtaken by nobody.
  have horder : ∀ caller : Unit, Orderly catalog (share caller (solo () t)) := by
    intro caller
    rw [share_solo_self]
    exact hx.orderly ht
  have hprompt : ¬Concurrency.LateRefill (fun _ e => Unsettles key e) key (solo () t) := by
    rintro ⟨i, j, -, -, -, -, -, -, -, -, -, -, hne, -⟩
    exact hne rfl
  have hfollows : (unreliable mayFail).Follows w (whole (solo () t)) w' := by
    rw [whole_solo]
    exact hf
  have htended := Concurrency.tended_of_orderly horder hprompt
  rcases htended.exact_or_kept (hremove key.text) hfollows hheld with hexact | ⟨hheld, hsame⟩
  · exact hexact.valid
  · exact hsame.agrees.valid (hw key value id hheld)

end AccessControl.World
