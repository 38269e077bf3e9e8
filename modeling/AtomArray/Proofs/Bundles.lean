import AtomArray.Drive.Sequence
import AtomArray.Proofs.Outcome

/-!
What is made of a bundle. Two ways of making something of bundles agree on all of them if they agree
on each kind (`map_fold`).
-/

namespace AtomArray.Bundle

open List

variable {κ α N β γ : Type} (a : Algebra κ α N β)

theorem foldAll_eq_map (bs : List (Bundle κ α N)) : foldAll a bs = bs.map (fold a) := by
  induction bs with
  | nil => rfl
  | cons b bs ih => rw [foldAll, ih, map_cons]

theorem fold_append (bs : List (Bundle κ α N)) :
    fold a (.append bs) = a.append (bs.map (fold a)) := by
  rw [fold, foldAll_eq_map]

@[elab_as_elim]
theorem induct {motive : Bundle κ α N → Prop} (members : ∀ ms, motive (.members ms))
    (named : ∀ b n, motive b → motive (.named b n))
    (append : ∀ bs, (∀ b ∈ bs, motive b) → motive (.append bs))
    (slice : ∀ b i, motive b → motive (.slice b i)) (b : Bundle κ α N) : motive b :=
  @Bundle.rec κ α N motive (fun bs => ∀ b ∈ bs, motive b) members named append slice (by simp)
    (fun _ _ hb hbs => forall_mem_cons.mpr ⟨hb, hbs⟩) b

theorem map_fold (h : β → γ) {a : Algebra κ α N β} {a' : Algebra κ α N γ}
    (hmembers : ∀ ms, h (a.members ms) = a'.members ms)
    (hnamed : ∀ b n, h (a.named b n) = a'.named (h b) n)
    (happend : ∀ bs, h (a.append bs) = a'.append (bs.map h))
    (hslice : ∀ b i, h (a.slice b i) = a'.slice (h b) i) (b : Bundle κ α N) :
    h (fold a b) = fold a' b := by
  induction b using induct with
  | members ms => exact hmembers ms
  | named b n ih => rw [fold, hnamed, ih, fold]
  | append bs ih =>
    rw [fold_append, happend, map_map, fold_append]
    exact congrArg a'.append (map_congr_left ih)
  | slice b i ih => rw [fold, hslice, ih, fold]

theorem mapM_foldAll (a : Algebra κ α N (Outcome β)) (bs : List (Bundle κ α N)) :
    (foldAll a bs).mapM id = bs.mapM (fold a) := by
  rw [foldAll_eq_map]
  exact mapM_map

theorem bind_append (f : α → Outcome α) (refused : Fault) (bs : List (Bundle κ α N)) :
    fold (bind f refused) (append bs) = do return append (← bs.mapM (fold (bind f refused))) := by
  rw [← mapM_foldAll]
  rfl

end AtomArray.Bundle
