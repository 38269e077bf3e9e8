import AtomArray.Proofs.SavedRecords
import AtomArray.Proofs.TaskLifeCycle

/-!
Reports.

A report has a row for every cluster of every completed shot of the tasks that it shows
(`Geometry.rowsOf`), and its counts are tables of the rows in which the atoms were the ones asked
for (`Tallied`). Nothing is lost between the shots and the counts:
`RemoteBatch.report_conserves_shots`.
-/

namespace AtomArray

open List Bits

/-! ### Counting -/

/-- A table says how often each thing occurs in a list. -/
structure Tallied {α : Type} [DecidableEq α] (xs : List α) (table : List (α × Nat)) : Prop where
  /-- No thing has two entries. -/
  nodup : (table.map Prod.fst).Nodup
  mem_iff : ∀ x, x ∈ table.map Prod.fst ↔ x ∈ xs
  count : ∀ p ∈ table, p.2 = xs.count p.1
  sum : (table.map Prod.snd).sum = xs.length

section Counting

variable {α β : Type} [DecidableEq α] [DecidableEq β] {a : α} {xs : List α} {table : List (α × Nat)}

theorem map_fst_tally (a : α) (table : List (α × Nat)) : (tally a table).map Prod.fst =
      if a ∈ table.map Prod.fst then table.map Prod.fst else table.map Prod.fst ++ [a] := by
  fun_induction tally a table <;> grind

theorem sum_tally (a : α) (table : List (α × Nat)) :
    ((tally a table).map Prod.snd).sum = (table.map Prod.snd).sum + 1 := by
  fun_induction tally a table <;> grind

/-- An entry after one more was counted: an old one, one more than an old one, or a new one. -/
theorem mem_tally {p : α × Nat} (hnodup : (table.map Prod.fst).Nodup) (hp : p ∈ tally a table) :
    p.1 ≠ a ∧ p ∈ table ∨ (∃ n, (a, n) ∈ table ∧ p = (a, n + 1)) ∨
      a ∉ table.map Prod.fst ∧ p = (a, 1) := by
  fun_induction tally a table <;> grind

theorem Tallied.tally (h : Tallied xs table) (a : α) : Tallied (xs ++ [a]) (tally a table) where
  nodup := by
    rw [map_fst_tally]
    split
    · exact h.nodup
    · rename_i ha
      exact h.nodup.append (nodup_singleton a) (by simpa using ha)
  mem_iff x := by
    have hx := h.mem_iff x
    rw [map_fst_tally]
    split <;> grind
  count p hp := by
    rcases mem_tally h.nodup hp with ⟨hne, hold⟩ | ⟨n, hold, rfl⟩ | ⟨hnew, rfl⟩
    · rw [h.count p hold, count_append, count_singleton, if_neg (by simpa using hne.symm)]
      rfl
    · have hn : n = xs.count a := h.count _ hold
      simp [hn]
    · have ha : a ∉ xs := mt (h.mem_iff a).mpr hnew
      simp [count_eq_zero_of_not_mem ha]
  sum := by rw [sum_tally, h.sum, length_append, length_singleton]

theorem tallied_tallies (xs : List α) : Tallied xs (tallies xs) := by
  suffices h : ∀ (xs ys : List α) (table : List (α × Nat)), Tallied ys table →
      Tallied (ys ++ xs) (xs.foldl (fun counts a => tally a counts) table) from
    h xs [] [] ⟨nodup_nil, by simp, by simp, rfl⟩
  intro xs
  induction xs with
  | nil => simp
  | cons x xs ih =>
    intro ys table h
    have hnext := ih (ys ++ [x]) _ (h.tally x)
    rwa [append_assoc, singleton_append] at hnext

theorem Tallied.perm {table' : List (α × Nat)} (h : Tallied xs table) (hp : table'.Perm table) :
    Tallied xs table' where
  nodup := (hp.map _).nodup_iff.mpr h.nodup
  mem_iff x := (hp.map _).mem_iff.trans (h.mem_iff x)
  count p hmem := h.count p (hp.mem_iff.mp hmem)
  sum := (hp.map _).sum_nat.trans h.sum

/-- A table of things is one of their names, if different things have different names. -/
theorem Tallied.map {f : α → β} (h : Tallied xs table)
    (hf : ∀ x ∈ xs, ∀ y ∈ xs, f x = f y → x = y) :
    Tallied (xs.map f) (table.map fun p => (f p.1, p.2)) := by
  have hkeys : (table.map fun p => (f p.1, p.2)).map Prod.fst = (table.map Prod.fst).map f := by
    simp
  refine ⟨?_, fun y => ?_, fun q hq => ?_, ?_⟩
  · rw [hkeys]
    refine h.nodup.map_on fun x hx y hy => hf x ?_ y ?_
    · exact (h.mem_iff x).mp hx
    · exact (h.mem_iff y).mp hy
  · rw [hkeys]
    simp only [mem_map (f := f), h.mem_iff]
  · obtain ⟨p, hp, rfl⟩ := mem_map.mp hq
    have hmem : p.1 ∈ xs := (h.mem_iff p.1).mp (mem_map_of_mem hp)
    rw [h.count p hp, count_eq_countP, count_eq_countP, countP_map]
    refine countP_congr fun x hx => ?_
    simp only [Function.comp_apply, beq_iff_eq]
    exact ⟨congrArg f, hf x hx p.1 hmem⟩
  · rw [map_map, length_map]
    exact h.sum

theorem mem_distinct {x : α} : x ∈ distinct xs ↔ x ∈ xs := by
  suffices h : ∀ acc : List α, x ∈ xs.foldl (fun acc x => if x ∈ acc then acc else acc ++ [x]) acc ↔
      x ∈ acc ∨ x ∈ xs from (h []).trans (by simp)
  induction xs with
  | nil => simp
  | cons y xs ih =>
    intro acc
    rw [foldl_cons, ih]
    split <;> grind

theorem nodup_distinct (xs : List α) : (distinct xs).Nodup := by
  suffices h : ∀ acc : List α, acc.Nodup →
      (xs.foldl (fun acc x => if x ∈ acc then acc else acc ++ [x]) acc).Nodup from
    h [] nodup_nil
  induction xs with
  | nil => simp
  | cons y xs ih =>
    intro acc hacc
    rw [foldl_cons]
    apply ih
    split
    · exact hacc
    · rename_i hy
      exact hacc.append (nodup_singleton y) (by simpa using hy)

/-- In groups of equal members one after the other, each group that is not empty has one distinct
member. -/
theorem distinct_flatMap {ι : Type} {key : ι → α} {f : ι → List α} {is : List ι}
    (hkeys : (is.map key).Nodup) (hf : ∀ i ∈ is, ∀ x ∈ f i, x = key i) :
    distinct (is.flatMap f) = (is.filter fun i => f i ≠ []).map key := by
  have hgroup : ∀ (a : α) (xs acc : List α), (∀ x ∈ xs, x = a) → a ∈ acc →
      xs.foldl (fun acc x => if x ∈ acc then acc else acc ++ [x]) acc = acc := by
    intro a xs acc hxs ha
    induction xs with
    | nil => rfl
    | cons x xs ih =>
      obtain ⟨rfl, hxs⟩ := forall_mem_cons.mp hxs
      rw [foldl_cons, if_pos ha, ih hxs]
  suffices h : ∀ acc : List α, (∀ i ∈ is, key i ∉ acc) →
      (is.flatMap f).foldl (fun acc x => if x ∈ acc then acc else acc ++ [x]) acc =
        acc ++ (is.filter fun i => f i ≠ []).map key from
    (h [] (by simp)).trans (nil_append _)
  induction is with
  | nil => simp
  | cons i is ih =>
    intro acc hacc
    obtain ⟨hi, hfresh⟩ := forall_mem_cons.mp hacc
    obtain ⟨hfi, hf⟩ := forall_mem_cons.mp hf
    obtain ⟨hkey, hkeys⟩ := nodup_cons.mp hkeys
    rw [flatMap_cons, foldl_append]
    cases hgroups : f i with
    | nil =>
      rw [foldl_nil, ih hkeys hf acc hfresh, filter_cons_of_neg (by simp [hgroups])]
    | cons x xs =>
      rw [hgroups] at hfi
      obtain ⟨rfl, hxs⟩ := forall_mem_cons.mp hfi
      rw [foldl_cons, if_neg hi, hgroup _ xs _ hxs (by simp), ih hkeys hf,
        filter_cons_of_pos (by simp [hgroups]), map_cons, append_assoc,
        singleton_append]
      intro j hj
      rw [mem_append, mem_singleton, not_or]
      exact ⟨hfresh j hj, fun h => hkey (h ▸ mem_map_of_mem hj)⟩

/-- The members of one group among groups with different tags. -/
theorem filter_tag_flatMap {ι γ : Type} {key : ι → α} {tag : γ → α} {f : ι → List γ} {is : List ι}
    (hkeys : (is.map key).Nodup) (hf : ∀ i ∈ is, ∀ x ∈ f i, tag x = key i) {i : ι} (hi : i ∈ is) :
    (is.flatMap f).filter (tag · = key i) = f i := by
  have hnone : ∀ js : List ι, js ⊆ is → key i ∉ js.map key →
      (js.flatMap f).filter (tag · = key i) = [] := by
    intro js hsub hjs
    refine filter_eq_nil_iff.mpr fun x hx => ?_
    obtain ⟨j, hj, hx⟩ := mem_flatMap.mp hx
    have hne : tag x ≠ key i := fun heq =>
      hjs (mem_map.mpr ⟨j, hj, (hf j (hsub hj) x hx).symm.trans heq⟩)
    simpa using hne
  have hself : (f i).filter (tag · = key i) = f i :=
    filter_eq_self.mpr fun x hx => by simp [hf i hi x hx]
  obtain ⟨before, after, rfl⟩ := append_of_mem hi
  rw [map_append, map_cons, nodup_middle, nodup_cons, mem_append, not_or] at hkeys
  rw [flatMap_append, flatMap_cons, filter_append, filter_append,
    hnone before (by simp) hkeys.1.1, hnone after (by intro j hj; simp [hj]) hkeys.1.2, hself,
    nil_append, append_nil]

end Counting

/-! ### Texts of bits -/

theorem join_bits {γ : Type} {f : γ → String} {bit : γ → Bool} {xs : List γ}
    (h : ∀ x ∈ xs, f x = if bit x then "1" else "0") :
    String.join (xs.map f) = text (xs.map bit) := by
  rw [← String.toList_inj, String.toList_join, text, String.toList_ofList]
  induction xs with
  | nil => rfl
  | cons x xs ih =>
    obtain ⟨hx, hxs⟩ := forall_mem_cons.mp h
    rw [map_cons, flatMap_cons, ih hxs, hx, map_cons, map_cons]
    cases bit x <;> rfl

theorem Bits.text_injective : Function.Injective text := by
  intro as bs h
  have hmap := String.ofList_injective h
  refine map_injective_iff.mpr (fun a b hab => ?_) hmap
  cases a <;> cases b <;> first | rfl | cases hab

/-! ### Clusters -/

namespace Decoder

variable {d : Decoder}

/-- The entries of a cluster, by their numbers within it. -/
def entriesOf (d : Decoder) (c : ClusterIndex) : List ClusterSite :=
  (d.mapping.filter (·.cluster = c)).mergeSort fun a b => decide (a.localIndex ≤ b.localIndex)

theorem pairwise_entriesOf (c : ClusterIndex) :
    (d.entriesOf c).Pairwise fun a b => a.localIndex ≤ b.localIndex := by
  refine (pairwise_mergeSort (fun a b c => ?_) (fun a b => ?_) _).imp of_decide_eq_true
  · simpa using Int.le_trans
  · simpa using Int.le_total _ _

variable {e : ClusterSite}

theorem mem_mapping_of_mem_entriesOf {c : ClusterIndex} (he : e ∈ d.entriesOf c) : e ∈ d.mapping :=
  mem_of_mem_filter (mem_mergeSort.mp he)

theorem localIndex?_of_mem (h : (d.mapping.map (·.globalIndex)).Nodup)
    (he : e ∈ d.mapping) : d.localIndex? e.globalIndex = some e.localIndex := by
  cases hfound : d.mapping.reverse.find? (·.globalIndex = e.globalIndex) with
  | none =>
    have hnone := find?_eq_none.mp hfound e (mem_reverse.mpr he)
    simp at hnone
  | some e' =>
    have hmem := mem_reverse.mp (mem_of_find?_eq_some hfound)
    have hsame : e'.globalIndex = e.globalIndex := by simpa using find?_some hfound
    rw [localIndex?, hfound, inj_on_of_nodup_map h hmem he hsame]
    rfl

theorem sitesOf_eq (h : (d.mapping.map (·.globalIndex)).Nodup) (c : ClusterIndex) :
    d.sitesOf c = (d.entriesOf c).map (·.globalIndex) := by
  refine (map_mergeSort fun a ha b hb => ?_).symm
  rw [localIndex?_of_mem h (mem_of_mem_filter ha), localIndex?_of_mem h (mem_of_mem_filter hb)]
  rfl

theorem clusters_eq (h : (d.mapping.map (·.globalIndex)).Nodup) :
    d.clusters = d.clusterIndices.map fun c => (c, (d.entriesOf c).map (·.globalIndex)) :=
  map_congr_left fun c _ => by rw [sitesOf_eq h]

end Decoder

variable (g : Geometry)

namespace Geometry

/-- A geometry in which every site is filled or not, and whose decoder numbers the sites. -/
structure IsPlain (g : Geometry) : Prop where
  length : g.filling.length = g.sites.length
  filling : ∀ f ∈ g.filling, f = 0 ∨ f = 1
  nodup : ∀ d ∈ g.decoder, (d.mapping.map (·.globalIndex)).Nodup
  inside : ∀ d ∈ g.decoder, ∀ e ∈ d.mapping, 0 ≤ e.globalIndex ∧ e.globalIndex < g.sites.length

/-- The clusters of a geometry, each with its sites: all sites if there is no decoder, else for each
cluster that the decoder names the sites of its entries, by their numbers within the cluster. -/
inductive Division (g : Geometry) : List (ClusterIndex × List Nat) → Prop where
  | whole (hd : g.decoder = none) : Division g [((0, 0), range g.sites.length)]
  | clusters {d : Decoder} {cs : List (ClusterIndex × List Nat)} (hd : g.decoder = some d)
      (hnodup : (cs.map Prod.fst).Nodup)
      (hmem : ∀ c, c ∈ cs.map Prod.fst ↔ ∃ e ∈ d.mapping, e.cluster = c)
      (hsites : ∀ c ∈ cs, ∃ es : List ClusterSite, es.Perm (d.mapping.filter (·.cluster = c.1)) ∧
        es.Pairwise (fun a b => a.localIndex ≤ b.localIndex) ∧
        c.2 = es.map (·.globalIndex.toNat)) : Division g cs

/-- The clusters that a report reads. -/
def division : List (ClusterIndex × List Nat) :=
  g.clusters.map fun c => (c.1, c.2.map Int.toNat)

def filled : Bits := g.filling.map (· = 1)

variable {g : Geometry}

theorem IsPlain.fillingText_eq (h : g.IsPlain) : g.fillingText = text g.filled := by
  refine join_bits fun f hf => ?_
  rcases h.filling f hf with rfl | rfl <;> rfl

theorem IsPlain.clusters_whole (h : g.IsPlain) (hd : g.decoder = none) :
    g.clusters = [((0, 0), (range g.sites.length).map fun (i : Nat) => (i : Int))] := by
  have hlength : g.fillingText.length = g.sites.length := by
    rw [h.fillingText_eq, ← String.length_toList, text, String.toList_ofList,
      length_map, filled, length_map, h.length]
  rw [clusters, hd, hlength]

theorem IsPlain.clusters_decoded (h : g.IsPlain) {d : Decoder} (hd : g.decoder = some d) :
    g.clusters = d.clusterIndices.map fun c => (c, (d.entriesOf c).map (·.globalIndex)) := by
  rw [clusters, hd]
  exact Decoder.clusters_eq (h.nodup d hd)

theorem IsPlain.division (h : g.IsPlain) : g.Division g.division := by
  cases hd : g.decoder with
  | none =>
    have hdivision : g.division = [((0, 0), range g.sites.length)] := by
      simp [Geometry.division, h.clusters_whole hd, Function.comp_def]
    rw [hdivision]
    exact .whole hd
  | some d =>
    have hdivision : g.division = d.clusterIndices.map fun c =>
        (c, (d.entriesOf c).map (·.globalIndex.toNat)) := by
      simp [Geometry.division, h.clusters_decoded hd, Function.comp_def]
    have hkeys : g.division.map Prod.fst = d.clusterIndices := by
      simp [hdivision, Function.comp_def]
    refine .clusters hd ?_ ?_ ?_
    · rw [hkeys]
      exact nodup_distinct _
    · intro c
      rw [hkeys, Decoder.clusterIndices, mem_distinct, mem_map]
    · rw [hdivision]
      intro c hc
      obtain ⟨c, -, rfl⟩ := mem_map.mp hc
      exact ⟨d.entriesOf c, mergeSort_perm _ _, Decoder.pairwise_entriesOf c, rfl⟩

theorem IsPlain.clusters_inside (h : g.IsPlain) :
    ∀ c ∈ g.clusters, ∀ i ∈ c.2, 0 ≤ i ∧ i < g.sites.length := by
  cases hd : g.decoder with
  | none =>
    rw [h.clusters_whole hd]
    simp
  | some d =>
    rw [h.clusters_decoded hd]
    intro c hc i hi
    obtain ⟨c, -, rfl⟩ := mem_map.mp hc
    obtain ⟨e, he, rfl⟩ := mem_map.mp hi
    exact h.inside d hd e (Decoder.mem_mapping_of_mem_entriesOf he)

end Geometry

/-! ### Rows -/

/-- The bits at the given sites. -/
def Bits.readAt (sites : List Nat) (bits : Bits) : Bits := sites.filterMap (bits[·]?)

theorem Bits.length_readAt {sites : List Nat} {bits : Bits} (h : ∀ i ∈ sites, i < bits.length) :
    (readAt sites bits).length = sites.length := by
  induction sites with
  | nil => rfl
  | cons i sites ih =>
    obtain ⟨hi, hsites⟩ := forall_mem_cons.mp h
    rw [readAt, filterMap_cons_some (getElem?_eq_getElem hi), length_cons,
      length_cons, ← ih hsites, readAt]

theorem mapM_itemAt {α : Type} {xs : List α} {sites : List Int}
    (h : ∀ i ∈ sites, 0 ≤ i ∧ i < xs.length) :
    sites.mapM (itemAt xs) = .ok ((sites.map Int.toNat).filterMap (xs[·]?)) := by
  induction sites with
  | nil => rfl
  | cons i sites ih =>
    obtain ⟨⟨hpos, hlt⟩, hsites⟩ := forall_mem_cons.mp h
    have hi : i.toNat < xs.length := by omega
    have hitem : itemAt xs i = .ok xs[i.toNat] := by
      simp [itemAt, Int.not_lt.mpr hpos, hi]
    rw [mapM_cons, hitem, ih hsites]
    simp [hi]

variable {r : TaskResults}

namespace Geometry

variable {g : Geometry}

/-- The row of a cluster in a shot of a task. -/
def rowAt (k : Int) (s : Shot) (c : ClusterIndex × List Nat) : ReportRow where
  task := k
  cluster := c.1
  wanted := Bits.text (Bits.readAt c.2 g.filled)
  before := Bits.text (Bits.readAt c.2 s.before)
  after := Bits.readAt c.2 s.after

/-- The rows of a task, cluster by cluster in each completed shot. -/
def rowsOf (k : Int) (r : TaskResults) (cs : List (ClusterIndex × List Nat)) : List ReportRow :=
  (r.shots.filter (·.status = .completed)).flatMap fun s => cs.map (g.rowAt k s)

theorem IsPlain.rows_eq (h : g.IsPlain) (hshots : ∀ s ∈ r.shots,
    s.before.length = g.sites.length ∧ s.after.length = g.sites.length) (k : Int) :
    g.rows k r = .ok (g.rowsOf k r g.division) := by
  have hrow : ∀ s ∈ r.shots, ∀ c ∈ g.clusters,
      g.row k s c.1 c.2 = .ok (g.rowAt k s (c.1, c.2.map Int.toNat)) := by
    intro s hs c hc
    have hinside := h.clusters_inside c hc
    have hbefore : c.2.mapM (itemAt s.before) = _ := mapM_itemAt ((hshots s hs).1 ▸ hinside)
    have hafter : c.2.mapM (itemAt s.after) = _ := mapM_itemAt ((hshots s hs).2 ▸ hinside)
    have hfilling : g.fillingText.toList = g.filled.map fun b => if b then '1' else '0' := by
      rw [h.fillingText_eq, text, String.toList_ofList]
    have hwanted : c.2.mapM (itemAt g.fillingText.toList) = _ := mapM_itemAt (by
      rwa [hfilling, length_map, filled, length_map, h.length])
    rw [row, hbefore, hafter, hwanted, hfilling]
    simp [rowAt, readAt, text, map_filterMap]
  rw [rows, Outcome.mapM_eq_ok (g := fun x => g.rowAt k x.1 (x.2.1, x.2.2.map Int.toNat))]
  · simp [rowsOf, Geometry.division, map_flatMap, Function.comp_def]
  · intro x hx
    obtain ⟨s, hs, hx⟩ := mem_flatMap.mp hx
    obtain ⟨c, hc, rfl⟩ := mem_map.mp hx
    exact hrow s (mem_of_mem_filter hs) c hc

end Geometry

/-! ### Reports -/

namespace Report

variable {r : Report}

theorem isRagged_eq_false {width : Nat} (h : ∀ row ∈ r.rows, row.after.length = width) :
    r.isRagged = false := by
  have hmax : ∀ lengths : List Nat, (∀ n ∈ lengths, n = width) →
      lengths.foldl Nat.max width = width := by
    intro lengths hlengths
    induction lengths with
    | nil => rfl
    | cons n lengths ih =>
      obtain ⟨rfl, hlengths⟩ := forall_mem_cons.mp hlengths
      rw [foldl_cons, show n.max n = n from Nat.max_self n, ih hlengths]
  have hwidth : r.rows ≠ [] → r.width = width := by
    intro hrows
    obtain ⟨row, rows, hcons⟩ := exists_cons_of_ne_nil hrows
    rw [hcons] at h
    obtain ⟨hrow, hrest⟩ := forall_mem_cons.mp h
    rw [Report.width, hcons, map_cons, foldl_cons, hrow,
      show Nat.max 0 width = width from Nat.zero_max width]
    exact hmax _ (by simpa using hrest)
  rw [isRagged, any_eq_false]
  intro row hrow
  simp [h row hrow, hwidth (ne_nil_of_mem hrow)]

theorem cells_eq (h : r.isRagged = false) {row : ReportRow} (hrow : row ∈ r.rows) :
    r.cells row = row.after.map some := by
  have hlength : row.after.length = r.width := by
    simpa using any_eq_false.mp h row hrow
  rw [cells, hlength, Nat.sub_self, replicate_zero, append_nil]

theorem text_cells (bits : Bits) :
    String.join ((bits.map some).map (cellText false)) = text bits := by
  have hjoin : String.join (bits.map (cellText false ∘ some)) = text (bits.map id) :=
    join_bits fun b _ => by cases b <;> rfl
  rwa [map_id, ← map_map] at hjoin

theorem countRows_eq (bits : List Bits) :
    countRows (bits.map (map some)) = tallies (bits.map (map some)) := by
  have hfull : ∀ cells ∈ bits.map (map some), cells.all Option.isSome := by
    intro cells hcells
    obtain ⟨bs, -, rfl⟩ := mem_map.mp hcells
    rw [all_map, all_eq_true]
    exact fun _ _ => rfl
  have hgapped : (bits.map (map some)).filter (not ∘ (·.all Option.isSome)) = [] :=
    filter_eq_nil_iff.mpr fun cells hcells => by simp [hfull cells hcells]
  simp [countRows, filter_eq_self.mpr hfull, hgapped]

/-- Sorting the counted rows by frequency, and writing them as text, keeps what was counted. -/
theorem tallied_ranked (bits : List Bits) : Tallied (bits.map text) (Json.merge []
      ((((countRows (bits.map (map some))).mergeSort fun a b => cellsLe a.1 b.1).mergeSort
        fun a b => decide (b.2 ≤ a.2)).map
          fun (cells, n) => (String.join (cells.map (cellText false)), n))) := by
  have hsorted := (tallied_tallies (bits.map (map some))).perm
    ((mergeSort_perm _ fun a b => decide (b.2 ≤ a.2)).trans
      (mergeSort_perm _ fun a b => cellsLe a.1 b.1))
  have htable := hsorted.map (f := fun cells => String.join (cells.map (cellText false))) (by
    intro x hx y hy hxy
    obtain ⟨as, -, rfl⟩ := mem_map.mp hx
    obtain ⟨bs, -, rfl⟩ := mem_map.mp hy
    rw [text_cells, text_cells] at hxy
    rw [text_injective hxy])
  have htexts : (bits.map (map some)).map
      (fun cells => String.join (cells.map (cellText false))) = bits.map text := by
    rw [map_map]
    exact map_congr_left fun bits _ => text_cells bits
  rw [htexts] at htable
  rw [countRows_eq, Json.merge_of_nodup [] _ htable.nodup]
  exact htable

theorem tallied_counts (h : r.isRagged = false) : Forall₂ (fun k entry => Tallied
        (((r.selected true).filter (·.task = k)).map fun row => text row.after) entry)
      (tasksOf (r.selected true)) r.counts := by
  rw [counts, bitstrings, map_map, forall₂_map_right_iff, forall₂_same]
  intro k _
  have hcells : ((r.selected true).filter (·.task = k)).map r.cells =
      (((r.selected true).filter (·.task = k)).map (·.after)).map (map some) := by
    rw [map_map]
    refine map_congr_left fun row hrow => cells_eq h ?_
    exact mem_of_mem_filter (mem_of_mem_filter hrow)
  have htable := tallied_ranked (((r.selected true).filter (·.task = k)).map (·.after))
  rw [map_map, ← hcells, ← h] at htable
  exact htable

end Report

namespace RemoteBatch

variable {δ : Type} {b : RemoteBatch δ}

/-- A task that has an identifier and is completed, with its results. -/
def Shows (b : RemoteBatch δ) (k : Int) (t : RemoteTask δ) (r : TaskResults) : Prop :=
  (k, t) ∈ b.tasks ∧ t.id ≠ none ∧ t.results = some r ∧ r.status = .completed

theorem mem_shown {k : Int} {t : RemoteTask δ} : (k, t, r) ∈ b.shown ↔ b.Shows k t r := by
  have hreported : reported? t = some r ↔ t.id ≠ none ∧ t.results = some r ∧
      r.status = .completed := by
    cases hid : t.id <;> cases hresults : t.results <;>
      simp [reported?, hid, hresults]
    grind
  simp only [shown, mem_filterMap, Option.map_eq_some_iff, Prod.mk.injEq, Shows]
  grind

theorem keys_shown : (b.shown.map (·.1)).Sublist (b.tasks.map Prod.fst) := by
  have hkeys : b.shown.map (·.1) =
      (b.tasks.filter fun p => (reported? p.2).isSome).map Prod.fst := by
    rw [shown, map_filterMap, ← filterMap_eq_map, filterMap_filter]
    refine filterMap_congr fun p _ => ?_
    cases reported? p.2 <;> rfl
  rw [hkeys]
  exact filter_sublist.map _

/-- What a batch shows fits into one table: plain geometries, readings as long as the sites, and
clusters of one size. -/
structure Fits (b : RemoteBatch δ) (width : Nat) : Prop where
  keys : (b.tasks.map Prod.fst).Nodup
  plain : ∀ k t r, b.Shows k t r → t.geometry.IsPlain
  shots : ∀ k t r, b.Shows k t r → ∀ s ∈ r.shots,
    s.before.length = t.geometry.sites.length ∧ s.after.length = t.geometry.sites.length
  clusters : ∀ k t r, b.Shows k t r → ∀ cs, t.geometry.Division cs → ∀ c ∈ cs, c.2.length = width

def rowsOf (x : Int × RemoteTask δ × TaskResults) : List ReportRow :=
  x.2.1.geometry.rowsOf x.1 x.2.2 x.2.1.geometry.division

variable {x : Int × RemoteTask δ × TaskResults}

theorem task_of_mem_rowsOf {row : ReportRow} (h : row ∈ rowsOf x) : row.task = x.1 := by
  obtain ⟨s, -, h⟩ := mem_flatMap.mp h
  obtain ⟨c, -, rfl⟩ := mem_map.mp h
  rfl

variable {width : Nat}

theorem Fits.exists_report (h : b.Fits width) :
    ∃ r, b.report = .ok r ∧ r.rows = b.shown.flatMap rowsOf := by
  have hrows : (b.shown.mapM fun x => x.2.1.geometry.rows x.1 x.2.2) =
      .ok (b.shown.map rowsOf) := by
    refine Outcome.mapM_eq_ok fun x hx => ?_
    have hshows := mem_shown.mp hx
    exact (h.plain _ _ _ hshows).rows_eq (h.shots _ _ _ hshows) x.1
  refine ⟨_, by rw [report, hrows]; rfl, ?_⟩
  exact flatMap_def.symm

theorem Fits.length_after (h : b.Fits width) :
    ∀ row ∈ b.shown.flatMap rowsOf, row.after.length = width := by
  intro row hrow
  obtain ⟨⟨k, t, r⟩, hx, hrow⟩ := mem_flatMap.mp hrow
  obtain ⟨s, hs, hrow⟩ := mem_flatMap.mp hrow
  obtain ⟨c, hc, rfl⟩ := mem_map.mp hrow
  have hshows := mem_shown.mp hx
  have hplain := h.plain k t r hshows
  obtain ⟨c', hc', rfl⟩ := mem_map.mp hc
  rw [Geometry.rowAt, length_readAt, h.clusters k t r hshows _ hplain.division _ hc]
  intro i hi
  obtain ⟨j, hj, rfl⟩ := mem_map.mp hi
  have hsite := hplain.clusters_inside c' hc' j hj
  rw [(h.shots k t r hshows s (mem_of_mem_filter hs)).2]
  omega

theorem Fits.filter_task (h : b.Fits width)
    (hx : x ∈ b.shown) : (b.shown.flatMap rowsOf).filter (·.task = x.1) = rowsOf x :=
  filter_tag_flatMap (keys_shown.nodup h.keys) (fun _ _ _ => task_of_mem_rowsOf) hx

theorem Fits.tasksOf_sublist (h : b.Fits width) (P : ReportRow → Bool) :
    (Report.tasksOf ((b.shown.flatMap rowsOf).filter P)).Sublist (b.tasks.map Prod.fst) := by
  have htasks : ∀ x ∈ b.shown, ∀ k ∈ ((rowsOf x).filter P).map (·.task), k = x.1 := by
    intro x _ k hk
    obtain ⟨row, hrow, rfl⟩ := mem_map.mp hk
    exact task_of_mem_rowsOf (mem_of_mem_filter hrow)
  rw [Report.tasksOf, filter_flatMap, map_flatMap,
    distinct_flatMap (keys_shown.nodup h.keys) htasks]
  exact (filter_sublist.map _).trans keys_shown

/-- **A report conserves the shots.** Each task with an identifier that is completed has a row for
each completed shot and each cluster, with the bits of the cluster's sites, and there are no other
rows. The counts are about the tasks, in their order, that have rows in which the atoms were the
ones asked for; they say how often each reading occurs in these rows. -/
theorem report_conserves_shots (h : b.Fits width) : ∃ r, b.report = .ok r ∧
    (∀ k t results, b.Shows k t results → ∃ cs, t.geometry.Division cs ∧
      r.rows.filter (·.task = k) = t.geometry.rowsOf k results cs) ∧
    (∀ row ∈ r.rows, ∃ t results, b.Shows row.task t results) ∧
    ∃ ks : List Int, ks.Sublist (b.tasks.map Prod.fst) ∧
      (∀ k, k ∈ ks ↔ ∃ row ∈ r.rows, row.task = k ∧ row.wanted = row.before) ∧
      List.Forall₂ (fun k entry => Tallied
        ((r.rows.filter fun row => row.task = k ∧ row.wanted = row.before).map
          fun row => Bits.text row.after) entry) ks r.counts := by
  obtain ⟨r, hreport, hrows⟩ := h.exists_report
  have hselected : r.selected true = r.rows.filter fun row => row.wanted = row.before := rfl
  refine ⟨r, hreport, ?_, ?_, Report.tasksOf (r.selected true), ?_, ?_, ?_⟩
  · intro k t results hshows
    refine ⟨_, (h.plain k t results hshows).division, ?_⟩
    rw [hrows]
    exact h.filter_task (mem_shown.mpr hshows)
  · intro row hrow
    rw [hrows] at hrow
    obtain ⟨⟨k, t, results⟩, hx, hrow⟩ := List.mem_flatMap.mp hrow
    exact ⟨t, results, task_of_mem_rowsOf hrow ▸ mem_shown.mp hx⟩
  · rw [hselected, hrows]
    exact h.tasksOf_sublist _
  · intro k
    simp only [Report.tasksOf, mem_distinct, hselected, List.mem_map, List.mem_filter,
      decide_eq_true_eq]
    grind
  · have hragged := r.isRagged_eq_false fun row hrow => h.length_after row (hrows ▸ hrow)
    have htallied := Report.tallied_counts hragged
    simpa [hselected] using htallied

end RemoteBatch

/-- Two sites in clusters of their own, read in two shots, of which one was completed. -/
def pairOfClusters : RemoteBatch Unit where
  tasks := [(3, { TaskCall.waitingTask with
    id := some "first"
    spec := { (default : TaskSpec Quantity) with sites := [default, default], filling := [1, 1] }
    decoder := some ⟨[⟨(0, 0), 0, 0⟩, ⟨(1, 0), 1, 0⟩], 2, 2⟩
    results := some ⟨.completed,
      [⟨.completed, [true, true], [false, true]⟩, ⟨.missingAfter, [true, true], [true, true]⟩]⟩ })]

/-- All rows are those of the only task. -/
theorem pairOfClusters_conserves :
    pairOfClusters.Fits 1 ∧ ∃ r, pairOfClusters.report = .ok r ∧ ∀ row ∈ r.rows, row.task = 3 := by
  have hfits : pairOfClusters.Fits 1 := by
    refine ⟨by decide, ?_, ?_, ?_⟩
    all_goals
      rintro k t r ⟨ht, -, hr, -⟩
      obtain ⟨rfl, rfl⟩ := Prod.mk.inj (List.mem_singleton.mp ht)
      cases hr
    · refine ⟨rfl, by decide, fun d hd => ?_, fun d hd => ?_⟩
      all_goals
        cases hd
        decide
    · decide
    · rintro cs (hd | ⟨hd, -, hmem, hsites⟩) c hc
      · cases hd
      · cases hd
        obtain ⟨es, hperm, -, hes⟩ := hsites c hc
        obtain ⟨e, he, hname⟩ := (hmem c.1).mp (List.mem_map_of_mem hc)
        rw [hes, List.length_map, hperm.length_eq, ← hname]
        rcases List.mem_pair.mp he with rfl | rfl <;> rfl
  obtain ⟨r, hreport, -, htasks, -⟩ := RemoteBatch.report_conserves_shots hfits
  refine ⟨hfits, r, hreport, fun row hrow => ?_⟩
  obtain ⟨t, results, hshows⟩ := htasks row hrow
  exact (Prod.mk.inj (List.mem_singleton.mp hshows.1)).1

end AtomArray
