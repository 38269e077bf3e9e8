import AtomArray.Proofs.Drive

/-!
Merging the drives of a field.

Canonical form gathers the drives of equal waveforms (`Field.groups`), merges the scales within each
group (`Field.mergeScaled`) and enters what comes out into a new field (`Field.ofDrives`), where a
merged modulation can replace an equal one of another group. `Field.lost` are the drives that go
this way.

* `Field.canon_keeps_but_lost`: canonical form contributes what the field does, less what it loses.
* `Field.gathered_keeps`: gathering the drives of two fields adds what they contribute.
-/

namespace AtomArray

open List Modulation

namespace Field

variable {env : Env Rat} {f g : Field Rat} {k : Nat} {t c s v x y : Rat} {m : Modulation Rat}
  {w : Waveform Rat} {ms : List (Modulation Rat)} {gs : List (Group Rat)}
  {acc ds : List (Drive Rat)}

/-- Drives in which nothing takes a negative time and every scale has a value. -/
structure Playable (env : Env Rat) (ds : List (Drive Rat)) : Prop where
  lasting : ∀ d ∈ ds, d.2.Lasting env
  valued : ∀ d ∈ ds, d.1.Valued env

theorem playable_iff : Playable env ds ↔ ∀ d ∈ ds, d.2.Lasting env ∧ d.1.Valued env :=
  ⟨fun h d hd => ⟨h.lasting d hd, h.valued d hd⟩,
    fun h => ⟨fun d hd => (h d hd).1, fun d hd => (h d hd).2⟩⟩

theorem Playable.nil : Playable env [] := ⟨by simp, by simp⟩

theorem playable_cons {d : Drive Rat} :
    Playable env (d :: ds) ↔ (d.2.Lasting env ∧ d.1.Valued env) ∧ Playable env ds := by
  simp only [playable_iff, forall_mem_cons]

theorem playable_append : Playable env (acc ++ ds) ↔ Playable env acc ∧ Playable env ds := by
  simp only [playable_iff, forall_mem_append]

/-! ### Groups of equal waveforms -/

/-- What the modulations of one waveform contribute. -/
def groupValue (env : Env Rat) (k : Nat) (t : Rat) (g : Group Rat) : Outcome Rat := do
  return (← sumOf (coefficient env k) g.2) * (← g.1.eval env t)

theorem groupValue_eq_ok : groupValue env k t (w, ms) = .ok v ↔ ∃ c x,
      sumOf (coefficient env k) ms = .ok c ∧ w.eval env t = .ok x ∧ v = c * x :=
  Outcome.both_eq_ok

/-- A group in which nothing takes a negative time and every scale has a value. -/
def GroupPlayable (env : Env Rat) (g : Group Rat) : Prop :=
  g.1.Lasting env ∧ ∀ m ∈ g.2, m.Valued env

theorem groupPlayable_addToGroup (hw : w.Lasting env) (hm : m.Valued env)
    (hgs : ∀ g ∈ gs, GroupPlayable env g) : ∀ g ∈ addToGroup m w gs, GroupPlayable env g := by
  induction gs with
  | nil => simpa [addToGroup, GroupPlayable] using ⟨hw, hm⟩
  | cons g gs ih =>
    obtain ⟨u, ms⟩ := g
    obtain ⟨hu, hrest⟩ := forall_mem_cons.mp hgs
    rw [addToGroup]
    split
    · exact forall_mem_cons.mpr
        ⟨⟨hu.1, forall_mem_append.mpr ⟨hu.2, forall_mem_singleton.mpr hm⟩⟩, hrest⟩
    · exact forall_mem_cons.mpr ⟨hu, ih hrest⟩

theorem sumOf_addToGroup (hgs : ∀ g ∈ gs, GroupPlayable env g)
    (hs : sumOf (groupValue env k t) gs = .ok s) (hd : driveValue env env k t (m, w) = .ok v) :
    sumOf (groupValue env k t) (addToGroup m w gs) = .ok (s + v) := by
  obtain ⟨c, y, hc, hy, rfl⟩ := driveValue_eq_ok.mp hd
  induction gs generalizing s with
  | nil =>
    rw [sumOf_nil.mp hs, zero_add, addToGroup, sumOf_singleton, groupValue_eq_ok]
    exact ⟨c, y, sumOf_singleton.mpr hc, hy, rfl⟩
  | cons g gs ih =>
    obtain ⟨u, ms⟩ := g
    obtain ⟨hu, hrest⟩ := forall_mem_cons.mp hgs
    obtain ⟨a, b, ha, hb, rfl⟩ := sumOf_cons.mp hs
    rw [addToGroup]
    split
    · rename_i hsame
      obtain ⟨p, x, hp, hx, rfl⟩ := groupValue_eq_ok.mp ha
      -- The waveform of the group has a value here, so an equal one has the same.
      have hyx : y = x := by
        simpa [hy] using (hu.1.follows_of_same w hsame).value t (Set.mem_univ t) x hx
      have hgroup : groupValue env k t (u, ms ++ [m]) = .ok ((p + c) * x) :=
        groupValue_eq_ok.mpr
          ⟨p + c, x, sumOf_append.mpr ⟨p, c, hp, sumOf_singleton.mpr hc, rfl⟩, hx, rfl⟩
      exact sumOf_cons.mpr ⟨_, b, hgroup, hb, by rw [hyx]; ring⟩
    · exact sumOf_cons.mpr ⟨a, b + c * y, ha, ih hrest hb, by ring⟩

theorem foldl_addToGroup (hds : Playable env ds) (hgs : ∀ g ∈ gs, GroupPlayable env g) :
    (∀ g ∈ ds.foldl (fun gs d => addToGroup d.1 d.2 gs) gs, GroupPlayable env g) ∧
      ∀ k t s v, sumOf (groupValue env k t) gs = .ok s → sumOf (driveValue env env k t) ds = .ok v →
        sumOf (groupValue env k t) (ds.foldl (fun gs d => addToGroup d.1 d.2 gs) gs) =
          .ok (s + v) := by
  induction ds generalizing gs with
  | nil =>
    refine ⟨hgs, fun k t s v hs hv => ?_⟩
    rwa [sumOf_nil.mp hv, add_zero]
  | cons d ds ih =>
    obtain ⟨⟨hlasting, hvalued⟩, hrest⟩ := playable_cons.mp hds
    obtain ⟨hall, hsum⟩ := ih hrest (groupPlayable_addToGroup hlasting hvalued hgs)
    refine ⟨hall, fun k t s v hs hv => ?_⟩
    obtain ⟨a, b, ha, hb, rfl⟩ := sumOf_cons.mp hv
    rw [foldl_cons, ← add_assoc]
    exact hsum k t _ b (sumOf_addToGroup hgs hs ha) hb

/-! ### Merged modulations -/

theorem sumOf_coefficient_split (h : sumOf (coefficient env k) ms = .ok c) :
    ∃ a b, sumOf (coefficient env k) (ms.filter fun m => m.scales?.isNone) = .ok a ∧
      sumOf (Scales.scaleAt env k) (ms.filterMap scales?) = .ok b ∧ c = a + b := by
  induction ms generalizing c with
  | nil => exact ⟨0, 0, rfl, rfl, by simpa using h⟩
  | cons m ms ih =>
    obtain ⟨x, y, hx, hy, rfl⟩ := sumOf_cons.mp h
    obtain ⟨a, b, ha, hb, rfl⟩ := ih hy
    cases hm : m.scales? with
    | none =>
      refine ⟨x + a, b, ?_, ?_, by ring⟩
      · rw [filter_cons_of_pos (by simp [hm])]
        exact sumOf_cons.mpr ⟨x, a, hx, ha, rfl⟩
      · rwa [filterMap_cons_none hm]
    | some s =>
      obtain rfl : m = .scaled s := by cases m <;> simp_all [scales?]
      refine ⟨a, x + b, ?_, ?_, by ring⟩
      · rwa [filter_cons_of_neg (by simp [scales?])]
      · rw [filterMap_cons_some hm]
        exact sumOf_cons.mpr ⟨x, b, hx, hb, rfl⟩

/-- Merging the modulations of a group keeps the sum of their coefficients at every site. -/
theorem mergeScaled_keeps (hms : ∀ m ∈ ms, m.Valued env) :
    ∃ ms', mergeScaled ms = .ok ms' ∧ (∀ m ∈ ms', m.Valued env) ∧
      ∀ k c, sumOf (coefficient env k) ms = .ok c →
        sumOf (coefficient env k) ms' = .ok c := by
  have hscales : ∀ s ∈ ms.filterMap scales?, s.Valued env := by
    intro s hs
    obtain ⟨m, hm, hms'⟩ := mem_filterMap.mp hs
    exact hms m hm s hms'
  have hothers : ∀ m ∈ ms.filter (fun m => m.scales?.isNone), m.Valued env :=
    fun m hm => hms m (mem_filter.mp hm).1
  obtain ⟨merged, hmerged, hvalued, hadds⟩ := Scales.foldlM_merge_keeps .nil hscales
  rw [mergeScaled, hmerged, Outcome.ok_bind]
  refine ⟨_, rfl, ?_, fun k c hc => ?_⟩
  · split
    · exact hothers
    · refine forall_mem_append.mpr ⟨hothers, forall_mem_singleton.mpr fun s hs => ?_⟩
      obtain rfl : merged = s := by simpa [scales?] using hs
      exact hvalued
  · obtain ⟨a, b, ha, hb, rfl⟩ := sumOf_coefficient_split hc
    have hat := hadds k 0 b rfl hb
    rw [zero_add] at hat
    split
    · rename_i hempty
      obtain rfl : merged = [] := by simpa using hempty
      obtain rfl : 0 = b := by simpa [Scales.scaleAt] using hat
      rwa [add_zero]
    · exact sumOf_append.mpr ⟨a, b, ha, sumOf_singleton.mpr hat, rfl⟩

/-- The drives of one waveform contribute the sum of their coefficients times its value. -/
theorem sumOf_driveValue_map (hc : sumOf (coefficient env k) ms = .ok c)
    (hx : w.eval env t = .ok x) :
    sumOf (driveValue env env k t) (ms.map (·, w)) = .ok (c * x) := by
  induction ms generalizing c with
  | nil => rw [sumOf_nil.mp hc, zero_mul]; rfl
  | cons m ms ih =>
    obtain ⟨a, b, ha, hb, rfl⟩ := sumOf_cons.mp hc
    exact sumOf_cons.mpr ⟨a * x, b * x, driveValue_eq_ok.mpr ⟨a, x, ha, hx, rfl⟩, ih hb, by ring⟩

def mergedGroup (g : Group Rat) : Outcome (List (Drive Rat)) := do
  return (← mergeScaled g.2).map (·, g.1)

/-- The drives of all merged groups of a field, one after the other. -/
def merged (f : Field Rat) : Outcome (List (Drive Rat)) := do
  return (← f.groups.mapM mergedGroup).flatten

theorem canon_eq_ofDrives : f.canon = do return ofDrives (← f.merged) := by
  simp only [merged, bind_assoc, pure_bind]
  rfl

theorem mergedGroup_keeps {g : Group Rat} (hg : GroupPlayable env g) :
    ∃ ds, mergedGroup g = .ok ds ∧ Playable env ds ∧ ∀ k t v, groupValue env k t g = .ok v →
      sumOf (driveValue env env k t) ds = .ok v := by
  obtain ⟨w, ms⟩ := g
  obtain ⟨ms', hms', hvalued, hkeeps⟩ := mergeScaled_keeps hg.2
  refine ⟨ms'.map (·, w), by rw [mergedGroup, hms']; rfl, ⟨?_, ?_⟩, fun k t v hv => ?_⟩
  · rw [forall_mem_map]
    exact fun _ _ => hg.1
  · rw [forall_mem_map]
    exact hvalued
  · obtain ⟨c, x, hc, hx, rfl⟩ := groupValue_eq_ok.mp hv
    exact sumOf_driveValue_map (hkeeps k c hc) hx

theorem mergedGroups_keeps (hgs : ∀ g ∈ gs, GroupPlayable env g) :
    ∃ dss, gs.mapM mergedGroup = .ok dss ∧ Playable env dss.flatten ∧
      ∀ k t v, sumOf (groupValue env k t) gs = .ok v →
        sumOf (driveValue env env k t) dss.flatten = .ok v := by
  induction gs with
  | nil => exact ⟨[], rfl, .nil, fun k t v hv => hv⟩
  | cons g gs ih =>
    obtain ⟨hg, hrest⟩ := forall_mem_cons.mp hgs
    obtain ⟨ds, hds, hplayable, hkeeps⟩ := mergedGroup_keeps hg
    obtain ⟨dss, hdss, hplayables, hsum⟩ := ih hrest
    refine ⟨ds :: dss, by rw [mapM_cons, hds, hdss]; rfl,
      playable_append.mpr ⟨hplayable, hplayables⟩, fun k t v hv => ?_⟩
    obtain ⟨a, b, ha, hb, rfl⟩ := sumOf_cons.mp hv
    exact sumOf_append.mpr ⟨a, b, hkeeps k t a ha, hsum k t b hb, rfl⟩

theorem merged_keeps (hf : Playable env f.drives) :
    ∃ ds, f.merged = .ok ds ∧ Playable env ds ∧ ∀ k t v, f.driveAt env env k t = .ok v →
      sumOf (driveValue env env k t) ds = .ok v := by
  have hnone : ∀ g ∈ ([] : List (Group Rat)), GroupPlayable env g := by simp
  obtain ⟨hgroups, hsum⟩ := foldl_addToGroup hf hnone
  obtain ⟨dss, hdss, hplayable, hkeeps⟩ := mergedGroups_keeps hgroups
  refine ⟨dss.flatten, ?_, hplayable, fun k t v hv => hkeeps k t v ?_⟩
  · rw [merged, groups, hdss]
    rfl
  · simpa using hsum k t 0 v rfl hv

/-! ### Entering drives one by one -/

/-- Setting the waveform of a modulation adds a drive, or replaces the waveform of the first drive
with an equal modulation. -/
theorem insertDrive_cases (m : Modulation Rat) (w : Waveform Rat)
    (ds : List (Drive Rat)) :
    (ds.find? (fun d => d.1.same m) = none ∧ insertDrive m w ds = ds ++ [(m, w)]) ∨
      ∃ pre m' w' post, ds.find? (fun d => d.1.same m) = some (m', w') ∧ m'.same m ∧
        ds = pre ++ (m', w') :: post ∧ insertDrive m w ds = pre ++ (m', w) :: post := by
  induction ds with
  | nil => exact .inl ⟨rfl, rfl⟩
  | cons d ds ih =>
    obtain ⟨n, u⟩ := d
    rw [insertDrive, find?_cons]
    cases hn : n.same m with
    | true => exact .inr ⟨[], n, u, ds, rfl, hn, rfl, rfl⟩
    | false =>
      rcases ih with ⟨hfind, hinsert⟩ | ⟨pre, m', w', post, hfind, hsame, rfl, hinsert⟩
      · exact .inl ⟨hfind, by simp [hinsert]⟩
      · exact .inr ⟨(n, u) :: pre, m', w', post, hfind, hsame, rfl, by simp [hinsert]⟩

/-- The drives whose waveforms are replaced when drives are entered one by one. -/
def replaced : List (Drive Rat) → List (Drive Rat) →
    List (Drive Rat)
  | _, [] => []
  | acc, d :: ds =>
    (acc.find? fun e => e.1.same d.1).toList ++ replaced (insertDrive d.1 d.2 acc) ds

theorem ofDrives_eq_foldl :
    (ofDrives ds).drives = ds.foldl (fun acc d => insertDrive d.1 d.2 acc) [] := by
  suffices h : ∀ f : Field Rat, (ds.foldl (fun f d => f.insert d.1 d.2) f).drives =
      ds.foldl (fun acc d => insertDrive d.1 d.2 acc) f.drives from h ⟨[]⟩
  intro f
  induction ds generalizing f with
  | nil => rfl
  | cons d ds ih => exact ih (f.insert d.1 d.2)

/-- Entering a drive adds what it contributes, less what the drive that it replaces does. -/
theorem sumOf_insertDrive (hacc : Playable env acc)
    (hs : sumOf (driveValue env env k t) acc = .ok s)
    (hv : driveValue env env k t (m, w) = .ok v) :
    ∃ x, sumOf (driveValue env env k t) (acc.find? fun e => e.1.same m).toList = .ok x ∧
      sumOf (driveValue env env k t) (insertDrive m w acc) = .ok (s + v - x) := by
  rcases insertDrive_cases m w acc with ⟨hfind, hinsert⟩ |
    ⟨pre, m', w', post, hfind, hsame, rfl, hinsert⟩
  · refine ⟨0, by rw [hfind]; rfl, ?_⟩
    rw [hinsert, sub_zero]
    exact sumOf_append.mpr ⟨s, v, hs, sumOf_singleton.mpr hv, rfl⟩
  · obtain ⟨a, _, ha, hrest, rfl⟩ := sumOf_append.mp hs
    obtain ⟨x, b, hx, hb, rfl⟩ := sumOf_cons.mp hrest
    refine ⟨x, by rw [hfind]; exact sumOf_singleton.mpr hx, ?_⟩
    -- The modulation stays that of the replaced drive; an equal one has the same coefficient.
    have hvalued : m'.Valued env := hacc.valued _ (mem_append_right _ mem_cons_self)
    obtain ⟨c, y, hc, hy, rfl⟩ := driveValue_eq_ok.mp hv
    obtain ⟨c', y', hc', -, rfl⟩ := driveValue_eq_ok.mp hx
    obtain rfl : c = c' := by simpa [hc] using coefficient_of_same hvalued hsame hc'
    have hnew : driveValue env env k t (m', w) = .ok (c * y) :=
      driveValue_eq_ok.mpr ⟨c, y, hc', hy, rfl⟩
    rw [hinsert]
    exact sumOf_append.mpr ⟨a, c * y + b, ha, sumOf_cons.mpr ⟨_, b, hnew, hb, rfl⟩, by ring⟩

theorem Playable.insertDrive (hacc : Playable env acc) (hw : w.Lasting env) (hm : m.Valued env) :
    Playable env (Field.insertDrive m w acc) := by
  rcases insertDrive_cases m w acc with ⟨-, hinsert⟩ | ⟨pre, m', w', post, -, -, rfl, hinsert⟩
  · rw [hinsert]
    exact playable_append.mpr ⟨hacc, playable_cons.mpr ⟨⟨hw, hm⟩, .nil⟩⟩
  · obtain ⟨hpre, hpost⟩ := playable_append.mp hacc
    obtain ⟨⟨-, hm'⟩, hpost⟩ := playable_cons.mp hpost
    rw [hinsert]
    exact playable_append.mpr ⟨hpre, playable_cons.mpr ⟨⟨hw, hm'⟩, hpost⟩⟩

/-- Entering drives one by one loses what the replaced drives contribute, and nothing else. -/
theorem sumOf_foldl_insertDrive (hacc : Playable env acc) (hds : Playable env ds)
    (hs : sumOf (driveValue env env k t) acc = .ok s)
    (hv : sumOf (driveValue env env k t) ds = .ok v) :
    ∃ x, sumOf (driveValue env env k t) (replaced acc ds) = .ok x ∧
      sumOf (driveValue env env k t) (ds.foldl (fun acc d => Field.insertDrive d.1 d.2 acc) acc) =
        .ok (s + v - x) := by
  induction ds generalizing acc s v with
  | nil =>
    refine ⟨0, rfl, ?_⟩
    rwa [sumOf_nil.mp hv, add_zero, sub_zero]
  | cons d ds ih =>
    obtain ⟨⟨hw, hm⟩, hrest⟩ := playable_cons.mp hds
    obtain ⟨a, b, ha, hb, rfl⟩ := sumOf_cons.mp hv
    obtain ⟨x, hx, hsum⟩ := sumOf_insertDrive hacc hs ha
    obtain ⟨y, hy, htotal⟩ := ih (hacc.insertDrive hw hm) hrest hsum hb
    refine ⟨x + y, sumOf_append.mpr ⟨x, y, hx, hy, rfl⟩, ?_⟩
    rw [foldl_cons, htotal]
    congr 1
    ring

theorem replaced_eq_nil (hacc : ∀ a ∈ acc, ∀ d ∈ ds, a.1.same d.1 = false)
    (hds : ds.Pairwise fun d e => d.1.same e.1 = false) : replaced acc ds = [] := by
  induction ds generalizing acc with
  | nil => rfl
  | cons d ds ih =>
    obtain ⟨hd, hrest⟩ := pairwise_cons.mp hds
    have hfind : acc.find? (fun e => e.1.same d.1) = none :=
      find?_eq_none.mpr fun a ha => by simp [hacc a ha d mem_cons_self]
    have hinsert : insertDrive d.1 d.2 acc = acc ++ [d] := by
      rcases insertDrive_cases d.1 d.2 acc with ⟨-, h⟩ | ⟨_, _, _, _, h, -⟩
      · exact h
      · rw [hfind] at h
        cases h
    rw [replaced, hfind, hinsert]
    exact ih (forall_mem_append.mpr ⟨fun a ha e he => hacc a ha e (mem_cons_of_mem _ he),
      forall_mem_singleton.mpr hd⟩) hrest

/-! ### Sums of fields -/

/-- The drives of a sum of fields before they are merged. -/
def gathered (f g : Field Rat) : Outcome (Field Rat) := g.drives.foldlM addDrive f

theorem plus_eq_canon : f.plus g = (f.gathered g >>= canon) := rfl

theorem addDrive_keeps (hf : Playable env f.drives) (hw : w.Lasting env) (hm : m.Valued env) :
    ∃ f', f.addDrive (m, w) = .ok f' ∧ Playable env f'.drives ∧
      ∀ k t x v, 0 < t → f.driveAt env env k t = .ok x → driveValue env env k t (m, w) = .ok v →
        f'.driveAt env env k t = .ok (x + v) := by
  cases hfind : f.drives.find? (fun d => d.1.same m) with
  | none =>
    refine ⟨f.insert m w, by simp [addDrive, find?, hfind], hf.insertDrive hw hm, ?_⟩
    intro k t x v _ hx hv
    obtain ⟨z, hz, hsum⟩ := sumOf_insertDrive hf hx hv
    rw [hfind] at hz
    obtain rfl := sumOf_nil.mp hz
    rwa [sub_zero] at hsum
  | some d =>
    obtain ⟨m', w'⟩ := d
    have hw' : w'.Lasting env := hf.lasting _ (mem_of_find?_eq_some hfind)
    obtain ⟨u, hu, hlasting, hadds⟩ := hw'.plus_keeps hw
    refine ⟨f.insert m u, by simp [addDrive, find?, hfind, hu], hf.insertDrive hlasting hm, ?_⟩
    intro k t x v ht hx hv
    -- The sum of the two waveforms is entered in place of the first.
    obtain ⟨z, hz⟩ := exists_of_mem_sumOf hx (mem_of_find?_eq_some hfind)
    obtain ⟨c', y', hc', hy', rfl⟩ := driveValue_eq_ok.mp hz
    obtain ⟨c, y, hc, hy, rfl⟩ := driveValue_eq_ok.mp hv
    have hsame : m'.same m := by simpa using find?_some hfind
    have hm' : m'.Valued env := hf.valued _ (mem_of_find?_eq_some hfind)
    obtain rfl : c = c' := by simpa [hc] using coefficient_of_same hm' hsame hc'
    have hnew : driveValue env env k t (m, u) = .ok (c * (y' + y)) :=
      driveValue_eq_ok.mpr ⟨c, y' + y, hc, hadds t ht y' y hy' hy, rfl⟩
    obtain ⟨r, hr, hsum⟩ := sumOf_insertDrive hf hx hnew
    rw [hfind] at hr
    obtain rfl : c * y' = r := by simpa [hz] using sumOf_singleton.mp hr
    have hring : x + c * (y' + y) - c * y' = x + c * y := by ring
    rwa [hring] at hsum

theorem gathered_keeps (hf : Playable env f.drives) (hg : Playable env g.drives) :
    ∃ h, f.gathered g = .ok h ∧ Playable env h.drives ∧
      ∀ k t x y, 0 < t → f.driveAt env env k t = .ok x → g.driveAt env env k t = .ok y →
        h.driveAt env env k t = .ok (x + y) := by
  obtain ⟨ds⟩ := g
  simp only [gathered, driveAt] at hg ⊢
  induction ds generalizing f with
  | nil =>
    refine ⟨f, rfl, hf, fun k t x y _ hx hy => ?_⟩
    rwa [sumOf_nil.mp hy, add_zero]
  | cons d ds ih =>
    obtain ⟨⟨hw, hm⟩, hrest⟩ := playable_cons.mp hg
    obtain ⟨f', hf', hplayable, hadds⟩ := addDrive_keeps hf hw hm
    obtain ⟨h, hh, hplayable, hsum⟩ := ih hplayable hrest
    refine ⟨h, by rw [foldlM_cons, hf']; exact hh, hplayable, fun k t x y ht hx hy => ?_⟩
    obtain ⟨a, b, ha, hb, rfl⟩ := sumOf_cons.mp hy
    rw [← add_assoc]
    exact hsum k t (x + a) b ht (hadds k t x a ht hx ha) hb

/-- The drives that canonical form loses: those that a later one with an equal modulation
replaces. -/
def lost (f : Field Rat) : Outcome (List (Drive Rat)) := do
  return replaced [] (← f.merged)

/-- If all merged modulations differ, canonical form loses nothing. -/
theorem lost_eq_nil (hds : f.merged = .ok ds) (h : ds.Pairwise fun d e => d.1.same e.1 = false) :
    f.lost = .ok [] := by
  rw [lost, hds, Outcome.ok_bind, replaced_eq_nil (by simp) h]
  rfl

/-- Canonical form contributes what the field does, less what it loses. -/
theorem canon_keeps_but_lost (hf : Playable env f.drives) :
    ∃ f' ds, f.canon = .ok f' ∧ f.lost = .ok ds ∧ ∀ k t v, f.driveAt env env k t = .ok v →
      ∃ x, sumOf (driveValue env env k t) ds = .ok x ∧ f'.driveAt env env k t = .ok (v - x) := by
  obtain ⟨ds, hds, hplayable, hkeeps⟩ := merged_keeps hf
  refine ⟨ofDrives ds, replaced [] ds, by rw [canon_eq_ofDrives, hds]; rfl,
    by rw [lost, hds]; rfl, fun k t v hv => ?_⟩
  obtain ⟨x, hx, hsum⟩ := sumOf_foldl_insertDrive .nil hplayable rfl (hkeeps k t v hv)
  refine ⟨x, hx, ?_⟩
  rwa [driveAt, ofDrives_eq_foldl, ← zero_add v]

/-- **Merging keeps the drive but for what is replaced.** At every site and every time after the
start, canonical form contributes what the field does and a sum of fields what both do together,
less the lost drives; nothing is lost where the merged modulations all differ. -/
theorem canon_plus_drive_less_lost (hf : Playable env f.drives) (hg : Playable env g.drives) :
    (∃ f' ds, f.canon = .ok f' ∧ f.lost = .ok ds ∧
      ∀ k t v, 0 < t → f.driveAt env env k t = .ok v →
        ∃ x, sumOf (driveValue env env k t) ds = .ok x ∧ f'.driveAt env env k t = .ok (v - x)) ∧
    (∃ h f' ds, f.gathered g = .ok h ∧ f.plus g = .ok f' ∧ h.lost = .ok ds ∧
      ∀ k t x y, 0 < t → f.driveAt env env k t = .ok x → g.driveAt env env k t = .ok y →
        ∃ z, sumOf (driveValue env env k t) ds = .ok z ∧
          f'.driveAt env env k t = .ok (x + y - z)) ∧
    ∀ (h : Field Rat) ds, h.merged = .ok ds → ds.Pairwise (fun d e => d.1.same e.1 = false) →
      h.lost = .ok [] := by
  refine ⟨?_, ?_, fun h ds hds hdiffer => lost_eq_nil hds hdiffer⟩
  · obtain ⟨f', ds, hcanon, hlost, hkeeps⟩ := canon_keeps_but_lost hf
    exact ⟨f', ds, hcanon, hlost, fun k t v _ hv => hkeeps k t v hv⟩
  · obtain ⟨h, hh, hplayable, hsum⟩ := gathered_keeps hf hg
    obtain ⟨f', ds, hcanon, hlost, hkeeps⟩ := canon_keeps_but_lost hplayable
    refine ⟨h, f', ds, hh, by rw [plus_eq_canon, hh]; exact hcanon, hlost, ?_⟩
    exact fun k t x y ht hx hy => hkeeps k t (x + y) (hsum k t x y ht hx hy)

/-- Two drives of one waveform on neighbouring sites, and another waveform on both. -/
def overlappingMasks : Field Rat :=
  ⟨[(.scaled [(0, .lit 1)], .constant (.lit 1) (.lit 1)),
    (.scaled [(1, .lit 1)], .constant (.lit 1) (.lit 1)),
    (.scaled [(0, .lit 1), (1, .lit 1)], .constant (.lit 2) (.lit 1))]⟩

/-- A ramp on all sites. -/
def uniformRamp : Field Rat := ⟨[(.uniform, .linear (.lit 0) (.lit 1) (.lit 1))]⟩

theorem overlappingMasks_playable : Playable [] overlappingMasks.drives := by
  have hlit (x : Rat) : (Scalar.lit x).eval [] = .ok x := by rw [Scalar.eval]
  have hwave (x : Rat) : (Waveform.constant (.lit x) (.lit 1)).Lasting [] :=
    .constant (hlit 1) (by norm_num)
  refine ⟨by simp [overlappingMasks, hwave], ?_⟩
  have hscales : Scales.Valued [] [(0, .lit 1)] ∧ Scales.Valued [] [(1, .lit 1)] ∧
      Scales.Valued [] [(0, .lit 1), (1, .lit 1)] :=
    ⟨⟨by simp, by simp [hlit]⟩, ⟨by simp, by simp [hlit]⟩, by simp, by simp [hlit]⟩
  simpa [overlappingMasks, Modulation.Valued, scales?] using hscales

theorem uniformRamp_playable : Playable [] uniformRamp.drives := by
  have hlit (x : Rat) : (Scalar.lit x).eval [] = .ok x := by rw [Scalar.eval]
  refine playable_cons.mpr ⟨⟨.linear (hlit 1) (by norm_num), ?_⟩, .nil⟩
  simp [Modulation.Valued, scales?]

theorem overlappingMasks_drive_less_lost :
    (Playable [] overlappingMasks.drives ∧ Playable [] uniformRamp.drives) ∧
    (∃ f' ds, overlappingMasks.canon = .ok f' ∧ overlappingMasks.lost = .ok ds ∧
      ∃ x, sumOf (driveValue [] [] 0 (1 / 2)) ds = .ok x ∧
        f'.driveAt [] [] 0 (1 / 2) = .ok (3 - x)) ∧
    ∃ h f' ds, overlappingMasks.gathered uniformRamp = .ok h ∧
      overlappingMasks.plus uniformRamp = .ok f' ∧ h.lost = .ok ds ∧
      ∃ z, sumOf (driveValue [] [] 0 (1 / 2)) ds = .ok z ∧
        f'.driveAt [] [] 0 (1 / 2) = .ok (3 + 1 / 2 - z) := by
  have hmasks : overlappingMasks.driveAt [] [] 0 (1 / 2) = .ok 3 := by with_unfolding_all rfl
  have hramp : uniformRamp.driveAt [] [] 0 (1 / 2) = .ok (1 / 2) := by with_unfolding_all rfl
  obtain ⟨⟨f', ds, hcanon, hlost, hkeeps⟩, ⟨h, f'', ds', hh, hplus, hlost', hkeeps'⟩, -⟩ :=
    canon_plus_drive_less_lost overlappingMasks_playable uniformRamp_playable
  exact ⟨⟨overlappingMasks_playable, uniformRamp_playable⟩,
    ⟨f', ds, hcanon, hlost, hkeeps 0 (1 / 2) 3 (by norm_num) hmasks⟩,
    h, f'', ds', hh, hplus, hlost', hkeeps' 0 (1 / 2) 3 (1 / 2) (by norm_num) hmasks hramp⟩

/-- The merged mask of the first two drives is equal to the mask of the third, whose waveform
replaces theirs: of the drive `1 + 2` on the first site, `2` is left. -/
theorem overlappingMasks_lose_drive :
    overlappingMasks.driveAt [] [] 0 (1 / 2) = .ok 3 ∧
      ∃ f', overlappingMasks.canon = .ok f' ∧ f'.driveAt [] [] 0 (1 / 2) = .ok 2 := by
  have hplus : Scalar.plus (.const 0) (.lit (1 : Rat)) = .ok (.lit 1) := by with_unfolding_all rfl
  refine ⟨by with_unfolding_all rfl,
    ⟨[(.scaled [(0, .lit 1), (1, .lit 1)], .constant (.lit 2) (.lit 1))]⟩, ?_, ?_⟩
  · simp [overlappingMasks, canon, groups, addToGroup, Waveform.same, Scalar.same, mergeScaled,
      Modulation.scales?, Scales.merge, hplus, Scales.insert, ofDrives, Field.insert,
      insertDrive, Modulation.same, Scales.same, List.lookup_cons]
  · with_unfolding_all rfl

end Field

end AtomArray
