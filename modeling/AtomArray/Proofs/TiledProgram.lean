import AtomArray.Proofs.Exact
import AtomArray.Proofs.HardwareDraft

/-!
Programs over tilings.

A draft of a tiling knows the decoder and how many sites the register has, but takes no sites from
it. Its program therefore has a coefficient for every entry of the decoder when single sites are
driven, and neither sites nor fillings: `HardwareProgram.ofCircuit_tiled`.
-/

namespace AtomArray

open Outcome HardwareDraft

variable {N : Type} [Arith N] {env : Env N} {shots : Int} {p : HardwareProgram N} {t : Tiling N}
  {s : Sequence N} {limits : Option (Capabilities N)}

namespace HardwareDraft

theorem addTiling_eq_ok {d : HardwareDraft N} (h : addTiling env limits {} t = .ok d) :
    ∃ c decoder, limits = some c ∧ t.layOut env c = .ok decoder ∧
      d = { decoder := some decoder, siteCount := some t.locations.length } := by
  cases limits with
  | none => cases h
  | some c =>
    obtain ⟨decoder, hdecoder, h⟩ := bind_eq_ok.mp h
    exact ⟨c, decoder, rfl, hdecoder, (Except.ok.inj h).symm⟩

end HardwareDraft

namespace HardwareProgram

theorem spec_eq_ok {spec : TaskSpec N} (h : p.spec = .ok spec) :
    p.sites.mapM positionUnits = .ok spec.sites ∧
      spec.filling = p.filling.map (fun b => if b then 1 else 0) ∧
      spec.localDetuning.map (·.coefficients) = p.coefficients := by
  obtain ⟨sites, hsites, h⟩ := bind_eq_ok.mp h
  simp only [bind_eq_ok] at h
  obtain ⟨_, -, _, -, _, -, h⟩ := h
  cases hcs : p.coefficients with
  | none =>
    simp only [hcs] at h
    cases h
    exact ⟨hsites, rfl, rfl⟩
  | some cs =>
    simp only [hcs, bind_eq_ok] at h
    obtain ⟨_, -, series, -, localSeries, hlocal, h⟩ := h
    cases h
    cases hlocal
    exact ⟨hsites, rfl, rfl⟩

/-- What a program says about the copies of a register of `size` sites: it has a coefficient for
every entry of the decoder if single sites are driven, but no site and no filling. -/
structure Tiled (decoder : Decoder) (size : Nat) (p : HardwareProgram N) : Prop where
  decoder_eq : p.decoder = some decoder
  sites : p.sites = []
  filling : p.filling = []
  paired : p.localDetuning.isSome = p.coefficients.isSome
  length : ∀ xs, p.coefficients = some xs → xs.length = decoder.mapping.length
  /-- The coefficient of an entry is that of its site of the register. -/
  spread : ∀ xs, p.coefficients = some xs → ∃ base : List (Param N), base.length = size ∧
    decoder.mapping.mapM (fun e => item? base e.localIndex >>= Param.stored?) = .ok xs
  spec : ∀ spec, p.spec = .ok spec → spec.sites = [] ∧ spec.filling = [] ∧
    spec.localDetuning.map (·.coefficients) = p.coefficients

/-- **A program over a tiling has coefficients but no atoms.** -/
theorem ofCircuit_tiled (h : ofCircuit env limits shots ⟨.tiled t, s⟩ = .ok p) :
    ∃ c decoder, limits = some c ∧ t.layOut env c = .ok decoder ∧
      p.Tiled decoder t.locations.length := by
  obtain ⟨d, hd, h⟩ := Outcome.bind_eq_ok.mp h
  obtain ⟨c, decoder, hlimits, hdecoder, rfl⟩ := addTiling_eq_ok hd
  obtain ⟨d, ⟨d', q⟩, hadd, hemit, h⟩ := Outcome.bind₂_eq_ok.mp h
  cases h
  obtain ⟨hcompleted, hemits⟩ := emit_eq_ok hemit
  have hkept := (Adds.of_addSequence hadd).kept.trans
    (completed_kept hcompleted)
  have hcovered := hkept.covered (.of_none rfl rfl)
  have hsites : q.sites = [] := by simpa [hkept.sites rfl] using hemits.sites.symm
  have hfilling : q.filling = [] := hemits.filling.trans (hkept.filling rfl)
  have hspread : ∀ xs, q.coefficients = some xs →
      ∃ base : List (Param N), base.length = t.locations.length ∧
        decoder.mapping.mapM (fun e => item? base e.localIndex >>= Param.stored?) = .ok xs := by
    intro xs hxs
    obtain ⟨cs, hcs, hstored⟩ := hemits.exists_coefficients hxs
    obtain ⟨base, hbase, hcs⟩ := hcovered.spread cs hcs
    rw [hkept.decoder] at hcs
    exact ⟨base, (Option.some.inj (hkept.siteCount.symm.trans hbase)).symm,
      Outcome.mapM_mapM hcs hstored⟩
  refine ⟨c, decoder, hlimits, hdecoder, hemits.decoder.trans hkept.decoder, hsites, hfilling, ?_,
    ?_, hspread, ?_⟩
  · rw [hemits.localDetuning, hemits.isSome_coefficients, hcovered.paired]
  · intro xs hxs
    obtain ⟨base, -, hbase⟩ := hspread xs hxs
    exact (Outcome.mapM_eq_ok_iff.mp hbase).length_eq.symm
  · intro spec hspec
    obtain ⟨hspecSites, hspecFilling, hspecLocal⟩ := spec_eq_ok hspec
    exact ⟨by simpa [hsites] using hspecSites.symm, by simpa [hfilling] using hspecFilling,
      hspecLocal⟩

end HardwareProgram

/-! ### One atom on one site -/

theorem placeCopies_of_full {fits : ClusterIndex → Outcome Bool} {size : Nat} {sitesMax : Int}
    {p : Placement} {seen stack : List ClusterIndex}
    (h : sitesMax < (size * (p.placed.length + 1) : Nat)) :
    placeCopies fits size sitesMax p seen stack = .ok p := by
  cases stack with
  | nil => rw [placeCopies]
  | cons c rest => rw [placeCopies, if_pos (.inr h)]

def Tiling.ofOneAtom : Tiling Rat where
  register := .list [⟨.lit 0, .lit 0, true⟩]
  spacing := .lit 5
  locations := [(.lit 0, .lit 0)]
  filling := [true]
  shiftX := .lit 5
  shiftY := .lit 5

def Capabilities.oneSite : Capabilities Rat :=
  { Capabilities.standard with lattice := { Capabilities.standard.lattice with sitesMax := 1 } }

theorem Tiling.layOut_ofOneAtom : ofOneAtom.layOut [] .oneSite = .ok ⟨[⟨(0, 0), 0, 0⟩], 1, 1⟩ := by
  have hheight : inMicrometres Capabilities.oneSite.lattice.height = .ok 76 := by
    with_unfolding_all rfl
  have hwidth : inMicrometres Capabilities.oneSite.lattice.width = .ok 75 := by
    with_unfolding_all rfl
  have hlocations : ofOneAtom.locations.mapM (evalPoint []) = .ok [(0, 0)] := by
    with_unfolding_all rfl
  have hshifts : ofOneAtom.shifts.mapM (evalPoint []) = .ok [(5, 0), (0, 5)] := by
    with_unfolding_all rfl
  have horigin : toOrigin [((0 : Rat), (0 : Rat))] = .ok [(0, 0)] := by with_unfolding_all rfl
  have hfits : (shifted [((0 : Rat), (0 : Rat))] (5, 0) (0, 5) (0, 0) >>= fun copy =>
      within 75 76 copy) = .ok true := by
    with_unfolding_all rfl
  have hplace : ofOneAtom.place [] .oneSite = .ok ⟨[(0, 0)], [(0, 0)]⟩ := by
    simp only [place, hheight, hwidth, hlocations, hshifts, horigin, ok_bind]
    rw [placeCopies, if_neg (by decide), hfits, ok_bind, if_pos rfl]
    exact placeCopies_of_full (by decide)
  rw [layOut, hplace]
  rfl

namespace HardwareProgram

/-- The atom is driven with all others and by a coefficient. -/
def oneAtom : Circuit Rat where
  register := .tiled .ofOneAtom
  sequence := .pulses [(.rydberg, .fields [(.detuning, ⟨[
    (.uniform, .constant (.lit 1) (.lit 1)),
    (.scaled [(0, .lit 3)], .constant (.lit 2) (.lit 1))]⟩)])]

def oneAtomProgram : HardwareProgram Rat where
  shots := 1
  decoder := some ⟨[⟨(0, 0), 0, 0⟩], 1, 1⟩
  sites := []
  filling := []
  detuning := ⟨[0, 1], [1, 1]⟩
  amplitude := ⟨[0, 1], [0, 0]⟩
  phase := ⟨[0, 1], [0, 0]⟩
  coefficients := some [3]
  localDetuning := some ⟨[0, 1], [2, 2]⟩

theorem ofCircuit_oneAtom : ofCircuit [] (some .oneSite) 1 oneAtom = .ok oneAtomProgram := by
  have hdraft : addTiling [] (some .oneSite) {} .ofOneAtom =
      .ok { decoder := some ⟨[⟨(0, 0), 0, 0⟩], 1, 1⟩, siteCount := some 1 } := by
    simp only [addTiling, Tiling.layOut_ofOneAtom, ok_bind]
    rfl
  simp only [ofCircuit, oneAtom, hdraft, ok_bind]
  with_unfolding_all rfl

theorem oneAtomProgram_tiled :
    oneAtomProgram.coefficients = some [3] ∧ ∃ c decoder, some Capabilities.oneSite = some c ∧
      Tiling.ofOneAtom.layOut [] c = .ok decoder ∧ oneAtomProgram.Tiled decoder 1 :=
  ⟨rfl, ofCircuit_tiled ofCircuit_oneAtom⟩

/-- The atom is placed, and the program has a coefficient for it but no site. -/
theorem oneAtom_has_no_site :
    Tiling.ofRegister (.list [⟨.lit 0, .lit 0, true⟩]) (.lit 5) = .ok .ofOneAtom ∧
      ∃ p decoder, ofCircuit [] (some .oneSite) 1 oneAtom = .ok p ∧ p.decoder = some decoder ∧
        decoder.mapping = [⟨(0, 0), 0, 0⟩] ∧ p.coefficients = some [3] ∧ p.sites = [] ∧
        p.filling = [] := by
  refine ⟨by with_unfolding_all rfl, oneAtomProgram, _, ofCircuit_oneAtom, rfl, ?_⟩
  exact ⟨rfl, rfl, rfl, rfl⟩

end HardwareProgram

end AtomArray
