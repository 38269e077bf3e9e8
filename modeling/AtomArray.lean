import AtomArray.Wire.RemoteRun
import AtomArray.Wire.Drawing
import AtomArray.Wire.Visit
import AtomArray.Figure.Report
import AtomArray.Proofs.FieldMerge
import AtomArray.Proofs.CompileCache
import AtomArray.Proofs.RecordedEnd
import AtomArray.Proofs.DetuningSplit
import AtomArray.Proofs.NumberSorts
import AtomArray.Proofs.CouplerProducts
import AtomArray.Proofs.JoinedProgram
import AtomArray.Proofs.BatchSubmission
import AtomArray.Proofs.SavedLegacyBatch
import AtomArray.Proofs.SavedEmulatorBatch
import AtomArray.Proofs.Polling
import AtomArray.Proofs.BatchViews
import AtomArray.Proofs.ReportViews
import AtomArray.Proofs.EmulationTime
import AtomArray.Proofs.RecordedCalls
import AtomArray.Proofs.BatchPoints
import AtomArray.Proofs.CanonicalWaveform
import AtomArray.Proofs.Constancy
import AtomArray.Proofs.SiteIndices
import AtomArray.Proofs.NamedParts
import AtomArray.Proofs.IdlePieces
import AtomArray.Proofs.UnbrokenSeries
import AtomArray.Proofs.DeviceGrid
import AtomArray.Proofs.FockStates
import AtomArray.Proofs.Defects
import AtomArray.Proofs.SiteCounts
import AtomArray.Proofs.DecoderCounts
