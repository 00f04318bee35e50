import Zpsc.Fofb.Proofs.TruncatedProofs
import Zpsc.Fofb.Proofs.Flt2FixProofs
import Zpsc.Fault.Proofs.InterlockProofs
import Zpsc.Fault.Proofs.IsolationProofs
import Zpsc.Dac.Proofs.UnipolarProofs
import Zpsc.Dac.Proofs.DacCtrlrProofs
import Zpsc.Control.Proofs.LinearSmoothProofs
import Zpsc.Control.Proofs.ChanSettingsProofs
import Zpsc.Control.Proofs.ConvergenceProofs
import Zpsc.Control.Proofs.PolarityProofs
import Zpsc.Snapshot.Proofs.BurstProofs
import Zpsc.Snapshot.Proofs.CoherenceProofs
import Zpsc.Snapshot.Proofs.RingProofs
import Zpsc.Dac.Proofs.LockstepProofs
import Zpsc.Snapshot.Proofs.ReadBufProofs
import Zpsc.Snapshot.Proofs.TriggerProofs
import Zpsc.Fault.Proofs.DualModeProofs
import Zpsc.Dac.Proofs.BumplessProofs
import Zpsc.Control.Proofs.ModeChangeProofs
import Zpsc.Net.Proofs.PscMsgProofs
import Zpsc.Net.Proofs.ListenerProofs
import Zpsc.Manch.Proofs.BpcProofs
import Zpsc.Manch.Proofs.Rx32Proofs
import Zpsc.Commands.Proofs.ConfinedProofs
import Zpsc.Commands.Proofs.ClientMsgProofs
import Zpsc.Commands.Proofs.GainsProofs
import Zpsc.Snapshot.Proofs.EdgesProofs
import Zpsc.Fault.Proofs.ThresholdProofs
import Zpsc.Dac.Proofs.CalibrationProofs
import Zpsc.Net.Proofs.TftpProofs
import Zpsc.Net.Proofs.DiscoverProofs
import Zpsc.Commands.Proofs.SadataProofs
import Zpsc.Commands.Proofs.ConsoleProofs
import Zpsc.Commands.Proofs.CommandProofs
import Zpsc.Commands.Proofs.SavedProofs
import Zpsc.Commands.Proofs.FlavorProofs
import Zpsc.Commands.Proofs.FofbScaleProofs
import Zpsc.Fault.Proofs.DebounceProofs
import Zpsc.Fault.Proofs.ClearProofs
import Zpsc.Fault.Proofs.LiveProofs
import Zpsc.Dac.Proofs.TrajectoryProofs
import Zpsc.Control.Proofs.CosineSmoothProofs
import Zpsc.Control.Proofs.SaturationProofs
import Zpsc.Control.Proofs.DivisorsProofs
import Zpsc.Commands.Proofs.RampLoadProofs
import Zpsc.Dac.Proofs.PlaybackProofs
import Zpsc.Commands.Proofs.ReadbackProofs
import Zpsc.Snapshot.Proofs.CacheProofs
import Zpsc.Adc.Proofs.GainOffsetProofs
import Zpsc.Adc.Proofs.AverageProofs
import Zpsc.Adc.Proofs.ModeSwitchProofs
import Zpsc.Net.Proofs.NetConfProofs
import Zpsc.Commands.Proofs.SmoothRampTypeProofs
import Zpsc.Timing.Proofs.NcoRateProofs
import Zpsc.Timing.Proofs.OneHzProofs
import Zpsc.Timing.Proofs.EventRcvTsProofs
import Zpsc.Timing.Proofs.EventRcvChanProofs
import Zpsc.Fault.Proofs.PulseDelayProofs
import Zpsc.Dac.Proofs.FramesProofs
import Zpsc.Adc.Proofs.Ltc2376Proofs
import Zpsc.Adc.Proofs.Ads8568Proofs
import Zpsc.Net.Proofs.TftpRoundTripProofs
import Zpsc.Adc.Proofs.DcctModuleProofs
import Zpsc.Adc.Proofs.MonModuleProofs
import Zpsc.Dac.Proofs.UpdatesProofs
import Zpsc.Fault.Proofs.ReactionProofs
import Zpsc.Net.Proofs.PscDataProofs
