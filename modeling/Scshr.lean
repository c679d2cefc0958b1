import Scshr.App.ServerCode
import Scshr.App.SettingsFile
import Scshr.App.SetupRollback
import Scshr.App.ShellQuote
import Scshr.App.StuckKeys
import Scshr.App.WindowsRollback
import Scshr.Common.Ring
import Scshr.Crypto.CounterBlocks
import Scshr.Mac.EndpointGrammar
import Scshr.Mac.PfIsolation
import Scshr.Mac.RejectedPair
import Scshr.Media.AssemblerAnchor
import Scshr.Media.AssemblerEviction
import Scshr.Media.AssemblerReorder
import Scshr.Media.AvcChain
import Scshr.Media.AvcPacketizer
import Scshr.Media.BurstHoles
import Scshr.Media.DecoderBuffers
import Scshr.Media.DecoderFeed
import Scshr.Media.FirPacing
import Scshr.Media.HevcArithmetic
import Scshr.Media.HevcFeed
import Scshr.Media.HevcPrediction
import Scshr.Media.NaluSafety
import Scshr.Media.PocDerivation
import Scshr.Media.Resampler
import Scshr.Media.SequenceTracking
import Scshr.Media.SessionAudio
import Scshr.Media.SpsPatch
import Scshr.Protocol.BplistSafety
import Scshr.Protocol.BplistStrings
import Scshr.Protocol.CanvasSearch
import Scshr.Protocol.ClipboardPrefix
import Scshr.Protocol.ClipboardText
import Scshr.Protocol.ControlBuffer
import Scshr.Protocol.Handoff
import Scshr.Protocol.LongCallid
import Scshr.Protocol.Nack
import Scshr.Protocol.OffersProgress
import Scshr.Protocol.RecordDamage
import Scshr.Protocol.Srp
import Scshr.Session.ClipboardStream
import Scshr.Session.CursorCache
import Scshr.Session.LossRequests
import Scshr.Session.PrimaryGroup
import Scshr.Session.SsrcAdoption
import Scshr.Tunnel.AudioAgent
import Scshr.Tunnel.Redaction
import Scshr.Tunnel.RelayIsolation
import Scshr.Tunnel.WindowsConf
